import ScenarioLint.Issue

/-!
The report on a batch, its text and its JSON form.
-/

namespace ScenarioLint

open Json (Source Value)

structure Outcome where
  index : Nat
  /-- The text that was checked. -/
  canonicalText : Text
  issues : List Issue
  deriving DecidableEq, Repr

namespace Outcome

def ofSource? (source : Source) : Option Outcome := do
  let fields ← source.fields? [["index".toList], ["canonical_text".toList], ["issues".toList]]
  match fields with
  | [index, text, issues] =>
    let index ← index.bind Source.nat?
    let text ← text.bind Source.text?
    let issues ← issues.bind (Source.list? Issue.ofSource?)
    some ⟨index, text, issues⟩
  | _ => none

def value (o : Outcome) : Value :=
  .present
    [("index", some (.count o.index)),
     ("canonical_text", some (.string o.canonicalText)),
     ("issues", some (Issue.listValue o.issues))]

end Outcome

structure Report where
  fingerprint : Text
  scenarios : List Outcome
  batchIssues : List Issue
  deriving DecidableEq, Repr

namespace Report

/-- The issues of all scenarios in order, and then those of the batch. -/
def issues (r : Report) : List Issue :=
  r.scenarios.flatMap Outcome.issues ++ r.batchIssues

def isClean (r : Report) : Bool :=
  r.issues.isEmpty

def countOf (r : Report) (category : Category) : Nat :=
  r.issues.countP (·.category = category)

/-- The first characters of a text that make up exactly `n` bytes, if there are such. -/
def firstBytes? : Nat → Text → Option Text
  | 0, _ => some []
  | _ + 1, [] => none
  | n + 1, c :: t =>
    if c.utf8Size ≤ n + 1 then (firstBytes? (n + 1 - c.utf8Size) t).map (c :: ·) else none

/-- The part of the fingerprint that the text of a report shows. -/
def shownFingerprint (r : Report) : Text :=
  (firstBytes? 16 r.fingerprint).getD r.fingerprint

def issueLine (i : Issue) : Text :=
  '[' :: (i.category.name ++ "] ".toList ++ i.message)

def summaryLine (r : Report) : Text :=
  Text.ofNat r.scenarios.length ++ " scenarios checked, ".toList ++ Text.ofNat r.issues.length ++
    " issues (policy ".toList ++ r.shownFingerprint ++ [')']

def text (r : Report) : Text :=
  Text.unlines (r.issues.map issueLine ++ [r.summaryLine])

def ofSource? (source : Source) : Option Report := do
  let fields ← source.fields? [["policy_fingerprint".toList], ["scenarios".toList],
    ["batch_issues".toList]]
  match fields with
  | [fingerprint, scenarios, issues] =>
    let fingerprint ← fingerprint.bind Source.text?
    let scenarios ← scenarios.bind (Source.list? Outcome.ofSource?)
    let issues ← issues.bind (Source.list? Issue.ofSource?)
    some ⟨fingerprint, scenarios, issues⟩
  | _ => none

def ofText? (t : Text) : Option Report := do
  let source ← (Json.Document.read t).whole?
  ofSource? source

def value (r : Report) : Value :=
  .present
    [("policy_fingerprint", some (.string r.fingerprint)),
     ("scenarios", some (.array (r.scenarios.map Outcome.value))),
     ("batch_issues", some (Issue.listValue r.batchIssues))]

end Report

end ScenarioLint
