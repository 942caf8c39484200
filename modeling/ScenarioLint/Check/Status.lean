import ScenarioLint.Issue
import ScenarioLint.Policy.Basic
import ScenarioLint.Scenario.Docstring
import ScenarioLint.Scenario.Phrase

/-!
Checking the status code that a scenario asserts against the codes that a policy allows.

The first status line outside docstrings counts.
-/

namespace ScenarioLint.Check

open Scenario (Role)

structure StatusAssertion where
  line : Nat
  code : Nat
  deriving DecidableEq, Repr

/-- The first status assertion in lines with their roles.  The first line has the given
    number. -/
def firstStatus? (number : Nat) : List (Role × Text) → Option StatusAssertion
  | [] => none
  | (role, line) :: rest =>
    match (if role = .text then Scenario.statusCode? line else none) with
    | some code => some ⟨number, code⟩
    | none => firstStatus? (number + 1) rest

def statusAssertion? (text : Text) : Option StatusAssertion :=
  let lines := text.lines
  firstStatus? 1 ((Role.scan lines).zip lines)

def noStatusIssue (context : Context) : Issue :=
  ⟨.status, some context, none,
    "No explicit status assertion found (".toList ++ context.text ++ ").".toList⟩

def unexpectedStatusIssue (context : Context) (found : StatusAssertion)
    (allowed : List StatusCode) : Issue :=
  ⟨.status, some context, some found.line,
    "Unexpected status ".toList ++ Text.ofNat found.code ++ " for ".toList ++ context.kind.name ++
      " scenario (".toList ++ context.endpointText ++ "); allowed=[".toList ++
      Text.join ", ".toList (allowed.map fun code => Text.ofNat code.toNat) ++ "].".toList⟩

def status (policy : Policy) (text : Text) (context : Context) : List Issue :=
  match statusAssertion? text with
  | none => [noStatusIssue context]
  | some found =>
    let allowed := policy.allowedCodes context.method context.kind
    if allowed.isEmpty || allowed.any (·.toNat = found.code) then []
    else [unexpectedStatusIssue context found allowed]

end ScenarioLint.Check
