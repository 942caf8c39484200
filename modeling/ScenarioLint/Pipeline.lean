import ScenarioLint.Check.Checklist
import ScenarioLint.Check.Grammar
import ScenarioLint.Check.Status
import ScenarioLint.Check.Vocabulary
import ScenarioLint.Report
import ScenarioLint.Scenario.Repair

/-!
Repairing and checking a batch of scenarios.

Each scenario is repaired and then goes through all checks.  A check that breaks off counts as one
issue and stops nothing else.  The scenarios may be finished in any order; the report lists them
in the order of the batch.
-/

namespace ScenarioLint

open Scenario (RepairOptions)

def Record.repaired (options : RepairOptions) (r : Record) : Record :=
  { r with canonicalText := some (Scenario.repair options r.endpoint r.rawText) }

/-- Why a check broke off. -/
inductive Fault where
  | message (t : Text)
  | unknown
  deriving DecidableEq, Repr

def Fault.reason : Fault → Text
  | message t => t
  | unknown => "unknown panic".toList

/-- A check of single scenarios. -/
structure ScenarioCheck where
  name : Text
  run : Record → Context → Except Fault (List Issue)

namespace ScenarioCheck

/-- A check of the text of a scenario that never breaks off. -/
def ofText (name : Text) (check : Text → Context → List Issue) : ScenarioCheck :=
  ⟨name, fun r context => .ok (check r.text context)⟩

def faultIssue (c : ScenarioCheck) (context : Context) (fault : Fault) : Issue :=
  ⟨.internal, some context, none,
    "Internal error in ".toList ++ c.name ++ " check for scenario (".toList ++ context.text ++
      "): ".toList ++ fault.reason⟩

/-- The issues of a scenario, also if the check breaks off. -/
def issues (c : ScenarioCheck) (r : Record) (context : Context) : List Issue :=
  match c.run r context with
  | .ok found => found
  | .error fault => [c.faultIssue context fault]

end ScenarioCheck

structure PipelineOptions where
  /-- Scenarios may be worked on at the same time, and so be finished in any order. -/
  parallel : Bool
  grammar : Bool
  repair : RepairOptions
  deriving DecidableEq, Repr

def PipelineOptions.standard : PipelineOptions :=
  ⟨true, true, .standard⟩

/-- A policy with the checks that every scenario goes through. -/
structure Pipeline where
  policy : Policy
  options : PipelineOptions
  checks : List ScenarioCheck

namespace Pipeline

def builtin (policy : Policy) (options : PipelineOptions) : List ScenarioCheck :=
  [.ofText "vocabulary".toList (Check.vocabulary policy),
   .ofText "status".toList (Check.status policy)] ++
    if options.grammar then [.ofText "grammar".toList Check.grammar] else []

def build (policy : Policy) (options : PipelineOptions) : Pipeline :=
  ⟨policy, options, builtin policy options⟩

def new (policy : Policy) : Pipeline :=
  build policy .standard

def builtinCount (p : Pipeline) : Nat :=
  if p.options.grammar then 3 else 2

def withCheck (p : Pipeline) (check : ScenarioCheck) : Pipeline :=
  { p with checks := p.checks ++ [check] }

/-- Changes the options and keeps the checks that were added. -/
def withOptions (p : Pipeline) (options : PipelineOptions) : Pipeline :=
  ⟨p.policy, options, builtin p.policy options ++ p.checks.drop p.builtinCount⟩

def assemble (policy : Policy) (checks : List ScenarioCheck) (options : Option PipelineOptions) :
    Pipeline :=
  let p := checks.foldl withCheck (new policy)
  match options with
  | none => p
  | some options => p.withOptions options

def process (p : Pipeline) (index : Nat) (r : Record) : Record × Outcome :=
  let context := Context.ofRecord r
  let r := r.repaired p.options.repair
  (r, ⟨index, r.text, p.checks.flatMap (·.issues r context)⟩)

/-- A batch while it is worked on: its records, those that are finished with their repaired texts, and
    the outcomes of the finished ones in the order in which they came. -/
structure Progress where
  records : List Record
  outcomes : List Outcome

/-- Works on the record with the given index, in its place in the batch. -/
def advance (p : Pipeline) (s : Progress) (index : Nat) : Progress :=
  match s.records[index]? with
  | none => s
  | some r =>
    let (r, outcome) := p.process index r
    ⟨s.records.set index r, s.outcomes ++ [outcome]⟩

/-- The report on a batch when all of its scenarios are finished. -/
def report (p : Pipeline) (s : Progress) : Report :=
  ⟨p.policy.fingerprintText, s.outcomes.mergeSort fun a b => a.index ≤ b.index,
    Check.checklist p.policy (s.records.map Record.kind)⟩

/-- Checks a batch whose scenarios are finished in the given order: the batch with its repaired
    texts, and the report. -/
def runInOrder (p : Pipeline) (order : List Nat) (records : List Record) :
    List Record × Report :=
  let s := order.foldl p.advance ⟨records, []⟩
  (s.records, p.report s)

def run (p : Pipeline) (records : List Record) : List Record × Report :=
  p.runInOrder (List.range records.length) records

end Pipeline

end ScenarioLint
