import ScenarioLint.Pipeline

/-!
Working on a batch under a policy, one request at a time, as those do who call the library and not
the program: records come and go, are edited, repaired and checked one by one, and a pipeline runs
over all of them.

A request that names a record outside the batch is refused and changes nothing.
-/

namespace ScenarioLint

open Scenario (RepairOptions)

structure Session where
  policy : Policy
  records : List Record

namespace Session

def start : Session :=
  ⟨.ofRulebooks [] [], []⟩

inductive Edit where
  | setRaw (text : Text)
  /-- Makes the repaired text the generated one. -/
  | promote
  | clearCanonical
  | setKind (kind : ScenarioKind)
  | setEndpoint (endpoint : Endpoint)
  | repair (options : RepairOptions)

def Edit.apply (r : Record) : Edit → Record
  | setRaw text => { r with rawText := text }
  | promote => { r with rawText := r.text }
  | clearCanonical => { r with canonicalText := none }
  | setKind kind => { r with kind := kind }
  | setEndpoint endpoint => { r with endpoint := endpoint }
  | repair options => r.repaired options

inductive Request where
  | usePolicy (policy : Policy)
  | add (r : Record)
  | remove (index : Nat)
  | edit (index : Nat) (edit : Edit)
  /-- Checks the text of a record as it is. -/
  | check (index : Nat)
  | checklist
  /-- Runs a pipeline over the batch and keeps the repaired texts. -/
  | run (options : Option PipelineOptions) (checks : List ScenarioCheck)
  | list

/-- The issues of the three checks of a record. -/
structure Findings where
  vocabulary : List Issue
  status : List Issue
  grammar : List Issue
  deriving DecidableEq, Repr

inductive Answer where
  | policy (policy : Policy)
  | size (n : Nat)
  | record (r : Record)
  | findings (f : Findings)
  | issues (issues : List Issue)
  | report (report : Report) (records : List Record)
  | records (records : List Record)
  | outOfRange (index : Nat)

def findings (policy : Policy) (r : Record) : Findings :=
  let context := Context.ofRecord r
  ⟨Check.vocabulary policy r.text context, Check.status policy r.text context,
    Check.grammar r.text context⟩

/-- The session after a request, and the answer. -/
def step (s : Session) : Request → Session × Answer
  | .usePolicy policy => ({ s with policy }, .policy policy)
  | .add r =>
    let records := s.records ++ [r]
    ({ s with records }, .size records.length)
  | .remove index =>
    if index < s.records.length then
      let records := s.records.eraseIdx index
      ({ s with records }, .size records.length)
    else (s, .outOfRange index)
  | .edit index edit =>
    match s.records[index]? with
    | some r => ({ s with records := s.records.set index (edit.apply r) }, .record (edit.apply r))
    | none => (s, .outOfRange index)
  | .check index =>
    match s.records[index]? with
    | some r => (s, .findings (findings s.policy r))
    | none => (s, .outOfRange index)
  | .checklist => (s, .issues (Check.checklist s.policy (s.records.map Record.kind)))
  | .run options checks =>
    let (records, report) := (Pipeline.assemble s.policy checks options).run s.records
    ({ s with records }, .report report records)
  | .list => (s, .records s.records)

end Session

end ScenarioLint
