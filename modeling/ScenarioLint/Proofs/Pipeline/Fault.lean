import ScenarioLint.Proofs.Pipeline.Order

/-!
Checks that break off.  A check that breaks off on a scenario adds one issue to it, where its findings
would have been, and takes nothing away: neither from the other checks of the scenario nor from
the other scenarios of the batch.
-/

namespace ScenarioLint

namespace ScenarioCheck

/-- The issues that a check adds to a scenario: what it finds or, if it breaks off, one internal
    issue of that scenario. -/
inductive Yields (c : ScenarioCheck) (r : Record) (context : Context) : List Issue → Prop
  | found {issues : List Issue} (hrun : c.run r context = .ok issues) : Yields c r context issues
  | fault {fault : Fault} {issue : Issue} (hrun : c.run r context = .error fault)
      (hcategory : issue.category = .internal) (hcontext : issue.context = some context) :
      Yields c r context [issue]

/-- The check breaks off on the record. -/
def Faults (c : ScenarioCheck) (r : Record) (context : Context) : Prop :=
  ∃ fault, c.run r context = .error fault

/-- The check with nothing to say where it breaks off. -/
def silenced (c : ScenarioCheck) : ScenarioCheck :=
  { c with run := fun r context => .ok ((c.run r context).toOption.getD []) }

theorem yields_issues (c : ScenarioCheck) (r : Record) (context : Context) :
    c.Yields r context (c.issues r context) := by
  rw [issues]
  cases hrun : c.run r context with
  | ok found => exact .found hrun
  | error fault => exact .fault hrun rfl rfl

theorem issues_silenced {c : ScenarioCheck} {r : Record} {context : Context}
    (h : ¬ c.Faults r context) : c.silenced.issues r context = c.issues r context := by
  rw [issues, issues]
  cases hrun : c.run r context with
  | ok found => simp [silenced, hrun, Except.toOption]
  | error fault => exact absurd ⟨fault, hrun⟩ h

end ScenarioCheck

namespace Pipeline

/-- The issues that the built-in checks find in a text. -/
def builtinIssues (policy : Policy) (options : PipelineOptions) (text : Text) (context : Context) :
    List Issue :=
  Check.vocabulary policy text context ++ Check.status policy text context ++
    if options.grammar then Check.grammar text context else []

/-- The issues of a scenario are those of the built-in checks and then those of each check that was
    added. -/
theorem outcome_assemble (policy : Policy) (checks : List ScenarioCheck)
    (options : PipelineOptions) (i : Nat) (r : Record) :
    (assemble policy checks (some options)).outcome i r =
      ⟨i, (r.repaired options.repair).text,
        builtinIssues policy options (r.repaired options.repair).text (.ofRecord r) ++
          checks.flatMap (·.issues (r.repaired options.repair) (.ofRecord r))⟩ := by
  rw [assemble_eq]
  cases hgrammar : options.grammar <;>
    simp [outcome, process, builtin, builtinIssues, ScenarioCheck.ofText, ScenarioCheck.issues,
      hgrammar]

/-- Two runs leave the same records behind and report the same texts and the same issues of the
    batch. -/
structure SameBatch (run other : List Record × Report) : Prop where
  records : run.1 = other.1
  texts : run.2.scenarios.map Outcome.canonicalText = other.2.scenarios.map Outcome.canonicalText
  batchIssues : run.2.batchIssues = other.2.batchIssues

section Runs

variable {policy : Policy} {options others : PipelineOptions} {records : List Record}

/-- The texts of a batch are decided by the repair alone. -/
theorem map_canonicalText_run (policy : Policy) (checks : List ScenarioCheck)
    (options : PipelineOptions) (records : List Record) :
    ((assemble policy checks (some options)).run records).2.scenarios.map Outcome.canonicalText =
      records.map fun r => (r.repaired options.repair).text := by
  apply List.ext_getElem?
  intro i
  simp only [List.getElem?_map, getElem?_scenarios, Option.map_map]
  exact congrArg (Option.map · records[i]?) (funext fun r =>
    congrArg Outcome.canonicalText (outcome_assemble policy checks options i r))

/-- Neither the checks that were added nor the choice of the built-in ones have a say in anything but
    the issues of the scenarios. -/
theorem sameBatch_run_of_repair (h : options.repair = others.repair)
    (checks added : List ScenarioCheck) :
    SameBatch ((assemble policy checks (some options)).run records)
      ((assemble policy added (some others)).run records) := by
  refine ⟨?_, ?_, ?_⟩
  · rw [run_eq, run_eq, assemble_eq, assemble_eq, h]
  · rw [map_canonicalText_run, map_canonicalText_run, h]
  · rw [run_eq, run_eq, assemble_eq, assemble_eq]

/-- The checks that were added have a say in the issues of the scenarios alone. -/
theorem sameBatch_run (checks others : List ScenarioCheck) :
    SameBatch ((assemble policy checks (some options)).run records)
      ((assemble policy others (some options)).run records) :=
  sameBatch_run_of_repair rfl checks others

theorem getElem?_scenarios_assemble {i : Nat} {r : Record} (h : records[i]? = some r)
    (checks : List ScenarioCheck) :
    ((assemble policy checks (some options)).run records).2.scenarios[i]? =
      some ⟨i, (r.repaired options.repair).text,
        builtinIssues policy options (r.repaired options.repair).text (.ofRecord r) ++
          checks.flatMap (·.issues (r.repaired options.repair) (.ofRecord r))⟩ := by
  rw [getElem?_scenarios, h, Option.map_some, outcome_assemble]

end Runs

/-- The issues of a scenario are what the built-in checks find and then what each of the added checks
    yields, in their order, where a check that breaks off yields one internal issue.  A check has
    no other effect than that: without it, or if it says nothing where it breaks off, the batch has the
    same texts and issues, and its scenarios have all of their other issues. -/
theorem run_isolates_faults (policy : Policy) (options : PipelineOptions) (records : List Record) :
    let batch (checks : List ScenarioCheck) : List Record × Report :=
      (assemble policy checks (some options)).run records
    (∀ (checks : List ScenarioCheck) (i : Nat) (r : Record), records[i]? = some r →
      ∃ parts, List.Forall₂
        (fun c part => c.Yields (r.repaired options.repair) (.ofRecord r) part) checks parts ∧
      (batch checks).2.scenarios[i]? = some ⟨i, (r.repaired options.repair).text,
        builtinIssues policy options (r.repaired options.repair).text (.ofRecord r) ++
          parts.flatten⟩) ∧
    ∀ (front : List ScenarioCheck) (c : ScenarioCheck) (back : List ScenarioCheck),
      let whole := batch (front ++ c :: back)
      let silent := batch (front ++ c.silenced :: back)
      let without := batch (front ++ back)
      SameBatch silent whole ∧ SameBatch without whole ∧
      ∀ (i : Nat) (r : Record), records[i]? = some r →
        (¬ c.Faults (r.repaired options.repair) (.ofRecord r) →
          silent.2.scenarios[i]? = whole.2.scenarios[i]?) ∧
        ∃ text before part behind, c.Yields (r.repaired options.repair) (.ofRecord r) part ∧
          without.2.scenarios[i]? = some ⟨i, text, before ++ behind⟩ ∧
          whole.2.scenarios[i]? = some ⟨i, text, before ++ part ++ behind⟩ := by
  dsimp only
  refine ⟨fun checks i r hr => ?_, fun front c back => ⟨sameBatch_run _ _, sameBatch_run _ _,
    fun i r hr => ⟨fun hquiet => ?_, ?_⟩⟩⟩
  · refine ⟨checks.map (·.issues (r.repaired options.repair) (.ofRecord r)), ?_, ?_⟩
    · rw [List.forall₂_map_right_iff, List.forall₂_same]
      exact fun c _ => c.yields_issues _ _
    · rw [getElem?_scenarios_assemble hr, List.flatMap_def]
  · rw [getElem?_scenarios_assemble hr, getElem?_scenarios_assemble hr, List.flatMap_append,
      List.flatMap_append, List.flatMap_cons, List.flatMap_cons,
      ScenarioCheck.issues_silenced hquiet]
  · refine ⟨(r.repaired options.repair).text,
      builtinIssues policy options (r.repaired options.repair).text (.ofRecord r) ++
        front.flatMap (·.issues (r.repaired options.repair) (.ofRecord r)),
      c.issues (r.repaired options.repair) (.ofRecord r),
      back.flatMap (·.issues (r.repaired options.repair) (.ofRecord r)),
      c.yields_issues _ _, ?_, ?_⟩
    · rw [getElem?_scenarios_assemble hr, List.flatMap_append, List.append_assoc]
    · rw [getElem?_scenarios_assemble hr, List.flatMap_append, List.flatMap_cons,
        List.append_assoc, List.append_assoc]

end Pipeline

end ScenarioLint
