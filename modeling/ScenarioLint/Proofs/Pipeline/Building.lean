import ScenarioLint.Proofs.Check.Message
import ScenarioLint.Proofs.Pipeline.Fault

/-!
Building a pipeline call by call.  Whatever the calls are and however they are mixed, the pipeline has
the built-in checks that its last options ask for and behind them the checks that were added, so it
does not matter on which side of a change of the options a check is added.
-/

namespace ScenarioLint

namespace Pipeline

/-- A call on a pipeline that is being built. -/
inductive Call where
  | withCheck (check : ScenarioCheck)
  | withOptions (options : PipelineOptions)

namespace Call

def apply (p : Pipeline) : Call → Pipeline
  | withCheck check => p.withCheck check
  | withOptions options => p.withOptions options

def check? : Call → Option ScenarioCheck
  | withCheck check => some check
  | withOptions _ => none

def options? : Call → Option PipelineOptions
  | withCheck _ => none
  | withOptions options => some options

end Call

/-- The pipeline that a run of calls builds. -/
def built (policy : Policy) (calls : List Call) : Pipeline :=
  calls.foldl Call.apply (new policy)

/-- The checks that a run of calls adds. -/
def added (calls : List Call) : List ScenarioCheck :=
  calls.filterMap Call.check?

/-- The options that a run of calls ends with. -/
def lastOptions (calls : List Call) : PipelineOptions :=
  (calls.filterMap Call.options?).getLast?.getD .standard

variable {policy : Policy} {checks : List ScenarioCheck} {options : PipelineOptions}

section Step

theorem new_eq (policy : Policy) : new policy = assemble policy [] (some .standard) := by
  rw [assemble_eq, List.append_nil]
  rfl

theorem withCheck_assemble (check : ScenarioCheck) :
    (assemble policy checks (some options)).withCheck check =
      assemble policy (checks ++ [check]) (some options) := by
  rw [assemble_eq, assemble_eq, withCheck, List.append_assoc]

theorem length_builtin (policy : Policy) (options : PipelineOptions) :
    (builtin policy options).length = if options.grammar then 3 else 2 := by
  rw [builtin]
  split <;> rfl

/-- As many checks are passed over as the options in use have built in, and the new options have
    others in front of the rest. -/
theorem withOptions_assemble (other : PipelineOptions) :
    (assemble policy checks (some options)).withOptions other =
      assemble policy checks (some other) := by
  rw [assemble_eq, assemble_eq, withOptions]
  congr 2
  exact List.drop_left' (length_builtin policy options)

end Step

section Run

theorem added_concat (calls : List Call) (call : Call) :
    added (calls ++ [call]) = added calls ++ call.check?.toList := by
  cases call <;> simp [added, Call.check?]

theorem lastOptions_concat (calls : List Call) (call : Call) :
    lastOptions (calls ++ [call]) = call.options?.getD (lastOptions calls) := by
  cases call <;> simp [lastOptions, Call.options?]

theorem apply_assemble (call : Call) :
    call.apply (assemble policy checks (some options)) =
      assemble policy (checks ++ call.check?.toList) (some (call.options?.getD options)) := by
  cases call with
  | withCheck check => exact withCheck_assemble check
  | withOptions other =>
    rw [Call.check?, Option.toList_none, List.append_nil]
    exact withOptions_assemble other

/-- A run of calls does no more than to add its checks and then to set its last options. -/
theorem built_eq (policy : Policy) (calls : List Call) :
    built policy calls = assemble policy (added calls) (some (lastOptions calls)) := by
  induction calls using List.reverseRecOn with
  | nil => exact new_eq policy
  | append_singleton front call ih =>
    rw [built, List.foldl_append, ← built, ih, List.foldl_cons, List.foldl_nil, apply_assemble,
      added_concat, lastOptions_concat]

end Run

end Pipeline

/-- An outcome without the issues of a category. -/
def Outcome.without (category : Category) (o : Outcome) : Outcome :=
  { o with issues := o.issues.filter (·.category ≠ category) }

/-- A report without the issues of a category. -/
def Report.without (category : Category) (r : Report) : Report :=
  { r with
    scenarios := r.scenarios.map (·.without category)
    batchIssues := r.batchIssues.filter (·.category ≠ category) }

namespace Pipeline

variable {policy : Policy} {checks : List ScenarioCheck} {options : PipelineOptions}

/-- Two runs on a batch that differ in nothing but what the check of the grammar finds in each
    scenario, which the one lacks and the other has behind the issues about lines and status. -/
structure LacksGrammar (records : List Record) (less whole : List Record × Report) : Prop where
  sameBatch : SameBatch less whole
  fingerprint : less.2.fingerprint = whole.2.fingerprint
  scenario : ∀ (i : Nat) (r : Record), records[i]? = some r → ∃ text front found behind,
    (∀ issue ∈ front, issue.category ≠ .grammar) ∧
    found = Check.grammar text (.ofRecord r) ∧ (∀ issue ∈ found, issue.category = .grammar) ∧
    whole.2.scenarios[i]? = some ⟨i, text, front ++ found ++ behind⟩ ∧
    less.2.scenarios[i]? = some ⟨i, text, front ++ behind⟩

section Grammar

theorem builtinIssues_grammar (policy : Policy) (options : PipelineOptions) (text : Text)
    (context : Context) :
    builtinIssues policy { options with grammar := true } text context =
      builtinIssues policy { options with grammar := false } text context ++
        Check.grammar text context := by
  simp [builtinIssues]

theorem category_ne_of_mem_builtinIssues {text : Text} {context : Context} {issue : Issue}
    (h : issue ∈ builtinIssues policy { options with grammar := false } text context) :
    issue.category ≠ .grammar := by
  simp only [builtinIssues, Bool.false_eq_true, if_false, List.append_nil, List.mem_append] at h
  rcases h with h | h
  · rw [(Check.concerns_of_mem_vocabulary h).category]
    decide
  · rw [(Check.concerns_of_mem_status h).category]
    decide

theorem lacksGrammar_run (policy : Policy) (checks : List ScenarioCheck)
    (options : PipelineOptions) (records : List Record) :
    LacksGrammar records
      ((assemble policy checks (some { options with grammar := false })).run records)
      ((assemble policy checks (some { options with grammar := true })).run records) := by
  have hsame : { options with grammar := false }.repair = { options with grammar := true }.repair :=
    rfl
  refine ⟨sameBatch_run_of_repair hsame checks checks, ?_, fun i r hr => ?_⟩
  · rw [run_eq, run_eq, assemble_eq, assemble_eq]
  · refine ⟨(r.repaired options.repair).text,
      builtinIssues policy { options with grammar := false } (r.repaired options.repair).text
        (.ofRecord r),
      Check.grammar (r.repaired options.repair).text (.ofRecord r),
      checks.flatMap (·.issues (r.repaired options.repair) (.ofRecord r)),
      fun _ => category_ne_of_mem_builtinIssues, rfl,
      fun _ hissue => (Check.concerns_of_mem_grammar hissue).category, ?_, ?_⟩
    · rw [getElem?_scenarios_assemble hr, builtinIssues_grammar]
    · rw [getElem?_scenarios_assemble hr]

/-- Where no check that was added reports on the grammar, the issues that an outcome lacks are told
    by their category. -/
theorem outcome_without_grammar (hchecks : ∀ c ∈ checks, ∀ r context, ∀ issue ∈ c.issues r context,
    issue.category ≠ .grammar) (i : Nat) (r : Record) :
    (assemble policy checks (some { options with grammar := false })).outcome i r =
      ((assemble policy checks (some { options with grammar := true })).outcome i r).without
        .grammar := by
  have hkept : ∀ issues : List Issue, (∀ issue ∈ issues, issue.category ≠ .grammar) →
      issues.filter (·.category ≠ .grammar) = issues := fun _ hissues =>
    List.filter_eq_self.mpr fun issue hissue => decide_eq_true (hissues issue hissue)
  have hdropped : ∀ text context,
      (Check.grammar text context).filter (·.category ≠ .grammar) = [] := by
    intro text context
    rw [List.filter_eq_nil_iff]
    intro issue hissue
    rw [(Check.concerns_of_mem_grammar hissue).category]
    decide
  have hadded : ∀ issue ∈ checks.flatMap (·.issues (r.repaired options.repair) (.ofRecord r)),
      issue.category ≠ .grammar := by
    intro issue hissue
    obtain ⟨c, hc, hmem⟩ := List.mem_flatMap.mp hissue
    exact hchecks c hc _ _ issue hmem
  rw [outcome_assemble, outcome_assemble, Outcome.without, builtinIssues_grammar,
    List.filter_append, List.filter_append, hdropped, List.append_nil,
    hkept _ fun _ => category_ne_of_mem_builtinIssues, hkept _ hadded]

theorem without_grammar_run (hchecks : ∀ c ∈ checks, ∀ r context, ∀ issue ∈ c.issues r context,
    issue.category ≠ .grammar) (policy : Policy) (options : PipelineOptions)
    (records : List Record) :
    ((assemble policy checks (some { options with grammar := false })).run records).2 =
      ((assemble policy checks (some { options with grammar := true })).run records).2.without
        .grammar := by
  have hscenarios : records.mapIdx
        (assemble policy checks (some { options with grammar := false })).outcome =
      (records.mapIdx (assemble policy checks (some { options with grammar := true })).outcome).map
        (·.without .grammar) := by
    apply List.ext_getElem?
    intro i
    rw [List.getElem?_map, List.getElem?_mapIdx, List.getElem?_mapIdx, Option.map_map]
    exact congrArg (Option.map · records[i]?) (funext (outcome_without_grammar hchecks i))
  have hbatch : (Check.checklist policy (records.map Record.kind)).filter
      (·.category ≠ .grammar) = Check.checklist policy (records.map Record.kind) := by
    refine List.filter_eq_self.mpr fun issue hissue => decide_eq_true ?_
    rw [(Check.feed_not_mem_of_mem_checklist hissue).1]
    decide
  rw [run_eq, run_eq, hscenarios, Report.without, assemble_eq, assemble_eq]
  exact congrArg (Report.mk _ _) hbatch.symm

end Grammar

/-- A pipeline is built with the built-in checks that its last options ask for and behind them all checks
    that were added, in their order, and every scenario goes through these.  So it makes no difference
    how the calls that add checks are mixed with those that set options; and whether the grammar is
    checked decides on the issues about the grammar alone. -/
theorem checks_built (policy : Policy) (calls : List Call) :
    let p := built policy calls
    let options := lastOptions calls
    p.policy = policy ∧ p.options = options ∧
    p.checks = [.ofText "vocabulary".toList (Check.vocabulary policy),
      .ofText "status".toList (Check.status policy)] ++
        (if options.grammar then [.ofText "grammar".toList Check.grammar] else []) ++
        added calls ∧
    (∀ (records : List Record) (i : Nat) (r : Record), records[i]? = some r →
      (p.run records).2.scenarios[i]? = some ⟨i, (r.repaired options.repair).text,
        p.checks.flatMap (·.issues (r.repaired options.repair) (.ofRecord r))⟩) ∧
    (∀ others, added others = added calls → lastOptions others = options →
      built policy others = p) ∧
    (∀ check other,
      (p.withCheck check).withOptions other = (p.withOptions other).withCheck check) ∧
    ∀ (other : PipelineOptions) (records : List Record),
      let whole := (p.withOptions { other with grammar := true }).run records
      let less := (p.withOptions { other with grammar := false }).run records
      LacksGrammar records less whole ∧
      ((∀ c ∈ added calls, ∀ r context, ∀ issue ∈ c.issues r context, issue.category ≠ .grammar) →
        less.2 = whole.2.without .grammar) := by
  dsimp only
  rw [built_eq]
  refine ⟨?_, ?_, ?_, fun records i r hr => ?_, fun others hadded hoptions => ?_,
    fun check other => ?_, fun other records => ?_⟩
  · rw [assemble_eq]
  · rw [assemble_eq]
  · rw [assemble_eq, builtin]
  · rw [getElem?_scenarios, hr, assemble_eq]
    rfl
  · rw [built_eq, hadded, hoptions]
  · rw [withCheck_assemble, withOptions_assemble, withOptions_assemble, withCheck_assemble]
  · rw [withOptions_assemble, withOptions_assemble]
    exact ⟨lacksGrammar_run policy _ other records,
      fun hchecks => without_grammar_run hchecks policy other records⟩

end Pipeline

end ScenarioLint
