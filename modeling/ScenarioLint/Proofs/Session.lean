import ScenarioLint.Proofs.Pipeline.Fault
import ScenarioLint.Proofs.Pipeline.Repeat
import ScenarioLint.Session

/-!
What a session keeps from one request to the next.  A request that is refused or only asks changes
nothing, and the policy stays until another one is used.  So what a run has reported can be asked
for again, record by record.
-/

namespace ScenarioLint.Session

variable {s : Session} {request : Request} {requests : List Request}

/-- The session after some requests. -/
def after (s : Session) (requests : List Request) : Session :=
  requests.foldl (fun s request => (s.step request).1) s

namespace Request

/-- The policy that a request puts in place of that of the session. -/
def policy? : Request → Option Policy
  | usePolicy policy => some policy
  | _ => none

/-- The request looks at the session without changing it. -/
def Asks : Request → Prop
  | check _ | checklist | list => True
  | _ => False

end Request

/-- A request is refused if it names no record of the batch, and then it changes nothing. -/
theorem step_of_outOfRange {index : Nat} (h : (s.step request).2 = .outOfRange index) :
    (s.step request).1 = s ∧ s.records[index]? = none := by
  cases request with
  | remove i =>
    rw [step] at h ⊢
    split at h
    · cases h
    · rename_i hlength
      cases h
      rw [if_neg hlength]
      exact ⟨rfl, List.getElem?_eq_none (Nat.not_lt.mp hlength)⟩
  | edit i | check i =>
    rw [step] at h ⊢
    cases hr : s.records[i]? with
    | none =>
      rw [hr] at h
      cases h
      exact ⟨rfl, hr⟩
    | some r =>
      rw [hr] at h
      cases h
  | usePolicy | add | checklist | run | list => cases h

theorem policy_step (s : Session) (request : Request) :
    (s.step request).1.policy = request.policy?.getD s.policy := by
  cases request with
  | remove | edit | check =>
    rw [step]
    split <;> rfl
  | usePolicy | add | checklist | run | list => rfl

/-- The policy of a session is the one that was used last. -/
theorem policy_after (s : Session) (requests : List Request) :
    (s.after requests).policy =
      (requests.filterMap Request.policy?).getLast?.getD s.policy := by
  induction requests generalizing s with
  | nil => rfl
  | cons request rest ih =>
    rw [after, List.foldl_cons, ← after, ih, policy_step]
    cases hpolicy : request.policy? with
    | none => rw [List.filterMap_cons_none hpolicy, Option.getD_none]
    | some policy =>
      rw [List.filterMap_cons_some hpolicy, List.getLast?_cons, Option.getD_some, Option.getD_some]

theorem step_of_asks (h : request.Asks) : (s.step request).1 = s := by
  cases request with
  | check i =>
    rw [step]
    split <;> rfl
  | checklist | list => rfl
  | usePolicy | add | remove | edit | run => cases h

theorem after_of_asks (h : ∀ request ∈ requests, request.Asks) : s.after requests = s := by
  induction requests with
  | nil => rfl
  | cons request rest ih =>
    rw [after, List.foldl_cons, step_of_asks (h request List.mem_cons_self), ← after]
    exact ih fun other hother => h other (List.mem_cons_of_mem _ hother)

/-- What a run reports can be asked for afterwards, in any order.  The checklist has the issues of
    the batch.  Each record has the text of its outcome, and its issues are those that a check of
    the record finds, where the grammar counts if it was asked for, and then those of the checks
    that were added. -/
theorem findings_after_run (s : Session) (options : PipelineOptions) (checks : List ScenarioCheck)
    {asked : List Request} (hasked : ∀ request ∈ asked, request.Asks) :
    let left := s.after (.run (some options) checks :: asked)
    ∃ report, (s.step (.run (some options) checks)).2 = .report report left.records ∧
      report.scenarios.length = left.records.length ∧
      (left.step .checklist).2 = .issues report.batchIssues ∧
      ∀ (i : Nat) (o : Outcome), report.scenarios[i]? = some o →
        ∃ r found, left.records[i]? = some r ∧ r.canonicalText = some o.canonicalText ∧
          (left.step (.check i)).2 = .findings found ∧
          o.issues = found.vocabulary ++ found.status ++
            (if options.grammar then found.grammar else []) ++
            checks.flatMap (·.issues r (.ofRecord r)) := by
  have hleft : s.after (.run (some options) checks :: asked) =
      { s with records := s.records.map (·.repaired options.repair) } := by
    rw [after, List.foldl_cons, ← after, after_of_asks hasked]
    simp only [step, Pipeline.fst_run, Pipeline.assemble_eq]
  simp only [hleft]
  refine ⟨((Pipeline.assemble s.policy checks (some options)).run s.records).2, ?_, ?_, ?_, ?_⟩
  · simp only [step, Pipeline.fst_run, Pipeline.assemble_eq]
  · simp [Pipeline.run_eq]
  · simp only [step, Pipeline.run_eq, Pipeline.assemble_eq, Pipeline.map_kind_repaired]
  · intro i o ho
    rw [Pipeline.getElem?_scenarios, Option.map_eq_some_iff] at ho
    obtain ⟨r, hr, rfl⟩ := ho
    have hrepaired : (s.records.map (·.repaired options.repair))[i]? =
        some (r.repaired options.repair) := by
      rw [List.getElem?_map, hr, Option.map_some]
    have hcontext : Context.ofRecord (r.repaired options.repair) = .ofRecord r := rfl
    rw [Pipeline.outcome_assemble]
    refine ⟨_, findings s.policy (r.repaired options.repair), hrepaired, rfl, ?_, ?_⟩
    · simp only [step, hrepaired]
    · rw [hcontext, findings, hcontext, Pipeline.builtinIssues]

end ScenarioLint.Session
