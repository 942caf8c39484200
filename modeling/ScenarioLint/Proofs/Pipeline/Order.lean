import Mathlib.Data.List.FinRange
import ScenarioLint.Pipeline
import ScenarioLint.Proofs.Check.Checklist

/-!
The order in which the scenarios of a batch are finished.  Working on a record changes that record
alone and adds one outcome, which depends on nothing but the record and its place.  So the order
makes no difference to the batch and the report, and the records make none to each other.
-/

namespace ScenarioLint.Pipeline

variable {p : Pipeline} {records : List Record} {done order : List Nat} {i : Nat}

/-- The outcome of a record that stands at the given index of a batch. -/
def outcome (p : Pipeline) (index : Nat) (r : Record) : Outcome :=
  (p.process index r).2

/-- A batch of which the records with the given indices were finished, in that order. -/
def progressed (p : Pipeline) (records : List Record) (done : List Nat) : Progress :=
  ⟨records.mapIdx fun i r => if i ∈ done then r.repaired p.options.repair else r,
    done.filterMap fun i => records[i]?.map (p.outcome i)⟩

theorem getElem?_progressed :
    (p.progressed records done).records[i]? =
      records[i]?.map fun r => if i ∈ done then r.repaired p.options.repair else r :=
  List.getElem?_mapIdx

theorem records_progressed_concat_of_none (hr : records[i]? = none) :
    (p.progressed records (done ++ [i])).records = (p.progressed records done).records := by
  apply List.ext_getElem?
  intro j
  by_cases hj : j = i
  · subst hj
    simp [getElem?_progressed, hr]
  · simp [getElem?_progressed, hj]

theorem set_records_progressed {r : Record} (hr : records[i]? = some r) :
    (p.progressed records done).records.set i (r.repaired p.options.repair) =
      (p.progressed records (done ++ [i])).records := by
  apply List.ext_getElem?
  intro j
  by_cases hj : j = i
  · subst hj
    obtain ⟨hlt, _⟩ := List.getElem?_eq_some_iff.mp hr
    rw [List.getElem?_set_self (by simpa [progressed] using hlt)]
    simp [getElem?_progressed, hr]
  · rw [List.getElem?_set_ne (Ne.symm hj)]
    simp [getElem?_progressed, hj]

/-- One step finishes one more record, and leaves the others and their outcomes as they are. -/
theorem advance_progressed (hfresh : i ∉ done) :
    p.advance (p.progressed records done) i = p.progressed records (done ++ [i]) := by
  have hlookup : (p.progressed records done).records[i]? = records[i]? := by
    simp [getElem?_progressed, hfresh]
  rw [advance, hlookup]
  cases hr : records[i]? with
  | none =>
    have houtcomes : (p.progressed records (done ++ [i])).outcomes =
        (p.progressed records done).outcomes := by
      simp [progressed, hr]
    exact congrArg₂ Progress.mk (records_progressed_concat_of_none hr).symm houtcomes.symm
  | some r =>
    have houtcomes : (p.progressed records (done ++ [i])).outcomes =
        (p.progressed records done).outcomes ++ [p.outcome i r] := by
      simp [progressed, hr]
    exact congrArg₂ Progress.mk (set_records_progressed hr) houtcomes.symm

/-- Finishing records that are not finished yet, one after the other. -/
theorem foldl_advance (h : (done ++ order).Nodup) :
    order.foldl p.advance (p.progressed records done) = p.progressed records (done ++ order) := by
  induction order generalizing done with
  | nil => simp
  | cons i rest ih =>
    have hfresh : i ∉ done := fun hmem =>
      (List.nodup_append.mp h).2.2 i hmem i List.mem_cons_self rfl
    have hsplit : done ++ i :: rest = done ++ [i] ++ rest := by simp
    rw [List.foldl_cons, advance_progressed hfresh, hsplit]
    exact ih (hsplit ▸ h)

/-- When all records are finished, all of them are repaired. -/
theorem records_progressed (h : order.Perm (List.range records.length)) :
    (p.progressed records order).records = records.map (·.repaired p.options.repair) := by
  apply List.ext_getElem?
  intro i
  rw [getElem?_progressed, List.getElem?_map]
  cases hr : records[i]? with
  | none => rfl
  | some r =>
    obtain ⟨hlt, _⟩ := List.getElem?_eq_some_iff.mp hr
    have hmem : i ∈ order := h.mem_iff.mpr (List.mem_range.mpr hlt)
    simp [hmem]

private theorem filterMap_range_getElem? {α β : Type} (f : Nat → α → β) (xs : List α) :
    ((List.range xs.length).filterMap fun i => xs[i]?.map (f i)) = xs.mapIdx f := by
  induction xs generalizing f with
  | nil => rfl
  | cons x rest ih =>
    rw [List.length_cons, List.range_succ_eq_map, List.filterMap_cons, List.filterMap_map,
      List.mapIdx_cons, ← ih]
    rfl

/-- Each record has one outcome, which bears its index. -/
theorem map_index_mapIdx_outcome (p : Pipeline) (records : List Record) :
    (records.mapIdx p.outcome).map Outcome.index = List.range records.length := by
  apply List.ext_getElem
  · simp
  · simp [outcome, process]

/-- Sorted by their indices, the outcomes stand in the order of the batch. -/
theorem mergeSort_outcomes_progressed (h : order.Perm (List.range records.length)) :
    ((p.progressed records order).outcomes.mergeSort fun a b => a.index ≤ b.index) =
      records.mapIdx p.outcome := by
  have hperm : ((p.progressed records order).outcomes.mergeSort fun a b => a.index ≤ b.index).Perm
      (records.mapIdx p.outcome) := by
    rw [← filterMap_range_getElem? p.outcome records]
    exact (List.mergeSort_perm _ _).trans (h.filterMap _)
  have hsorted : ((p.progressed records order).outcomes.mergeSort fun a b =>
      a.index ≤ b.index).Pairwise fun a b => decide (a.index ≤ b.index) = true := by
    apply List.pairwise_mergeSort
    · simp only [decide_eq_true_eq]
      omega
    · simp only [Bool.or_eq_true, decide_eq_true_eq]
      omega
  simp only [decide_eq_true_eq] at hsorted
  have hindexed : (records.mapIdx p.outcome).Pairwise fun a b => a.index ≤ b.index := by
    apply List.pairwise_map.mp
    rw [map_index_mapIdx_outcome]
    exact List.pairwise_le_range
  refine hperm.eq_of_pairwise (fun a b ha hb hab hba => ?_) hsorted hindexed
  have hdistinct : ((records.mapIdx p.outcome).map Outcome.index).Nodup := by
    rw [map_index_mapIdx_outcome]
    exact List.nodup_range
  exact List.inj_on_of_nodup_map hdistinct (hperm.mem_iff.mp ha) hb (Nat.le_antisymm hab hba)

theorem map_kind_repaired (options : Scenario.RepairOptions) (records : List Record) :
    (records.map (·.repaired options)).map Record.kind = records.map Record.kind := by
  rw [List.map_map]
  rfl

/-- What a run gives, in whatever order the records are finished. -/
theorem runInOrder_eq (h : order.Perm (List.range records.length)) :
    p.runInOrder order records =
      (records.map (·.repaired p.options.repair),
        ⟨p.policy.fingerprintText, records.mapIdx p.outcome,
          Check.checklist p.policy (records.map Record.kind)⟩) := by
  have hrun : order.foldl p.advance ⟨records, []⟩ = p.progressed records order := by
    have hstart : p.progressed records [] = ⟨records, []⟩ :=
      congrArg (Progress.mk · []) (List.ext_getElem? (by simp))
    rw [← hstart, foldl_advance (by simpa using h.nodup_iff.mpr List.nodup_range),
      List.nil_append]
  simp only [runInOrder, report, hrun, records_progressed h, mergeSort_outcomes_progressed h,
    map_kind_repaired]

theorem run_eq (p : Pipeline) (records : List Record) :
    p.run records =
      (records.map (·.repaired p.options.repair),
        ⟨p.policy.fingerprintText, records.mapIdx p.outcome,
          Check.checklist p.policy (records.map Record.kind)⟩) :=
  runInOrder_eq (.refl _)

theorem getElem?_scenarios (p : Pipeline) (records : List Record) (i : Nat) :
    (p.run records).2.scenarios[i]? = records[i]?.map (p.outcome i) := by
  rw [run_eq, List.getElem?_mapIdx]

theorem foldl_withCheck (p : Pipeline) (checks : List ScenarioCheck) :
    checks.foldl withCheck p = { p with checks := p.checks ++ checks } := by
  induction checks generalizing p with
  | nil => simp
  | cons check rest ih => simp [ih, withCheck]

/-- Whatever the options are, the checks that were added come behind the built-in ones. -/
theorem assemble_eq (policy : Policy) (checks : List ScenarioCheck) (options : PipelineOptions) :
    assemble policy checks (some options) = ⟨policy, options, builtin policy options ++ checks⟩ := by
  have hadded : ((builtin policy .standard ++ checks).drop 3) = checks :=
    List.drop_left' rfl
  rw [assemble, foldl_withCheck]
  exact congrArg (fun added => Pipeline.mk policy options (builtin policy options ++ added)) hadded

/-- A run gives the same whether the scenarios may be worked on at the same time or not. -/
theorem run_parallel (policy : Policy) (checks : List ScenarioCheck) (options : PipelineOptions)
    (parallel : Bool) (records : List Record) :
    (assemble policy checks (some { options with parallel })).run records =
      (assemble policy checks (some options)).run records := by
  rw [run_eq, run_eq, assemble_eq, assemble_eq]
  rfl

/-- The outcomes of a batch whose records were put into another order are those of the batch in that
    order, but for their indices. -/
theorem getElem?_mapIdx_outcome_ofFn (σ : Equiv.Perm (Fin records.length))
    (i : Fin records.length) :
    ((List.ofFn fun i => records[σ i]).mapIdx p.outcome)[(i : Nat)]? =
      (records.mapIdx p.outcome)[(σ i : Nat)]?.map fun o => { o with index := i } := by
  simp [outcome, process]

theorem perm_ofFn (σ : Equiv.Perm (Fin records.length)) :
    (List.ofFn fun i => records[σ i]).Perm records := by
  have hperm := σ.ofFn_comp_perm fun i => records[i]
  simp only [Fin.getElem_fin, List.ofFn_getElem] at hperm
  exact hperm

/-- The scenarios of a batch are checked for themselves.  It makes no difference whether they are
    worked on at the same time and in which order they are finished; each of them has one outcome, at
    its place; to change one of them or to put them into another order changes no outcome but
    the places; and the issues of the batch count the scenarios of each kind. -/
theorem run_independent (policy : Policy) (checks : List ScenarioCheck) (options : PipelineOptions)
    (records : List Record) :
    let p := assemble policy checks (some options)
    let report := (p.run records).2
    (∀ (parallel : Bool) (order : List Nat), order.Perm (List.range records.length) →
      (assemble policy checks (some { options with parallel })).runInOrder order records =
        p.run records) ∧
    report.scenarios.map Outcome.index = List.range records.length ∧
    (∀ i j r, i ≠ j → (p.run (records.set j r)).2.scenarios[i]? = report.scenarios[i]?) ∧
    (∀ σ : Equiv.Perm (Fin records.length),
      let permuted := (p.run (List.ofFn fun i => records[σ i])).2
      (∀ i : Fin records.length, permuted.scenarios[(i : Nat)]? =
        report.scenarios[(σ i : Nat)]?.map fun o => { o with index := i }) ∧
      permuted.batchIssues = report.batchIssues) ∧
    ∀ kind, report.batchIssues.countP (·.quotes kind) =
      if Check.Lacks policy.settings.targets (records.map Record.kind) kind then 1 else 0 := by
  rw [assemble_eq]
  simp only [assemble_eq, run_eq]
  refine ⟨fun parallel order horder => ?_, ?_, fun i j r hij => ?_, fun σ => ⟨fun i => ?_, ?_⟩,
    fun kind => ?_⟩
  · rw [runInOrder_eq horder]
    rfl
  · exact map_index_mapIdx_outcome _ records
  · simp [List.getElem?_set_ne hij.symm]
  · exact getElem?_mapIdx_outcome_ofFn σ i
  · exact Check.checklist_eq_of_perm ((perm_ofFn σ).map Record.kind) policy
  · exact Check.countP_quotes_checklist policy (records.map Record.kind) kind

end ScenarioLint.Pipeline
