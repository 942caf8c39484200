import ScenarioLint.Command.Run
import ScenarioLint.Proofs.Pipeline.Order
import ScenarioLint.Proofs.Record

/-!
Checking what was checked.  A run changes nothing in a batch but the repaired texts, and these are
made of the texts as they were generated.  So a second run has nothing to do, and neither has a run on
the batch that comes back from its file.
-/

namespace ScenarioLint

theorem Record.repaired_repaired (options : Scenario.RepairOptions) (r : Record) :
    (r.repaired options).repaired options = r.repaired options :=
  rfl

namespace Pipeline

variable {p : Pipeline} {records : List Record}

/-- The text of an outcome is the one that its record has got. -/
theorem repaired_eq (p : Pipeline) (index : Nat) (r : Record) :
    r.repaired p.options.repair =
      { r with canonicalText := some (p.outcome index r).canonicalText } :=
  rfl

theorem map_repaired_map_repaired (p : Pipeline) (records : List Record) :
    (records.map (·.repaired p.options.repair)).map (·.repaired p.options.repair) =
      records.map (·.repaired p.options.repair) := by
  rw [List.map_map]
  exact List.map_congr_left fun r _ => r.repaired_repaired p.options.repair

theorem mapIdx_outcome_map_repaired (p : Pipeline) (records : List Record) :
    (records.map (·.repaired p.options.repair)).mapIdx p.outcome = records.mapIdx p.outcome := by
  apply List.ext_getElem?
  intro i
  rw [List.getElem?_mapIdx, List.getElem?_mapIdx, List.getElem?_map, Option.map_map]
  -- an outcome is made of the raw text and the endpoint, and a repair keeps both
  rfl

/-- Each record gets the text of its outcome. -/
theorem map_repaired_eq_zipWith (p : Pipeline) (records : List Record) :
    records.map (·.repaired p.options.repair) =
      List.zipWith (fun r o => { r with canonicalText := some o.canonicalText }) records
        (records.mapIdx p.outcome) := by
  apply List.ext_getElem?
  intro i
  rw [List.getElem?_map, List.getElem?_zipWith, List.getElem?_mapIdx]
  cases records[i]? with
  | none => rfl
  | some r => exact congrArg some (p.repaired_eq i r)

/-- A run on a repaired batch changes nothing and reports what it reports on the batch. -/
theorem run_map_repaired (p : Pipeline) (records : List Record) :
    p.run (records.map (·.repaired p.options.repair)) = p.run records := by
  rw [run_eq, run_eq, map_repaired_map_repaired, mapIdx_outcome_map_repaired, map_kind_repaired]

theorem fst_run (p : Pipeline) (records : List Record) :
    (p.run records).1 = records.map (·.repaired p.options.repair) := by
  rw [run_eq]

theorem run_run (p : Pipeline) (records : List Record) :
    p.run (p.run records).1 = p.run records := by
  rw [fst_run, run_map_repaired]

/-- A run changes no endpoint, so its batch is decoded as well as the batch it started with. -/
theorem ofText?_pretty_run {t : Text} (hread : Record.ofText? t = some records)
    (hexact : ∀ r ∈ records, r.endpoint.IsExact) (p : Pipeline) :
    Record.ofText? (Record.listValue (p.run records).1).pretty = some (p.run records).1 := by
  have hdecoded := Record.forall_decoded_of_ofText? hread
  rw [fst_run]
  exact Record.ofText?_pretty (List.forall_mem_map.mpr hdecoded) (List.forall_mem_map.mpr hexact)

/-- A run is repeatable on its own output, in whatever order the scenarios are finished.  For a batch
    that was decoded and holds no doubles: each record keeps everything but its repaired text, which
    becomes that of the outcome at its place; to run the changed batch again changes nothing and gives
    the same report; and so does to run the batch that is decoded from the file that a check command
    writes. -/
theorem run_again {t : Text} {records : List Record} (hread : Record.ofText? t = some records)
    (hexact : ∀ r ∈ records, ∀ v ∈ r.endpoint.bodyExample, v.isExact = true) :
    (∀ (p : Pipeline) (order : List Nat), order.Perm (List.range records.length) →
      let after := (p.runInOrder order records).1
      let report := (p.runInOrder order records).2
      report.scenarios.map Outcome.index = List.range records.length ∧
      after = List.zipWith (fun r o => { r with canonicalText := some o.canonicalText }) records
        report.scenarios ∧
      Record.ofText? (Record.listValue after).pretty = some after ∧
      ∀ again : List Nat, again.Perm (List.range after.length) →
        p.runInOrder again after = (after, report)) ∧
    ∀ (json : Bool) (request : CheckRequest) (policy : Policy) (path content : Text),
      (Command.checked json request policy records).file = some (path, content) →
      ∃ after, Record.ofText? content = some after ∧
        Command.checked json request policy after = Command.checked json request policy records := by
  constructor
  · intro p order horder
    have hrun : p.runInOrder order records = p.run records := by
      rw [runInOrder_eq horder, run_eq]
    simp only [hrun]
    refine ⟨?_, ?_, ofText?_pretty_run hread hexact p, fun again hagain => ?_⟩
    · rw [run_eq]
      exact map_index_mapIdx_outcome p records
    · rw [run_eq]
      exact p.map_repaired_eq_zipWith records
    · rw [runInOrder_eq hagain, ← run_eq, run_run]
  · intro json request policy path content hfile
    obtain ⟨_, _, hfile⟩ := Option.map_eq_some_iff.mp hfile
    cases hfile
    refine ⟨_, ofText?_pretty_run hread hexact _, ?_⟩
    rw [Command.checked, Command.checked, run_run]

/-- A batch with the second name of a body example, keys out of order and escapes, which a check
    writes into a file. -/
theorem run_again_of_unsorted :
    let t : Text := ("[\x7b\"raw_text\":\"Given x\",\"endpoint\":\x7b\"method\":\"post\"," ++
      "\"path\":\"/p\",\"request_example\":\x7b\"b\":[1,-2,null],\"a\":\"\\n\\u0041\"\x7d" ++
      "\x7d\x7d]").toList
    let request : CheckRequest := ⟨"b.json".toList, false, true, some "o.json".toList⟩
    ∃ records, Record.ofText? t = some records ∧ records.length = 1 ∧
      (∀ r ∈ records, ∀ v ∈ r.endpoint.bodyExample, v.isExact = true) ∧
      (∀ p : Pipeline, p.run (p.run records).1 = p.run records ∧
        Record.ofText? (Record.listValue (p.run records).1).pretty = some (p.run records).1) ∧
      ∀ json policy, ∃ content after,
        (Command.checked json request policy records).file = some ("o.json".toList, content) ∧
        Record.ofText? content = some after ∧
        Command.checked json request policy after =
          Command.checked json request policy records := by
  intro t request
  have hdecoded : (Record.ofText? t).any (fun records => records.length = 1 &&
      records.all fun r => r.endpoint.bodyExample.all Json.Value.isExact) = true := by
    decide +kernel
  obtain ⟨records, hread, hdecoded⟩ := (Option.any_eq_true _ _).mp hdecoded
  rw [Bool.and_eq_true, decide_eq_true_eq, List.all_eq_true] at hdecoded
  have hexact : ∀ r ∈ records, ∀ v ∈ r.endpoint.bodyExample, v.isExact = true := by
    intro r hr v hv
    have hall := hdecoded.2 r hr
    rwa [Option.mem_def.mp hv] at hall
  obtain ⟨hrun, hwritten⟩ := run_again hread hexact
  refine ⟨records, hread, hdecoded.1, hexact, fun p => ?_, fun json policy => ?_⟩
  · obtain ⟨_, _, hdecode, hagain⟩ := hrun p _ (.refl _)
    exact ⟨hagain _ (.refl _), hdecode⟩
  · obtain ⟨after, hafter, heq⟩ := hwritten json request policy "o.json".toList _ rfl
    exact ⟨_, after, rfl, hafter, heq⟩

end Pipeline

end ScenarioLint
