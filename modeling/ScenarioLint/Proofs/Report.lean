import ScenarioLint.CommandLine.Program
import ScenarioLint.Proofs.Record

/-!
Reports on their way through JSON.  Whatever a report holds, the decoder finds it again in the JSON
that a check prints of it, and so it tells the exit code of the check.
-/

namespace ScenarioLint

open Json (Source Value)

/-- The number of the line is a machine number. -/
def Issue.InRange (i : Issue) : Prop :=
  ∀ line ∈ i.line, line < UInt64.size

structure Outcome.InRange (o : Outcome) : Prop where
  index_lt : o.index < UInt64.size
  issues : ∀ i ∈ o.issues, i.InRange

/-- All indexes and all numbers of lines are machine numbers. -/
structure Report.InRange (r : Report) : Prop where
  scenarios : ∀ o ∈ r.scenarios, o.InRange
  batchIssues : ∀ i ∈ r.batchIssues, i.InRange

section Decidable

instance (i : Issue) : Decidable i.InRange :=
  inferInstanceAs (Decidable (∀ line ∈ i.line, line < UInt64.size))

instance (o : Outcome) : Decidable o.InRange :=
  decidable_of_iff (o.index < UInt64.size ∧ ∀ i ∈ o.issues, i.InRange)
    ⟨fun h => ⟨h.1, h.2⟩, fun h => ⟨h.index_lt, h.issues⟩⟩

instance (r : Report) : Decidable r.InRange :=
  decidable_of_iff ((∀ o ∈ r.scenarios, o.InRange) ∧ ∀ i ∈ r.batchIssues, i.InRange)
    ⟨fun h => ⟨h.1, h.2⟩, fun h => ⟨h.scenarios, h.batchIssues⟩⟩

end Decidable

section Exact

theorem Context.isExact_value (c : Context) : c.value.isExact = true :=
  Value.isExact_present (by simp [Value.isExact])

theorem Issue.isExact_value (i : Issue) : i.value.isExact = true := by
  refine Value.isExact_present ?_
  simp [Context.isExact_value, Value.isExact, Value.count]

theorem Outcome.isExact_value (o : Outcome) : o.value.isExact = true := by
  have hissues : (Issue.listValue o.issues).isExact = true :=
    Value.isExact_array fun i _ => i.isExact_value
  refine Value.isExact_present ?_
  simp [hissues, Value.isExact, Value.count]

/-- A report is written without doubles. -/
theorem Report.isExact_value (r : Report) : r.value.isExact = true := by
  have hissues : (Issue.listValue r.batchIssues).isExact = true :=
    Value.isExact_array fun i _ => i.isExact_value
  have hscenarios : (Value.array (r.scenarios.map Outcome.value)).isExact = true :=
    Value.isExact_array fun o _ => o.isExact_value
  have hfingerprint : (Value.string r.fingerprint).isExact = true := rfl
  refine Value.isExact_present ?_
  simp [hfingerprint, hscenarios, hissues]

end Exact

section Decode

theorem Category.ofSource?_name (c : Category) : ofSource? (.string c.name) = some c := by
  cases c <;> rfl

theorem ScenarioKind.ofSource?_name (kind : ScenarioKind) :
    ofSource? (.string kind.name) = some kind := by
  cases kind <;> rfl

theorem Context.ofSource?_value (c : Context) : ofSource? c.value.source = some c := by
  have hfields : c.value.source.fields? [["method".toList], ["path".toList], ["kind".toList]] =
      some [some (.string c.method), some (.string c.path), some (.string c.kind.name)] := rfl
  rw [ofSource?, hfields]
  simp only [bind, Option.bind_some, Source.text?, ScenarioKind.ofSource?_name]

theorem Issue.ofSource?_value {i : Issue} (h : i.InRange) : ofSource? i.value.source = some i := by
  obtain ⟨category, context, line, message⟩ := i
  have hcontext : Source.optional? Context.ofSource? ((context.map Context.value).map Value.source) =
      some context :=
    Source.optional?_map (fun _ _ => nofun) fun c _ => c.ofSource?_value
  have hline : Source.optional? Source.nat? ((line.map Value.count).map Value.source) = some line :=
    Source.optional?_map (fun _ _ => nofun) fun n hn => Source.nat?_count (h n hn)
  have hfields : (value ⟨category, context, line, message⟩).source.fields?
      [["category".toList], ["context".toList], ["line".toList], ["message".toList]] =
        some [some (.string category.name), (context.map Context.value).map Value.source,
          (line.map Value.count).map Value.source, some (.string message)] := by
    cases context <;> cases line <;> rfl
  rw [ofSource?, hfields]
  simp only [bind, Option.bind_some, Source.text?, Category.ofSource?_name, hcontext, hline]

theorem Issue.list?_listValue {issues : List Issue} (h : ∀ i ∈ issues, i.InRange) :
    Source.list? ofSource? (listValue issues).source = some issues :=
  Source.list?_array fun i hi => ofSource?_value (h i hi)

theorem Outcome.ofSource?_value {o : Outcome} (h : o.InRange) :
    ofSource? o.value.source = some o := by
  have hfields : o.value.source.fields? [["index".toList], ["canonical_text".toList],
      ["issues".toList]] = some [some (Value.count o.index).source, some (.string o.canonicalText),
        some (Issue.listValue o.issues).source] := rfl
  rw [ofSource?, hfields]
  simp only [bind, Option.bind_some, Source.text?, Source.nat?_count h.index_lt,
    Issue.list?_listValue h.issues]

/-- A report is decoded from its JSON. -/
theorem Report.ofSource?_value {r : Report} (h : r.InRange) : ofSource? r.value.source = some r := by
  have hscenarios : Source.list? Outcome.ofSource?
      (Value.array (r.scenarios.map Outcome.value)).source = some r.scenarios :=
    Source.list?_array fun o ho => Outcome.ofSource?_value (h.scenarios o ho)
  have hfields : r.value.source.fields? [["policy_fingerprint".toList], ["scenarios".toList],
      ["batch_issues".toList]] = some [some (.string r.fingerprint),
        some (Value.array (r.scenarios.map Outcome.value)).source,
        some (Issue.listValue r.batchIssues).source] := rfl
  rw [ofSource?, hfields]
  simp only [bind, Option.bind_some, Source.text?, hscenarios, Issue.list?_listValue h.batchIssues]

end Decode

namespace Report

/-- A report is read from the JSON that is printed of it. -/
theorem ofText?_printed {r : Report} (h : r.InRange) :
    ofText? (Command.printed r.value) = some r := by
  have hread : Json.Document.read (Command.printed r.value) = ⟨r.value.source, true⟩ := by
    rw [Command.printed, Value.pretty, ← Value.laidOut_pretty]
    exact Json.Document.read_laidOut r.isExact_value .pretty (by decide)
  rw [ofText?, hread, Json.Document.whole?, Source.isWhole_source _ r.isExact_value]
  exact ofSource?_value h

/-- Whoever reads what a check prints as JSON has the report on the batch, and knows the exit
    code. -/
theorem ofText?_printed_checked {r : Report} (h : r.InRange) :
    ofText? (Command.printed r.value) = some r ∧
    ∀ request policy records,
      ((Pipeline.assemble policy [] (some request.options)).run records).2 = r →
      ∃ back, ofText? (Command.checked true request policy records).stdout = some back ∧ back = r ∧
        CommandLine.Ending.ofResult (.ok (Command.checked true request policy records)) =
          ⟨if back.isClean then 0 else 1, Command.printed r.value⟩ := by
  refine ⟨ofText?_printed h, fun request policy records hrun => ⟨r, ?_, rfl, ?_⟩⟩
  · rw [← ofText?_printed h, ← hrun]
    rfl
  · rw [← hrun]
    rfl

/-- A report with control characters, the greatest index, and issues with and without a context and a
    line; and the report on an empty batch, which is not clean. -/
theorem ofText?_printed_checked_control :
    let context : Context := ⟨"GET".toList, "/\u00fc\x00".toList, .edge⟩
    let r : Report := ⟨"\u2028\x7f".toList,
      [⟨18446744073709551615, "\x1f\"\\\n\r\t\x08\x0c".toList,
        [⟨.status, some context, some 3, []⟩, ⟨.internal, none, none, "null".toList⟩]⟩],
      [⟨.checklist, none, some 0, "\uffff".toList⟩]⟩
    let policy := Policy.compile none none .standard
    let request : CheckRequest := ⟨[], true, false, none⟩
    let checked := ((Pipeline.assemble policy [] (some request.options)).run []).2
    r.InRange ∧ ofText? (Command.printed r.value) = some r ∧ checked.InRange ∧
      ofText? (Command.checked true request policy []).stdout = some checked ∧
      CommandLine.Ending.ofResult (.ok (Command.checked true request policy [])) =
        ⟨1, Command.printed checked.value⟩ := by
  intro context r policy request checked
  have hr : r.InRange := by decide
  have hchecked : checked.InRange := by decide +kernel
  have hclean : checked.isClean = false := by decide +kernel
  obtain ⟨_, hall⟩ := ofText?_printed_checked hchecked
  obtain ⟨back, hback, rfl, hending⟩ := hall request policy [] rfl
  rw [hclean] at hending
  exact ⟨hr, (ofText?_printed_checked hr).1, hchecked, hback, hending⟩

end Report

end ScenarioLint
