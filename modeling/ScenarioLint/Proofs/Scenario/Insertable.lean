import ScenarioLint.Proofs.Gherkin.Rendering
import ScenarioLint.Proofs.Scenario.Sound

/-!
The lines that a repair makes are steps to the reader of feature files as well.  A request block is
a step with a docstring.
-/

namespace ScenarioLint.Scenario

open Gherkin (Line Place Stage Within Lead Leads StepWord IsIndentation IsLine IsStepLine
  isLine_append_iff)

theorem isLine_of_isIndentation {ind : Text} (h : IsIndentation ind) : IsLine ind := by
  constructor
  · intro hfeed
    cases h '\n' hfeed
  · intro hreturn
    cases h '\r' hreturn

/-- A line that may be put in wherever a step may stand. -/
structure Insertable (line : Text) : Prop where
  step : IsStepLine line
  regular : Regular false [line]
  mark : hasMark line = false

section Insertable

variable {options : RepairOptions} {e : Endpoint} {indent more line : Text} {lines : List Text}
  {i : Nat} {σ : Stage} {w : Within}

theorem leads_of_split (word : StepWord) (hindent : IsIndentation indent)
    (hvisible : more.trimEnd ≠ []) :
    Leads (.step word) more (indent ++ ((Lead.step word).text ++ more)) := by
  refine ⟨⟨indent, hindent, rfl⟩, ?_⟩
  rw [Text.trimEnd_append_of_not_isBlank _ hvisible]
  exact List.prefix_append _ _

theorem insertable_of_split (word : StepWord) (hindent : IsIndentation indent)
    (hmore : IsLine more) (hvisible : more.trimEnd ≠ []) :
    Insertable (indent ++ ((Lead.step word).text ++ more)) := by
  have hleads := leads_of_split word hindent hvisible
  have hstart : StartsVisibly ((Lead.step word).text ++ more) := by
    cases word <;> exact ⟨_, rfl, by decide⟩
  have hblank := Gherkin.isBlank_of_isIndentation hindent
  have hword : IsLine (Lead.step word).text := by cases word <;> decide
  obtain ⟨hfeed, hreturn⟩ : IsLine (indent ++ ((Lead.step word).text ++ more)) :=
    isLine_append_iff.mpr
      ⟨isLine_of_isIndentation hindent, isLine_append_iff.mpr ⟨hword, hmore⟩⟩
  have hmark := hasMark_of_startsVisibly hblank hstart
  have hstep := IsStepLine.of_leads hleads hreturn
  refine ⟨hstep, regular_singleton_iff.mpr ⟨?_, fun _ _ => ⟨?_, ?_⟩, hfeed⟩, hmark⟩
  · rintro ⟨⟩
  · rw [hstep.description]
    rintro ⟨⟩
  · exact isFence_of_startsVisibly hblank hstart

theorem trimEnd_ne_nil {t : Text} {c : Char} (hc : isSpace c = false) :
    Text.trimEnd (t ++ [c]) ≠ [] := by
  rw [Text.trimEnd_of_getLast]
  · simp
  · intro d hd
    rw [List.getLast?_concat] at hd
    exact Option.some.inj hd ▸ hc

theorem isLine_qualify (hhost : ∀ host ∈ e.host, IsLine host) {v : Text} (hv : IsLine v) :
    IsLine (e.qualify v) :=
  ⟨Endpoint.not_mem_qualify (by decide) (fun host hmem => (hhost host hmem).1) hv.1,
    Endpoint.not_mem_qualify (by decide) (fun host hmem => (hhost host hmem).2) hv.2⟩

theorem insertable_endpointLineOf (hindent : IsIndentation indent) (hurl : IsLine e.fullUrl) :
    Insertable (endpointLineOf e indent) := by
  have hword : "Given endpoint \"".toList = (Lead.step .given).text ++ "endpoint \"".toList := rfl
  rw [endpointLineOf, hword, List.append_assoc, List.append_assoc, List.append_assoc,
    ← List.append_assoc "endpoint \"".toList]
  refine insertable_of_split .given hindent ?_ (trimEnd_ne_nil rfl)
  exact isLine_append_iff.mpr ⟨isLine_append_iff.mpr ⟨by decide, hurl⟩, by decide⟩

theorem insertable_headerLineOf (hindent : IsIndentation indent)
    (hcontentType : IsLine options.contentType) : Insertable (headerLineOf options indent) := by
  have hword : "And header Content-Type = '".toList =
      (Lead.step .and).text ++ "header Content-Type = '".toList := rfl
  rw [headerLineOf, hword, List.append_assoc, List.append_assoc, List.append_assoc,
    ← List.append_assoc "header Content-Type = '".toList]
  refine insertable_of_split .and hindent ?_ (trimEnd_ne_nil rfl)
  exact isLine_append_iff.mpr ⟨isLine_append_iff.mpr ⟨by decide, hcontentType⟩, by decide⟩

theorem insertable_executionLineOf (hindent : IsIndentation indent) (hmethod : IsLine e.method) :
    Insertable (executionLineOf e indent) := by
  have hword : "When method ".toList = (Lead.step .when).text ++ "method ".toList := rfl
  have hvisible : Text.trimEnd ("method ".toList ++ e.methodUpper) ≠ [] := by
    intro hnil
    obtain ⟨ws, hws, hblank⟩ := Text.exists_trimEnd_append ("method ".toList ++ e.methodUpper)
    rw [hnil, List.nil_append] at hws
    rw [← hws] at hblank
    cases Text.isBlank_iff.mp hblank 'm' List.mem_cons_self
  rw [executionLineOf, hword, List.append_assoc, List.append_assoc]
  refine insertable_of_split .when hindent (isLine_append_iff.mpr ⟨by decide, ?_⟩) hvisible
  exact ⟨not_mem_methodUpper rfl hmethod.1, not_mem_methodUpper rfl hmethod.2⟩

theorem insertable_requestStep (hindent : IsIndentation indent) :
    Insertable (indent ++ "And request".toList) :=
  insertable_of_split .and hindent (by decide : IsLine "request".toList) (by decide)

/-- A step may be put in behind a header without a description, behind a step and behind what
    belongs to a step. -/
theorem Sound.insert_step (h : Sound lines) (hs : Stands lines i σ) (hline : Insertable line)
    (hw : w.hasSteps = true) (hσ : σ = .header w ∨ σ = .step w ∨ σ = .between w)
    (hfirst : σ = .header w → ∀ first ∈ Gherkin.firstCounted? (lines.drop i),
      first.description? = none) :
    Sound (Scenario.insertAt lines i [line]) ∧
      Stands (Scenario.insertAt lines i [line]) (i + 1) (.step w) := by
  refine h.insertAt hs hline.regular (by simp [hline.mark])
    ((Stage.run_singleton _ _).trans (hline.step.next_eq hw hσ)) fun hreads => ?_
  rcases hσ with rfl | rfl | rfl
  · refine hreads.step_of_header ?_ (hfirst rfl)
    rintro rfl
    cases hw
  · exact hreads
  · exact hreads.step_of_between

/-- A step may be replaced by another one. -/
theorem Sound.replace_step {front back : List Text} {other : Text}
    (h : Sound (front ++ line :: back)) (houtside : Role.insideAfter false front = false)
    (hmark : hasMark line = false) (hline : IsStepLine line) (hother : Insertable other) :
    Sound (front ++ other :: back) := by
  obtain ⟨hreads, hregular⟩ := h
  obtain ⟨hfront, hbehind⟩ := regular_append_iff.mp hregular
  obtain ⟨σ, hrun, hrest⟩ := Stage.reads_append_iff.mp hreads
  have haligned := aligned_of_run (σ := .between .top) rfl hfront hrun
  rw [houtside] at hbehind haligned
  constructor
  · obtain ⟨τ, hnext, hback⟩ := Stage.reads_cons_iff.mp hrest
    rw [hline.next_congr hother.step haligned.isOutside] at hnext
    exact Stage.reads_append_iff.mpr ⟨σ, hrun, Stage.reads_cons_iff.mpr ⟨τ, hnext, hback⟩⟩
  · have hsplit : Regular false ([line] ++ back) := hbehind
    have hback := (regular_append_iff.mp hsplit).2
    rw [Role.insideAfter_cons, hmark] at hback
    have hnew : Regular false ([other] ++ back) :=
      regular_append_iff.mpr ⟨hother.regular, by rwa [Role.insideAfter_cons, hother.mark]⟩
    refine regular_append_iff.mpr ⟨hfront, ?_⟩
    rw [houtside]
    exact hnew

end Insertable

section RequestBlock

variable {indent : Text} {lines : List Text} {w : Within}

/-- An open docstring goes on over lines without its mark. -/
theorem run_docstring {o : Line.Opening} (ho : o.mark = docstringMark)
    (h : ∀ line ∈ lines, IsLine line ∧ hasMark line = false) (body : List Text) :
    ∃ more, Stage.run (lines.map Line.ofRaw) (.docstring w o body) =
      some (.docstring w o more) := by
  induction lines generalizing body with
  | nil => exact ⟨body, rfl⟩
  | cons line rest ih =>
    obtain ⟨hline, hmark⟩ := h line List.mem_cons_self
    have hopen : line.trim ≠ o.mark := ho ▸ trim_ne_docstringMark hmark
    rw [List.map_cons, Stage.run_cons, Line.ofRaw_of_not_mem hline.2, Stage.next, if_neg hopen]
    exact ih (fun other hother => h other (List.mem_cons_of_mem _ hother)) _

theorem regular_of_unmarked (h : ∀ line ∈ lines, IsLine line ∧ hasMark line = false) :
    Regular true lines := by
  have hunmarked : ∀ line ∈ lines, hasMark line = false := fun line hline => (h line hline).2
  refine ⟨?_, ?_, ?_, fun line hline => (h line hline).1.1⟩
  · rintro ⟨role, line⟩ hpair rfl
    obtain ⟨i, hi⟩ := List.mem_iff_getElem?.mp hpair
    obtain ⟨hrole, hline⟩ := List.getElem?_zip_eq_some.mp hi
    rw [Role.getElem?_scanFrom, hline, Option.map_some,
      hunmarked line (List.mem_of_getElem? hline)] at hrole
    generalize Role.insideAfter true (lines.take i) = inside at hrole
    cases inside <;> cases hrole
  all_goals
    rw [textLines_of_unmarked hunmarked]
    simp

theorem trim_indent_docstringMark (hindent : indent.isBlank = true) :
    Text.trim (indent ++ docstringMark) = docstringMark :=
  Text.trim_append_left hindent docstringMark

/-- What opens and closes the docstring of a request block. -/
theorem regular_indent_docstringMark (hindent : IsIndentation indent) (inside : Bool) :
    Regular inside [indent ++ docstringMark] := by
  have hblank := Gherkin.isBlank_of_isIndentation hindent
  have hmark := hasMark_indent_docstringMark hblank
  refine regular_singleton_iff.mpr ⟨fun _ _ => trim_indent_docstringMark hblank, ?_, ?_⟩
  · intro _ hnot
    rw [hmark] at hnot
    cases hnot
  · exact (isLine_append_iff.mpr ⟨isLine_of_isIndentation hindent, by decide⟩).1

/-- The lines of a body inside its docstring. -/
theorem unmarked_body (hindent : IsIndentation indent) (body : Json.Value) :
    ∀ line ∈ body.pretty.lines.map (indent ++ ·), IsLine line ∧ hasMark line = false := by
  intro line hline
  obtain ⟨inner, hinner, rfl⟩ := List.mem_map.mp hline
  obtain ⟨hreturn, _⟩ := Json.Value.line_spec hinner
  refine ⟨isLine_append_iff.mpr ⟨isLine_of_isIndentation hindent, ?_⟩, ?_⟩
  · exact ⟨Text.feed_not_mem_of_mem_lines hinner, hreturn⟩
  · exact hasMark_line_pretty (Gherkin.isBlank_of_isIndentation hindent) hinner

theorem requestBlock_eq (indent : Text) (body : Json.Value) :
    requestBlock indent body = [indent ++ "And request".toList] ++ ([indent ++ docstringMark] ++
      (body.pretty.lines.map (indent ++ ·) ++ [indent ++ docstringMark])) := by
  simp [requestBlock]

theorem regular_requestBlock (hindent : IsIndentation indent) (body : Json.Value) :
    Regular false (requestBlock indent body) := by
  have hblank := Gherkin.isBlank_of_isIndentation hindent
  have hmark := regular_indent_docstringMark hindent
  have hbody := regular_of_unmarked (unmarked_body hindent body)
  rw [requestBlock_eq]
  refine regular_append_iff.mpr ⟨(insertable_requestStep hindent).regular, ?_⟩
  rw [Role.insideAfter_cons, hasMark_requestStep hblank]
  refine regular_append_iff.mpr ⟨hmark _, ?_⟩
  rw [Role.insideAfter_cons, hasMark_indent_docstringMark hblank]
  exact regular_append_iff.mpr ⟨hbody, hmark _⟩

/-- Behind a request block nothing belongs to the step in it any more. -/
theorem run_requestBlock (hindent : IsIndentation indent) (hw : w.hasSteps = true)
    (body : Json.Value) :
    Stage.run ((requestBlock indent body).map Line.ofRaw) (.step w) = some (.between w) := by
  have hblank := Gherkin.isBlank_of_isIndentation hindent
  have hstep := (insertable_requestStep hindent).step.next_eq hw (.inr (.inl rfl))
  have hraw : Line.ofRaw (indent ++ docstringMark) = some (indent ++ docstringMark) := by
    apply Line.ofRaw_of_not_mem
    exact (isLine_append_iff.mpr ⟨isLine_of_isIndentation hindent, by decide⟩).2
  have hlead : Line.lead? (some (indent ++ docstringMark)) = some (.quotes, []) := by
    have hbody : Line.body (indent ++ docstringMark) = docstringMark :=
      Gherkin.body_append hindent fun c hc => Option.some.inj hc ▸ rfl
    exact Line.lead?_eq_some_iff.mpr hbody
  have hopening : Line.opening? (some (indent ++ docstringMark)) =
      some ⟨Line.indent (indent ++ docstringMark), docstringMark, []⟩ :=
    Line.opening?_eq_some_iff.mpr ⟨.quotes, .inl rfl, hlead, rfl, rfl⟩
  have hopen : (Stage.step w).next (some (indent ++ docstringMark)) =
      some (.docstring w ⟨Line.indent (indent ++ docstringMark), docstringMark, []⟩ []) := by
    rw [Place.next_step w (Place.isIgnorable_of_lead? hlead), hopening]
    rfl
  obtain ⟨more, hbody⟩ := run_docstring (w := w)
    (o := ⟨Line.indent (indent ++ docstringMark), docstringMark, []⟩) rfl
    (unmarked_body hindent body) []
  rw [requestBlock_eq, List.map_append, Stage.run_append, List.map_singleton, Stage.run_singleton,
    hstep, Option.bind_some, List.map_append, Stage.run_append, List.map_singleton,
    Stage.run_singleton, hraw, hopen, Option.bind_some, List.map_append, Stage.run_append, hbody,
    Option.bind_some, List.map_singleton, Stage.run_singleton, hraw, Stage.next,
    if_pos (trim_indent_docstringMark hblank)]

end RequestBlock

end ScenarioLint.Scenario
