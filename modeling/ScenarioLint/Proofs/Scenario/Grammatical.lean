import ScenarioLint.Proofs.Gherkin.ExactBlock
import ScenarioLint.Proofs.Scenario.Insertable

/-!
A repair leaves a text that can be read readable, provided that the lines it makes come to stand
where a step may stand.
-/

namespace ScenarioLint.Scenario

open Gherkin (Document Line Lead Stage IsIndentation IsLine isLine_append_iff firstCounted?)

section Endpoint

variable {e : Endpoint} {line lead : Text} {front back lines : List Text} {endpointAt : Nat}

theorem getElem?_keywordsFrom_length (houtside : Role.insideAfter false front = false)
    (hmark : hasMark line = false) (back : List Text) :
    (keywordsFrom false (front ++ line :: back))[front.length]? = some (Keyword.leading? line) := by
  rw [keywordsFrom_append, houtside, keywordsFrom_cons, hmark,
    List.getElem?_append_right (by rw [length_keywordsFrom]), length_keywordsFrom, Nat.sub_self]
  rfl

theorem keyword_of_endpointLine (h : (endpointLine? line).isSome = true)
    (houtside : Role.insideAfter false front = false) (hmark : hasMark line = false)
    (back : List Text) : ∃ keyword : Keyword, keyword.isHeader = false ∧
      (keywordsFrom false (front ++ line :: back))[front.length]? = some (some keyword) := by
  obtain ⟨keyword, _, hheader, hleading⟩ := exists_leading?_of_endpointLine h
  refine ⟨keyword, hheader, ?_⟩
  rw [getElem?_keywordsFrom_length houtside hmark, hleading]

/-- Behind the endpoint line stands what may stand under a step. -/
theorem EndpointAt.stands (h : EndpointAt e lines endpointAt) (hlines : Sound lines) :
    ∃ w, w.hasSteps = true ∧ Stands lines (endpointAt + 1) (.step w) := by
  obtain ⟨front, line, back, rfl, rfl, houtside, hmark, hendpoint, _⟩ := h
  obtain ⟨keyword, hheader, hkeyword⟩ := keyword_of_endpointLine hendpoint houtside hmark back
  exact hlines.stands_behind_step hheader hkeyword

/-- The lead of an endpoint line has two gaps, and the lead that the reader sees has one at most. -/
theorem prefix_of_isEndpointLead {ind rest more : Text} {own : Lead} (hind : IsIndentation ind)
    (h : IsEndpointLead lead) (hsplit : ind ++ (own.text ++ rest) = lead ++ more) :
    ind ++ own.text <+: lead := by
  have hboth : ind ++ own.text <+: lead ++ more := ⟨rest, by rw [← hsplit, List.append_assoc]⟩
  refine (List.prefix_or_prefix_of_prefix hboth (List.prefix_append lead more)).resolve_right ?_
  rintro ⟨tail, htail⟩
  obtain ⟨margin, word, gap, name, pad, rfl, hmargin, hword, hgap, hgapBlank, _, hpad,
    hpadBlank⟩ := h
  have hstart : own.text = word ++ (gap ++ (name ++ pad)) ++ tail := by
    have hown := Gherkin.trimStart_of_split hind own []
    have hvisible := (hword.startsVisibly endpointWords_visible).append (gap ++ (name ++ pad))
    rw [List.append_nil, ← htail, List.append_assoc,
      Text.trimStart_append_of_head hmargin (hvisible.append tail).isSpace_head] at hown
    exact hown.symm
  have hone : ∀ own ∈ Lead.all, own.text.countP isSpace ≤ 1 := by decide
  have hcount := hone own own.mem_all
  have hpositive : ∀ {t : Text}, t ≠ [] → t.isBlank = true → 0 < t.countP isSpace := by
    intro t hne hblank
    obtain ⟨c, t, rfl⟩ := List.exists_cons_of_ne_nil hne
    exact List.countP_pos_iff.mpr
      ⟨c, List.mem_cons_self, Text.isBlank_iff.mp hblank c List.mem_cons_self⟩
  have hgaps := hpositive hgap hgapBlank
  have hpads := hpositive hpad hpadBlank
  rw [hstart] at hcount
  simp only [List.countP_append] at hcount
  omega

/-- The lead of an endpoint line that is read as a step is the lead of the step and more. -/
theorem exists_gap_of_lead? {parts : EndpointLine} (hparts : endpointLine? line = some parts)
    {own : Lead} {more : Text} (hlead : Line.lead? (Line.ofRaw line) = some (own, more))
    (hfeed : '\n' ∉ line) :
    ∃ ind gap, IsIndentation ind ∧ parts.lead = ind ++ (own.text ++ gap) ∧ IsLine gap := by
  obtain ⟨rest, hsplit, hendpoint, _, htrim, hvalue, _⟩ := endpointLine?_eq_some_iff.mp hparts
  obtain ⟨ind, behind, hind, hown⟩ := Gherkin.exists_split_of_lead? hlead
  obtain ⟨gap, hgap⟩ := prefix_of_isEndpointLead hind hendpoint (hown.symm.trans hsplit)
  have hrest : rest ≠ [] := by
    rintro rfl
    exact hvalue htrim
  have hreadable : Line.ofRaw line ≠ none := by
    intro hnone
    rw [hnone] at hlead
    cases hlead
  rw [hsplit] at hreadable hfeed
  have hreturn := Line.return_not_mem_of_append hreadable hrest
  refine ⟨ind, gap, hind, by rw [← hgap, List.append_assoc], fun hmem => hfeed ?_, fun hmem =>
    hreturn ?_⟩
  · exact List.mem_append_left _ (hgap ▸ List.mem_append_right _ hmem)
  · exact hgap ▸ List.mem_append_right _ hmem

/-- A step that names the endpoint stays a step when its value is qualified. -/
theorem insertable_qualifyLine (hhost : ∀ host ∈ e.host, IsLine host) {parts : EndpointLine}
    (hparts : endpointLine? line = some parts) {word : Gherkin.StepWord} {more : Text}
    (hlead : Line.lead? (Line.ofRaw line) = some (.step word, more)) (hfeed : '\n' ∉ line) :
    qualifyLine e line = line ∨ Insertable (qualifyLine e line) := by
  obtain hsame | ⟨quote, inner, _, hquote, hne, hvisible, hchanged, hline⟩ :=
    qualifyLine_of_endpointLine (e := e) hparts
  · exact .inl hsame
  right
  obtain ⟨ind, gap, hind, hgap, hgapLine⟩ := exists_gap_of_lead? hparts hlead hfeed
  obtain ⟨_, hlast⟩ := ends_of_qualified hquote hne hvisible hchanged
  have hvalue : IsLine (quote ++ e.qualify inner ++ quote) := by
    have hquoteLine : IsLine quote :=
      ⟨hquote.not_mem_of_isSpace rfl, hquote.not_mem_of_isSpace rfl⟩
    have hqualified := isLine_qualify hhost (Gherkin.isLine_of_visible hvisible)
    exact isLine_append_iff.mpr ⟨isLine_append_iff.mpr ⟨hquoteLine, hqualified⟩, hquoteLine⟩
  have hend := Text.trimEnd_of_getLast hlast
  have hnonempty := qualified_ne_nil quote hchanged
  rw [hline, hgap, List.append_assoc, List.append_assoc]
  refine insertable_of_split word hind (isLine_append_iff.mpr ⟨hgapLine, hvalue⟩) ?_
  rw [Text.trimEnd_append_of_not_isBlank _ (by rwa [hend]), hend]
  exact fun hnil => hnonempty (List.append_eq_nil_iff.mp hnil).2

/-- The first endpoint line of sound lines may be qualified. -/
theorem Sound.qualify (h : Sound (front ++ line :: back)) (hhost : ∀ host ∈ e.host, IsLine host)
    (houtside : Role.insideAfter false front = false) (hmark : hasMark line = false)
    {parts : EndpointLine} (hparts : endpointLine? line = some parts) :
    Sound (front ++ qualifyLine e line :: back) := by
  obtain ⟨keyword, hheader, hkeyword⟩ :=
    keyword_of_endpointLine (Option.isSome_of_eq_some hparts) houtside hmark back
  obtain ⟨found, lead, hleads, hlead⟩ := h.exists_leadsAt hkeyword
  obtain ⟨hget, _, ⟨more, hmore⟩, hdescription, _⟩ := hleads
  rw [List.getElem?_append_right (Nat.le_refl _), Nat.sub_self, List.getElem?_cons_zero,
    Option.some.injEq] at hget
  subst hget
  obtain ⟨word, rfl⟩ := Lead.eq_step_of_keyword? hlead hheader
  have hfeed := h.regular.feed line (List.mem_append_right _ List.mem_cons_self)
  obtain hsame | hqualified := insertable_qualifyLine hhost hparts hmore hfeed
  · rwa [hsame]
  · exact h.replace_step houtside hmark ⟨⟨word, more, hmore⟩, hdescription⟩ hqualified

end Endpoint

section Steps

variable {options : RepairOptions} {e : Endpoint} {indent : Text} {lines : List Text}
  {endpointAt : Nat}

theorem sound_withEndpoint (h : Sound lines) (hhost : ∀ host ∈ e.host, IsLine host)
    (hpath : IsLine e.path) (hindent : IsIndentation indent) (hheader : (headerAt? lines).isSome)
    (hunder : findText? (fun line => (endpointLine? line).isSome) lines = none →
      ∀ i ∈ headerAt? lines, (keywords lines)[i]? ≠ some (some .feature) ∧
        ∀ first ∈ firstCounted? (lines.drop (i + 1)), first.description? = none) :
    Sound (withEndpoint e indent lines).1 := by
  obtain ⟨front, line, back, rfl, houtside, hmark, hendpoint, _, heq⟩ | ⟨hnone, heq⟩ :=
    withEndpoint_cases e indent lines
  · obtain ⟨parts, hparts⟩ := Option.isSome_iff_exists.mp hendpoint
    rw [heq]
    exact h.qualify hhost houtside hmark hparts
  · obtain ⟨i, hi⟩ := Option.isSome_iff_exists.mp hheader
    obtain ⟨hfeature, hfirst⟩ := hunder hnone i hi
    obtain ⟨keyword, hkeyword, hget⟩ := keyword_of_headerAt? hi
    have hne : keyword ≠ .feature := by
      rintro rfl
      exact hfeature hget
    obtain ⟨w, hsteps, hstands⟩ := h.stands_behind_header hkeyword hne hget
    rw [heq, hi]
    exact (h.insert_step hstands (insertable_endpointLineOf hindent (isLine_qualify hhost hpath))
      hsteps (.inl rfl) fun _ => hfirst).1

/-- Where a request block goes stands what may stand under a step. -/
theorem sound_withHeader (h : Sound lines) (hat : EndpointAt e lines endpointAt)
    (hindent : IsIndentation indent) (hcontentType : IsLine options.contentType) :
    Sound (withHeader options indent endpointAt lines).1 ∧
      ∃ w, w.hasSteps = true ∧ Stands (withHeader options indent endpointAt lines).1
        ((withHeader options indent endpointAt lines).2 + 1) (.step w) := by
  obtain ⟨w, hsteps, hstands⟩ := hat.stands h
  obtain ⟨_, heq | ⟨heq, _, line, hline, hmark, hheader⟩⟩ | ⟨_, heq⟩ :=
    withHeader_cases options indent endpointAt lines
  · rw [heq]
    exact ⟨h, w, hsteps, hstands⟩
  · obtain ⟨τ, hread, hbehind⟩ := hstands.succ h hline hmark
    rw [next_of_afterSetup? hsteps (isSome_afterSetup?_of_isContentTypeHeader hheader) hread]
      at hbehind
    rw [heq]
    exact ⟨h, w, hsteps, hbehind⟩
  · rw [heq]
    obtain ⟨hsound, hbehind⟩ := h.insert_step hstands (insertable_headerLineOf hindent hcontentType)
      hsteps (.inr (.inl rfl)) (by rintro ⟨⟩)
    exact ⟨hsound, w, hsteps, hbehind⟩

/-- A request block may be put in behind a step that nothing belongs to. -/
theorem sound_withRequest (h : Sound lines) (hat : EndpointAt e lines endpointAt)
    (hindent : IsIndentation indent) (hcontentType : IsLine options.contentType)
    (hargument : e.body?.isSome = true →
      hasBodyBlock (withHeader options indent endpointAt lines).1 = false →
      ∀ first ∈ firstCounted? ((withHeader options indent endpointAt lines).1.drop
        ((withHeader options indent endpointAt lines).2 + 1)),
        first.opening? = none ∧ first.width? = none) :
    Sound (withRequest options e indent endpointAt lines) := by
  rw [withRequest]
  cases hbody : e.body? with
  | none => exact h
  | some body =>
    rw [hbody] at hargument
    obtain ⟨hsound, w, hsteps, hstands⟩ := sound_withHeader h hat hindent hcontentType
    dsimp only
    split
    · exact hsound
    · rename_i hlacks
      have hfirst := hargument rfl (Bool.eq_false_iff.mpr hlacks)
      exact (hsound.insertAt hstands (regular_requestBlock hindent body)
        (insideAfter_requestBlock (Gherkin.isBlank_of_isIndentation hindent) body)
        (run_requestBlock hindent hsteps body) fun hreads => hreads.between_of_step hfirst).1

/-- The line that sends the request may be put in behind the last line of the setup. -/
theorem sound_withExecution (h : Sound lines) (hat : EndpointAt e lines endpointAt)
    (hindent : IsIndentation indent) (hmethod : IsLine e.method) :
    Sound (withExecution e indent endpointAt lines) := by
  have hstands : ∃ w σ, w.hasSteps = true ∧ (σ = .step w ∨ σ = .between w) ∧
      Stands lines ((lastSetupLine? endpointAt lines).getD endpointAt + 1) σ := by
    cases hlast : lastSetupLine? endpointAt lines with
    | none =>
      obtain ⟨w, hsteps, hstands⟩ := hat.stands h
      exact ⟨w, _, hsteps, .inl rfl, hstands⟩
    | some i =>
      rcases step_or_closing_of_lastSetupLine? hlast with ⟨keyword, hsetup, hi⟩ | hi
      · obtain ⟨w, hsteps, hstands⟩ := h.stands_behind_step hsetup hi
        exact ⟨w, _, hsteps, .inl rfl, hstands⟩
      · obtain ⟨w, hsteps, hstands⟩ := h.stands_behind_closing hi
        exact ⟨w, _, hsteps, .inr rfl, hstands⟩
  obtain ⟨w, σ, hsteps, hσ, hstands⟩ := hstands
  rw [withExecution]
  split
  · exact h
  · refine (h.insert_step hstands (insertable_executionLineOf hindent hmethod) hsteps (.inr hσ)
      ?_).1
    rcases hσ with rfl | rfl <;> rintro ⟨⟩

end Steps

/-- The lines with the endpoint line and the content type header, and the index of the line behind
    which a request block goes. -/
def headedLines (options : RepairOptions) (e : Endpoint) (lines : List Text) : List Text × Nat :=
  let indent := stepIndentOf options lines
  let (lines, endpointAt) := withEndpoint e indent lines
  withHeader options indent endpointAt lines

/-- Lines of which search and grammar see the same, and into which a repair puts its own ones where
    the grammar has a place for them. -/
structure Repairable (options : RepairOptions) (e : Endpoint) (lines : List Text) : Prop where
  /-- Nothing but the mark closes a docstring. -/
  closing : ∀ pair ∈ (Role.scan lines).zip lines, pair.1 = .closing → pair.2.trim = docstringMark
  /-- No description leads with a keyword. -/
  free : ∀ line ∈ textLines false lines, (Line.description? (Line.ofRaw line)).isSome = true →
    Keyword.leading? line = none
  /-- If there is no endpoint line, the header that it goes under is one of a background or of a
      scenario, and no description stands under it. -/
  header : findText? (fun line => (endpointLine? line).isSome) lines = none →
    ∀ i ∈ headerAt? lines, (keywords lines)[i]? ≠ some (some .feature) ∧
      ∀ first ∈ firstCounted? (lines.drop (i + 1)), first.description? = none
  /-- If there is no request block, neither a docstring nor a table belongs to the step that it goes
      behind. -/
  argument : e.body?.isSome = true → hasBodyBlock (headedLines options e lines).1 = false →
    ∀ first ∈ firstCounted?
      ((headedLines options e lines).1.drop ((headedLines options e lines).2 + 1)),
      first.opening? = none ∧ first.width? = none

instance (options : RepairOptions) (e : Endpoint) (lines : List Text) :
    Decidable (Repairable options e lines) :=
  decidable_of_iff
    ((∀ pair ∈ (Role.scan lines).zip lines, pair.1 = .closing → pair.2.trim = docstringMark) ∧
      (∀ line ∈ textLines false lines, (Line.description? (Line.ofRaw line)).isSome = true →
        Keyword.leading? line = none) ∧
      (findText? (fun line => (endpointLine? line).isSome) lines = none →
        ∀ i ∈ headerAt? lines, (keywords lines)[i]? ≠ some (some .feature) ∧
          ∀ first ∈ firstCounted? (lines.drop (i + 1)), first.description? = none) ∧
      (e.body?.isSome = true → hasBodyBlock (headedLines options e lines).1 = false →
        ∀ first ∈ firstCounted?
          ((headedLines options e lines).1.drop ((headedLines options e lines).2 + 1)),
          first.opening? = none ∧ first.width? = none))
    ⟨fun ⟨hclosing, hfree, hheader, hargument⟩ => ⟨hclosing, hfree, hheader, hargument⟩,
      fun ⟨hclosing, hfree, hheader, hargument⟩ => ⟨hclosing, hfree, hheader, hargument⟩⟩

section Text

variable {options : RepairOptions} {e : Endpoint} {text : Text} {doc : Document}

/-- A repair leaves sound lines sound. -/
theorem Sound.repairedLines {lines : List Text} (h : Sound lines)
    (hcounts : ∃ line ∈ lines, (Line.ofRaw line).isIgnorable = false)
    (hpath : IsLine e.path) (hmethod : IsLine e.method) (hhost : ∀ host ∈ e.host, IsLine host)
    (hstep : IsIndentation options.stepIndent) (hcontentType : IsLine options.contentType)
    (hlines : Repairable options e lines) : Sound (repairedLines options e lines) := by
  obtain ⟨_, _, hunder, hargument⟩ := hlines
  have hindent := h.isIndentation_stepIndentOf hstep
  have hblank := Gherkin.isBlank_of_isIndentation hindent
  have hheader := Option.isSome_iff_exists.mpr (h.exists_headerAt? hcounts)
  have hendpoint := sound_withEndpoint h hhost hpath hindent hheader hunder
  have hat := endpointAt_withEndpoint hblank (fun host hmem => (hhost host hmem).1) hpath.1 lines
  have hrequest := sound_withRequest hendpoint hat hindent hcontentType hargument
  have hrequested := requested_withRequest hblank hat options
  exact sound_withExecution hrequest hrequested.endpoint hindent hmethod

/-- The lines of a text that can be read are sound if search and grammar see the same in them. -/
theorem sound_lines (hparse : Gherkin.parse text = .ok doc)
    (hfence : ∀ line ∈ text.lines, isFence line = false)
    (hlines : Repairable options e text.lines) : Sound text.lines := by
  obtain ⟨σ, hrun, hfinal⟩ := (Gherkin.exists_parse_iff text).mp ⟨doc, hparse⟩
  rw [(Gherkin.all_of_parse hparse).2] at hrun
  refine ⟨⟨σ, hrun, hfinal⟩, hlines.closing, hlines.free, ?_, ?_⟩
  · exact fun line hline => hfence line (mem_of_mem_textLines hline)
  · exact fun line hline => Text.feed_not_mem_of_mem_lines hline

/-- A repaired text can be read if the text can be read and has a feature, provided that search and
    grammar see the same in it and that the lines go where the grammar has a place for them. -/
theorem exists_parse_repair (hparse : Gherkin.parse text = .ok doc) (hfeature : doc.feature ≠ none)
    (hfence : ∀ line ∈ text.lines, isFence line = false) (hpath : IsLine e.path)
    (hmethod : IsLine e.method) (hhost : ∀ host ∈ e.host, IsLine host)
    (hstep : IsIndentation options.stepIndent) (hcontentType : IsLine options.contentType)
    (hlines : Repairable options e text.lines) :
    ∃ repaired, Gherkin.parse (repair options e text) = .ok repaired := by
  have hsound := sound_lines hparse hfence hlines
  have hcounts : ∃ line ∈ text.lines, (Line.ofRaw line).isIgnorable = false := by
    by_contra hnone
    refine hfeature ((Gherkin.feature_eq_none_iff hparse).mpr fun line hline => ?_)
    rw [(Gherkin.all_of_parse hparse).2, List.mem_map] at hline
    obtain ⟨raw, hraw, rfl⟩ := hline
    by_contra hcount
    exact hnone ⟨raw, hraw, Bool.eq_false_iff.mpr hcount⟩
  have hkept := fencelessLines_eq_lines hfence
  have hrepaired := (hsound.repairedLines hcounts hpath hmethod hhost hstep hcontentType
    hlines).trimLines
  have hne : trimLines (repairedLines options e (fencelessLines text)) ≠ [] :=
    (settled_repairedLines (fun host hmem => (hhost host hmem).1) hpath.1
      (Gherkin.isBlank_of_isIndentation hstep) (fencelessLines text)).trimLines.ne_nil
  rw [repair_eq_unlines options e text hne, Gherkin.exists_parse_iff, hkept,
    Gherkin.Line.all_unlines_eq hrepaired.regular.feed]
  exact hrepaired.reads

end Text

/-- A text with a background and a table, in which everything lacks that a request with a body
    needs. -/
theorem exists_parse_repair_background :
    let e : Endpoint := ⟨"/users".toList, "post".toList, some "api.test".toList,
      some (.object [("name".toList, .string "a".toList)])⟩
    let text : Text := ("Feature: F\n\nBackground:\n  Given base\n\n  @smoke\n  Scenario: s\n" ++
      "    Given x\n    | a | b |\n    Then status 200\n").toList
    (∃ doc, Gherkin.parse text = .ok doc) ∧ Repairable .standard e text.lines ∧
      ∃ repaired, Gherkin.parse (repair .standard e text) = .ok repaired := by
  intro e text
  have hread : Stage.run (Line.all text) (.between .top) = some (.step .scenario) := by
    decide +kernel
  obtain ⟨doc, hparse⟩ := (Gherkin.exists_parse_iff text).mpr ⟨_, hread, rfl⟩
  have hfeature : doc.feature ≠ none := by
    rw [ne_eq, Gherkin.feature_eq_none_iff hparse]
    decide +kernel
  have hlines : Repairable .standard e text.lines := by
    decide +kernel
  exact ⟨⟨doc, hparse⟩, hlines, exists_parse_repair hparse hfeature (by decide +kernel) (by decide)
    (by decide) (by decide) (by decide) (by decide) hlines⟩

/-- A description that leads with `Scenario` is taken for a header, and the endpoint line that goes
    under it cannot be read there. -/
theorem parse_repair_ne_of_description :
    let e : Endpoint := ⟨"/p".toList, "GET".toList, none, none⟩
    let text : Text :=
      "Feature: F\nScenario text\nScenario: s\nGiven x\nThen status 200\n".toList
    (∃ doc f, Gherkin.parse text = .ok doc ∧ doc.feature = some f ∧ f.scenarios ≠ []) ∧
      (∀ line ∈ text.lines, isFence line = false) ∧
      repair .standard e text = ("Feature: F\nScenario text\nGiven endpoint \"/p\"\n" ++
        "Scenario: s\nGiven x\nWhen method GET\nThen status 200\n").toList ∧
      ∀ repaired, Gherkin.parse (repair .standard e text) ≠ .ok repaired := by
  intro e text
  refine ⟨?_, by decide +kernel, by decide +kernel, ?_⟩
  · let steps : List Gherkin.Step :=
      [⟨.given, "x".toList, 4, none⟩, ⟨.then, "status 200".toList, 5, none⟩]
    let f : Gherkin.Feature := ⟨[], "F".toList, ["Scenario text".toList], 1, none,
      [⟨[], .scenario, "s".toList, 3, steps, []⟩]⟩
    have hread : Gherkin.parse (Text.unlines (Document.mk (some f)).render) =
        .ok (Document.mk (some f)).numbered :=
      Gherkin.parse_render (by decide +kernel) (by decide) (by decide)
    exact ⟨_, f, hread, by decide +kernel, by decide⟩
  · intro repaired hparse
    obtain ⟨σ, hrun, _⟩ := (Gherkin.exists_parse_iff _).mp ⟨repaired, hparse⟩
    have hstuck : Stage.run (Line.all (repair .standard e text)) (.between .top) = none := by
      decide +kernel
    rw [hstuck] at hrun
    cases hrun

end ScenarioLint.Scenario
