import ScenarioLint.Proofs.Gherkin.Mode
import ScenarioLint.Proofs.Scenario.Assertion
import ScenarioLint.Proofs.Scenario.Insertable

/-!
What the reader of feature files gets to see of a repair: the lines that it writes, one by one,
none of which is a fence.
-/

namespace ScenarioLint.Scenario

open Gherkin (Document Lead Line Mode Token)

/-- A line that is written as one line and that is no fence. -/
structure Stays (line : Text) : Prop where
  feed : '\n' ∉ line
  fence : isFence line = false

theorem Readable.stays {line : Text} (h : Readable line) : Stays line :=
  ⟨h.feed, h.fence⟩

section Output

variable {options : RepairOptions} {e : Endpoint} {indent : Text} {lines kept : List Text}
  {text : Text} {doc : Document}

theorem stays_of_mem_fencelessLines {line : Text} (h : line ∈ fencelessLines text) :
    Stays line := by
  obtain ⟨hmem, hfence⟩ := List.mem_filter.mp h
  exact ⟨Text.feed_not_mem_of_mem_lines hmem, by simpa using hfence⟩

theorem stays_of_requalified (hhost : ∀ host ∈ e.host, '\n' ∉ host)
    (h : Requalified e lines kept) (hlines : ∀ line ∈ lines, Stays line) :
    ∀ line ∈ kept, Stays line := by
  cases h with
  | same => exact hlines
  | @value front back lead quote inner space hsplit houtside hmark hline hfirst hquote =>
    obtain ⟨_, _, hlead, _⟩ := endpointLine?_eq_some_iff.mp hline
    rw [hsplit, List.forall_mem_append, List.forall_mem_cons] at hlines
    obtain ⟨hfront, ⟨hfeed, _⟩, hback⟩ := hlines
    rw [List.forall_mem_append, List.forall_mem_cons]
    refine ⟨hfront, ⟨?_, (plain_of_lead hlead _).2⟩, hback⟩
    simp only [List.mem_append, not_or] at hfeed
    obtain ⟨⟨hleadFeed, ⟨hquoteFeed, hinner⟩, _⟩, _⟩ := hfeed
    have hqualified := Endpoint.not_mem_qualify (by decide) hhost hinner
    simp [hleadFeed, hquoteFeed, hqualified]

theorem stays_executionLineOf (hindent : indent.isBlank = true) (hindentFeed : '\n' ∉ indent)
    (hmethod : '\n' ∉ e.method) : Stays (executionLineOf e indent) := by
  have hfeed := not_mem_methodUpper rfl hmethod
  rw [executionLineOf, List.append_assoc]
  refine ⟨by simp [hindentFeed, hfeed], isFence_of_startsVisibly hindent ⟨_, rfl, by decide⟩⟩

theorem stays_of_inserted (hindent : indent.isBlank = true) (hindentFeed : '\n' ∉ indent)
    (hpath : '\n' ∉ e.path) (hmethod : '\n' ∉ e.method) (hhost : ∀ host ∈ e.host, '\n' ∉ host)
    (hcontentType : '\n' ∉ options.contentType) {block : List Text}
    (hblock : block ∈ insertableBlocks options e indent) : ∀ line ∈ block, Stays line := by
  have hurl : '\n' ∉ e.fullUrl := Endpoint.not_mem_qualify (by decide) hhost hpath
  simp only [insertableBlocks, List.mem_append, List.mem_cons, List.not_mem_nil, or_false,
    List.mem_map] at hblock
  rcases hblock with (rfl | rfl) | ⟨body, _, rfl⟩ | rfl
  · exact List.forall_mem_singleton.mpr (readable_endpointLineOf hindent hindentFeed hurl).stays
  · exact List.forall_mem_singleton.mpr
      (readable_headerLineOf hindent hindentFeed hcontentType).stays
  · exact fun line hline => (readable_of_mem_requestBlock hindent hindentFeed hline).stays
  · exact List.forall_mem_singleton.mpr (stays_executionLineOf hindent hindentFeed hmethod)

theorem stays_of_mem_repairedLines (hpath : '\n' ∉ e.path) (hmethod : '\n' ∉ e.method)
    (hhost : ∀ host ∈ e.host, '\n' ∉ host) (hstep : options.stepIndent.isBlank = true)
    (hstepFeed : '\n' ∉ options.stepIndent) (hcontentType : '\n' ∉ options.contentType)
    (hlines : ∀ line ∈ lines, Stays line) : ∀ line ∈ repairedLines options e lines, Stays line := by
  intro line hline
  obtain ⟨kept, blocks, hkept, hblocks, hwoven⟩ := woven_repairedLines hpath hhost hstep lines
  rcases hwoven.mem hline with hline | ⟨block, hblock, hline⟩
  · exact stays_of_requalified hhost hkept hlines line hline
  · exact stays_of_inserted (isBlank_stepIndentOf hstep lines)
      (feed_not_mem_stepIndentOf hstepFeed fun line hline => (hlines line hline).feed) hpath hmethod
      hhost hcontentType (hblocks.subset hblock) line hline

theorem isFence_dropReturn (line : Text) : isFence line.dropReturn = isFence line := by
  rw [← isFence_trim, Text.trim_dropReturn, isFence_trim]

/-- Lines that can be read are read without the carriage return at their end. -/
theorem map_snd_of_ofRaw {tokens : List Token}
    (h : lines.map Line.ofRaw = tokens.map (some ·.2)) :
    tokens.map Prod.snd = lines.map Text.dropReturn := by
  induction lines generalizing tokens with
  | nil => rw [List.map_eq_nil_iff.mp h.symm]; rfl
  | cons line lines ih =>
    obtain ⟨token, rest, rfl, htoken, hrest⟩ := List.map_eq_cons_iff.mp h.symm
    rw [List.map_cons, List.map_cons, ih hrest.symm, (Line.ofRaw_eq_some_iff.mp htoken.symm).1]

/-- A repaired text is read line by line as it was made, and none of its lines is a fence. -/
theorem exists_tokens_of_repair (hpath : '\n' ∉ e.path) (hmethod : '\n' ∉ e.method)
    (hhost : ∀ host ∈ e.host, '\n' ∉ host) (hstep : options.stepIndent.isBlank = true)
    (hstepFeed : '\n' ∉ options.stepIndent) (hcontentType : '\n' ∉ options.contentType)
    (hparse : Gherkin.parse (repair options e text) = .ok doc) :
    ∃ tokens : List Token, doc.Derived tokens ∧ tokens.map Prod.snd =
        (trimLines (repairedLines options e (fencelessLines text))).map Text.dropReturn ∧
      ∀ token ∈ tokens, isFence token.2 = false := by
  have hne := (settled_repairedLines hhost hpath hstep (fencelessLines text)).trimLines.ne_nil
  have hstays : ∀ line ∈ trimLines (repairedLines options e (fencelessLines text)), Stays line :=
    fun line hline => stays_of_mem_repairedLines hpath hmethod hhost hstep hstepFeed hcontentType
      (fun line hline => stays_of_mem_fencelessLines hline) line (mem_of_mem_trimLines hline)
  obtain ⟨tokens, hlines, hderived⟩ := Gherkin.parse_eq_ok_iff.mp hparse
  rw [repair_eq_unlines options e text hne,
    Line.all_unlines_eq fun line hline => (hstays line hline).feed] at hlines
  have htokens := map_snd_of_ofRaw hlines
  refine ⟨tokens, hderived, htokens, fun token htoken => ?_⟩
  have hmem : token.2 ∈ tokens.map Prod.snd := List.mem_map.mpr ⟨token, htoken, rfl⟩
  rw [htokens] at hmem
  obtain ⟨line, hline, heq⟩ := List.mem_map.mp hmem
  rw [← heq, isFence_dropReturn]
  exact (hstays line hline).fence

end Output

/-- Where no line is a fence, every docstring is opened by three quotes. -/
theorem eq_quotes_of_inside {tokens : List Token} {m : Mode} {lead : Lead}
    (hpasses : Mode.plain.Passes tokens m) (hm : m = .inside lead)
    (hfits : ∀ token ∈ tokens, token.1.Fits token.2)
    (hfence : ∀ token ∈ tokens, isFence token.2 = false) : lead = .quotes := by
  obtain hinside | ⟨hmode, line, hline⟩ := hpasses.eq_or_mem_of_inside hm
  · cases hinside
  · cases lead with
    | quotes => rfl
    | backticks =>
      obtain ⟨ind, more, hopens⟩ := hfits _ hline
      have hmark := Line.isFence_of_lead? hopens.lead?_eq
      rw [hfence _ hline] at hmark
      cases hmark
    | _ => cases hmode

end ScenarioLint.Scenario
