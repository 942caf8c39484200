import ScenarioLint.Proofs.Gherkin.Accepted

/-!
Reading on from another stage.  Lines that can be read in one stage can be read in another one if
the two stages agree on the first line that counts, so a step can be put in wherever a step may
stand.
-/

namespace ScenarioLint.Gherkin

/-- The first line that counts. -/
def firstCounted? (lines : List Text) : Option Line :=
  (lines.map Line.ofRaw).find? fun line => !line.isIgnorable

namespace Stage

variable {σ τ υ : Stage} {w : Within} {t : Text} {lines front back rest : List Text}

/-- The lines lead to a stage in which a document may end. -/
def Reads (σ : Stage) (lines : List Text) : Prop :=
  ∃ τ, run (lines.map Line.ofRaw) σ = some τ ∧ τ.isFinal = true

theorem reads_nil_iff : σ.Reads [] ↔ σ.isFinal = true := by
  simp [Reads]

theorem reads_append_iff : σ.Reads (front ++ back) ↔
    ∃ τ, run (front.map Line.ofRaw) σ = some τ ∧ τ.Reads back := by
  simp only [Reads, List.map_append, run_append, Option.bind_eq_some_iff]
  constructor
  · rintro ⟨υ, ⟨τ, hfront, hback⟩, hfinal⟩
    exact ⟨τ, hfront, υ, hback, hfinal⟩
  · rintro ⟨τ, hfront, υ, hback, hfinal⟩
    exact ⟨υ, ⟨τ, hfront, hback⟩, hfinal⟩

theorem run_singleton (line : Line) (σ : Stage) : run [line] σ = σ.next line := by
  rw [run_cons]
  cases σ.next line <;> rfl

theorem reads_cons_iff : σ.Reads (t :: rest) ↔
    ∃ τ, σ.next (Line.ofRaw t) = some τ ∧ τ.Reads rest := by
  rw [← List.singleton_append, reads_append_iff]
  simp only [List.map_cons, List.map_nil, run_singleton]

/-- Lines that are read in one stage are read in another one that takes the first line that counts
    in the same way. -/
theorem Reads.of_next_eq (h : σ.Reads lines) (hσ : σ.skips = true) (hυ : υ.skips = true)
    (hfinal : υ.isFinal = true)
    (hnext : ∀ line, firstCounted? lines = some line → σ.next line ≠ none →
      υ.next line = σ.next line) : υ.Reads lines := by
  induction lines with
  | nil => exact reads_nil_iff.mpr hfinal
  | cons t rest ih =>
    obtain ⟨τ, hτ, hrest⟩ := reads_cons_iff.mp h
    cases hline : (Line.ofRaw t).isIgnorable with
    | true =>
      have hfirst : firstCounted? (t :: rest) = firstCounted? rest := by
        simp [firstCounted?, hline]
      rw [next_of_isIgnorable hσ hline] at hτ
      cases hτ
      exact reads_cons_iff.mpr ⟨υ, next_of_isIgnorable hυ hline, ih hrest (hfirst ▸ hnext)⟩
    | false =>
      have hfirst : firstCounted? (t :: rest) = some (Line.ofRaw t) := by
        simp [firstCounted?, hline]
      rw [← hnext _ hfirst (by simp [hτ])] at hτ
      exact reads_cons_iff.mpr ⟨τ, hτ, hrest⟩

theorem isIgnorable_of_firstCounted? {line : Line} (h : firstCounted? lines = some line) :
    line.isIgnorable = false := by
  simpa using List.find?_some h

/-- A line with the lead of a header or of a step stands under no step as its docstring or table. -/
theorem not_argument_of_lead? {line : Line} {lead : Lead} {more : Text}
    (hlead : line.lead? = some (lead, more)) (hargument : lead.isArgument = false) :
    line.opening? = none ∧ line.width? = none := by
  constructor
  · apply Place.opening?_eq_none_of_lead? hlead
    · rintro rfl
      cases hargument
    · rintro rfl
      cases hargument
  · rw [Option.eq_none_iff_forall_ne_some]
    intro k hk
    obtain ⟨own, hown⟩ := Place.row?_of_width? hk
    cases hlead.symm.trans hown
    cases hargument

/-- What opens something stands under no step as its docstring or table. -/
theorem not_argument_of_opensLine {line : Line} (h : w.opensLine line ≠ none) :
    line.opening? = none ∧ line.width? = none := by
  obtain ⟨τ, hτ⟩ := Option.ne_none_iff_exists'.mp h
  obtain ⟨⟨lead, more⟩, hlead, hopens⟩ := Option.bind_eq_some_iff.mp hτ
  refine not_argument_of_lead? hlead ?_
  cases lead with
  | quotes | backticks | bar => cases hopens
  | _ => rfl

/-- Under a step may stand whatever may stand where nothing belongs to the last line. -/
theorem Reads.step_of_between (h : (between w).Reads lines) : (step w).Reads lines := by
  refine h.of_next_eq rfl rfl rfl fun line hfirst hread => ?_
  have hline := isIgnorable_of_firstCounted? hfirst
  rw [Place.next_between w hline] at hread ⊢
  obtain ⟨hopening, hwidth⟩ := not_argument_of_opensLine hread
  rw [Place.next_step w hline, hopening, hwidth]
  rfl

/-- Under a step may stand whatever stands under a header, but for a description. -/
theorem Reads.step_of_header (h : (header w).Reads lines) (hw : w ≠ .examples)
    (hfirst : ∀ line, firstCounted? lines = some line → line.description? = none) :
    (step w).Reads lines := by
  refine h.of_next_eq rfl rfl rfl fun line hcounted hread => ?_
  have hline := isIgnorable_of_firstCounted? hcounted
  have hheader : (header w).next line = w.opensLine line := by
    simp [next, hline, hfirst line hcounted, hw]
  rw [hheader] at hread ⊢
  obtain ⟨hopening, hwidth⟩ := not_argument_of_opensLine hread
  rw [Place.next_step w hline, hopening, hwidth]
  rfl

/-- What stands under a step and does not belong to it may stand there without the step. -/
theorem Reads.between_of_step (h : (step w).Reads lines)
    (hfirst : ∀ line, firstCounted? lines = some line →
      line.opening? = none ∧ line.width? = none) : (between w).Reads lines := by
  refine h.of_next_eq rfl rfl rfl fun line hcounted _ => ?_
  have hline := isIgnorable_of_firstCounted? hcounted
  obtain ⟨hopening, hwidth⟩ := hfirst line hcounted
  rw [Place.next_step w hline, Place.next_between w hline, hopening, hwidth]
  rfl

/-- A line that counts has a lead where it can be read, unless it describes a header. -/
theorem exists_lead?_of_next {line : Line} (hσ : σ.isOutside = true)
    (hline : line.isIgnorable = false)
    (hdescription : ∀ w, σ = header w → line.description? = none)
    (h : σ.next line = some τ) : ∃ lead more, line.lead? = some (lead, more) := by
  cases hlead : line.lead? with
  | some found => exact ⟨found.1, found.2, rfl⟩
  | none =>
    exfalso
    have hopens : ∀ w : Within, w.opensLine line = none := fun w => by
      rw [Within.opensLine, hlead, Option.bind_none]
    have hopening : line.opening? = none := by
      rw [Option.eq_none_iff_forall_ne_some]
      intro o ho
      obtain ⟨_, _, hown⟩ := Place.lead?_of_opening? ho
      rw [hlead] at hown
      cases hown
    have hwidth : line.width? = none := by
      rw [Option.eq_none_iff_forall_ne_some]
      intro k hk
      obtain ⟨_, hown⟩ := Place.row?_of_width? hk
      rw [hlead] at hown
      cases hown
    cases σ with
    | docstring w o body => cases hσ
    | header w => simp [next, hline, hdescription w rfl, hopens, hwidth] at h
    | _ => simp [next, hline, hlead, hopens, hopening, hwidth] at h

/-- In front of the feature a line that counts opens what its lead opens. -/
theorem opens_top_of_next {line : Line} (hσ : σ = between .top ∨ σ = tagged .top)
    (hline : line.isIgnorable = false) (h : σ.next line = some τ) :
    ∃ lead more, line.lead? = some (lead, more) ∧ Within.top.opens lead = some τ := by
  rcases hσ with rfl | rfl
  · rw [Place.next_between .top hline] at h
    obtain ⟨⟨lead, more⟩, hlead, hopens⟩ := Option.bind_eq_some_iff.mp h
    exact ⟨lead, more, hlead, hopens⟩
  · rw [next, hline] at h
    obtain ⟨⟨lead, more⟩, hlead, hopens⟩ := Option.bind_eq_some_iff.mp h
    dsimp only at hopens
    split at hopens
    · exact ⟨lead, more, hlead, hopens⟩
    · cases hopens

/-- A line with the lead of a header or of a step opens what its lead opens, where it can be
    read. -/
theorem opens_of_next {line : Line} {lead : Lead} {more : Text}
    (hlead : line.lead? = some (lead, more)) (hargument : lead.isArgument = false)
    (hdescription : line.description? = none) (hσ : σ.isOutside = true)
    (h : σ.next line = some τ) : ∃ w, Within.opens w lead = some τ := by
  have hline := Place.isIgnorable_of_lead? hlead
  have hopens := Place.opensLine_of_lead? hlead
  obtain ⟨hopening, hwidth⟩ := not_argument_of_lead? hlead hargument
  cases σ with
  | between w =>
    rw [Place.next_between w hline, hopens] at h
    exact ⟨w, h⟩
  | tagged w =>
    rw [next, hline, hlead] at h
    dsimp only [Option.bind_some] at h
    split at h
    · cases ‹false = true›
    · split at h
      · exact ⟨w, h⟩
      · cases h
  | header w =>
    by_cases hw : w = .examples
    · simp [next, hline, hdescription, hw, hwidth] at h
    · simp only [next, hline, hdescription, hw, hopens, Option.isSome_none, Bool.or_self,
        Bool.false_eq_true, if_false] at h
      exact ⟨w, h⟩
  | step w =>
    rw [Place.next_step w hline, hopening, hwidth, hopens] at h
    exact ⟨w, h⟩
  | docstring w o body => cases hσ
  | table w width =>
    simp only [next, hline, hwidth, hopens, reduceCtorEq, Bool.false_eq_true, if_false] at h
    exact ⟨w, h⟩

end Stage

/-- A line that is read as a step wherever a step may stand. -/
structure IsStepLine (line : Text) : Prop where
  lead : ∃ word more, Line.lead? (Line.ofRaw line) = some (.step word, more)
  description : Line.description? (Line.ofRaw line) = none

namespace IsStepLine

variable {line : Text}

theorem of_leads {word : StepWord} {more : Text} (h : Leads (.step word) more line)
    (hreturn : '\r' ∉ line) : IsStepLine line := by
  have hraw := Line.ofRaw_of_not_mem hreturn
  constructor
  · exact ⟨word, more, hraw ▸ Line.lead?_eq_some_iff.mpr h.body_eq⟩
  · rw [hraw]
    exact h.description?_eq

/-- The reader goes on behind one step as behind another. -/
theorem next_congr {other : Text} (h : IsStepLine line) (hother : IsStepLine other) {σ : Stage}
    (hσ : σ.isOutside = true) : σ.next (Line.ofRaw line) = σ.next (Line.ofRaw other) := by
  obtain ⟨⟨word, more, hlead⟩, hdescription⟩ := h
  obtain ⟨⟨otherWord, otherMore, hotherLead⟩, hotherDescription⟩ := hother
  have hline := Place.isIgnorable_of_lead? hlead
  have hotherLine := Place.isIgnorable_of_lead? hotherLead
  have hopens : ∀ w : Within, w.opensLine (Line.ofRaw line) = w.opensLine (Line.ofRaw other) := by
    intro w
    rw [Place.opensLine_of_lead? hlead, Place.opensLine_of_lead? hotherLead]
    rfl
  obtain ⟨hopening, hwidth⟩ := Stage.not_argument_of_lead? hlead rfl
  obtain ⟨hotherOpening, hotherWidth⟩ := Stage.not_argument_of_lead? hotherLead rfl
  cases σ with
  | between w => rw [Place.next_between w hline, Place.next_between w hotherLine, hopens]
  | tagged w => simp [Stage.next, hline, hotherLine, hlead, hotherLead, Lead.isTaggable]
  | header w =>
    simp [Stage.next, hline, hotherLine, hdescription, hotherDescription, hwidth, hotherWidth,
      hopens]
  | step w =>
    rw [Place.next_step w hline, Place.next_step w hotherLine, hopening, hotherOpening, hwidth,
      hotherWidth, hopens]
  | docstring w o body => cases hσ
  | table w width => simp [Stage.next, hline, hotherLine, hwidth, hotherWidth, hopens]

/-- A step may stand behind a header, behind a step and behind its argument. -/
theorem next_eq (h : IsStepLine line) {w : Within} (hw : w.hasSteps = true) {σ : Stage}
    (hσ : σ = .header w ∨ σ = .step w ∨ σ = .between w) :
    σ.next (Line.ofRaw line) = some (.step w) := by
  obtain ⟨word, more, hlead⟩ := h.lead
  have hline := Place.isIgnorable_of_lead? hlead
  have hopens : w.opensLine (Line.ofRaw line) = some (.step w) := by
    rw [Place.opensLine_of_lead? hlead, Within.opens, if_pos hw]
  rcases hσ with rfl | rfl | rfl
  · have hexamples : w ≠ .examples := by
      rintro rfl
      cases hw
    simp [Stage.next, hline, h.description, hexamples, hopens]
  · have hread : w.opensLine (Line.ofRaw line) ≠ none := by simp [hopens]
    obtain ⟨hopening, hwidth⟩ := Stage.not_argument_of_opensLine hread
    rw [Place.next_step w hline, hopening, hwidth, hopens]
    rfl
  · rw [Place.next_between w hline, hopens]

end IsStepLine

/-- A line with a lead is its indentation, its lead and what follows, even if a carriage return
    stands at its end. -/
theorem exists_split_of_lead? {line more : Text} {lead : Lead}
    (h : Line.lead? (Line.ofRaw line) = some (lead, more)) :
    ∃ ind rest, IsIndentation ind ∧ line = ind ++ (lead.text ++ rest) := by
  cases hraw : Line.ofRaw line with
  | none =>
    rw [hraw] at h
    cases h
  | some t =>
    rw [hraw] at h
    obtain ⟨ht, _⟩ := Line.ofRaw_eq_some_iff.mp hraw
    have hsplit : t = Line.indent t ++ (lead.text ++ more) := by
      rw [← Line.lead?_eq_some_iff.mp h]
      exact List.takeWhile_append_dropWhile.symm
    obtain ⟨ws, hws, _⟩ := Text.exists_dropReturn_append line
    refine ⟨Line.indent t, more ++ ws, fun _ => List.mem_takeWhile_imp, ?_⟩
    rw [hws, ← ht]
    conv_lhs => rw [hsplit]
    simp only [List.append_assoc]

theorem trimStart_of_split {ind : Text} (hind : IsIndentation ind) (lead : Lead) (rest : Text) :
    Text.trimStart (ind ++ (lead.text ++ rest)) = lead.text ++ rest :=
  Text.trimStart_append_of_head (isBlank_of_isIndentation hind) fun c hc =>
    (Leads.head?_text_append lead rest c hc).2

end ScenarioLint.Gherkin
