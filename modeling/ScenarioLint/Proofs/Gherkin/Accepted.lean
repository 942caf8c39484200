import ScenarioLint.Proofs.Gherkin.Walk
import ScenarioLint.Proofs.Scenario.Docstring
import ScenarioLint.Proofs.Text.Lines

/-!
The lines of texts that can be read, and the stages that they lead to.  A text can be read if its
lines lead from the top to a stage in which a document may end.
-/

open ScenarioLint.Scenario (docstringMark hasMark hasMark_of_trim hasMark_trim isFence)

namespace ScenarioLint.Gherkin

namespace Line

theorem ofRaw_eq_some_iff {raw t : Text} : ofRaw raw = some t ↔ t = raw.dropReturn ∧ '\r' ∉ t := by
  rw [ofRaw]
  split
  · rename_i hreturn
    rw [List.contains_iff_mem] at hreturn
    simp only [reduceCtorEq, false_iff, not_and, Decidable.not_not]
    rintro rfl
    exact hreturn
  · rename_i hreturn
    rw [List.contains_iff_mem] at hreturn
    rw [Option.some.injEq]
    constructor
    · rintro rfl
      exact ⟨rfl, hreturn⟩
    · rintro ⟨rfl, _⟩
      rfl

/-- A line that can be read does not mind the loss of a carriage return at its end. -/
theorem ofRaw_dropReturn {raw : Text} (h : ofRaw raw ≠ none) :
    ofRaw raw.dropReturn = ofRaw raw := by
  obtain ⟨t, ht⟩ := Option.ne_none_iff_exists'.mp h
  obtain ⟨rfl, hreturn⟩ := ofRaw_eq_some_iff.mp ht
  rw [ht]
  exact ofRaw_eq_some_iff.mpr ⟨(Text.dropReturn_of_not_mem hreturn).symm, hreturn⟩

theorem ofRaw_of_not_mem {t : Text} (h : '\r' ∉ t) : ofRaw t = some t :=
  ofRaw_eq_some_iff.mpr ⟨(Text.dropReturn_of_not_mem h).symm, h⟩

/-- A line that can be read holds a carriage return nowhere but at its end. -/
theorem return_not_mem_of_append {front back : Text} (h : ofRaw (front ++ back) ≠ none)
    (hback : back ≠ []) : '\r' ∉ front := by
  obtain ⟨t, ht⟩ := Option.ne_none_iff_exists'.mp h
  obtain ⟨rfl, hreturn⟩ := ofRaw_eq_some_iff.mp ht
  intro hmem
  apply hreturn
  rw [Text.dropReturn]
  split
  · rw [List.dropLast_append_of_ne_nil hback]
    exact List.mem_append_left _ hmem
  · exact List.mem_append_left _ hmem

/-- A feature file is read by the lines of its text if all of them can be read. -/
theorem all_eq_map_lines {text : Text} (h : none ∉ all text) : all text = text.lines.map ofRaw := by
  obtain ⟨front, last, hpieces⟩ :=
    (List.eq_nil_or_concat' _).resolve_left (Text.pieces_ne_nil '\n' text)
  have hfront : none ∉ front.map ofRaw := by
    intro hmem
    apply h
    simp only [all, hpieces, List.getLast?_concat, List.dropLast_concat]
    split
    · exact hmem
    · rw [List.map_append]
      exact List.mem_append_left _ hmem
  have hsame : (front.map Text.dropReturn).map ofRaw = front.map ofRaw := by
    rw [List.map_map]
    refine List.map_congr_left fun raw hraw => ofRaw_dropReturn fun hnone => hfront ?_
    rw [← hnone]
    exact List.mem_map_of_mem hraw
  simp only [all, Text.lines, hpieces, List.getLast?_concat, List.dropLast_concat,
    List.getLastD_concat, Option.some.injEq, List.isEmpty_iff, List.map_append, hsame]
  split <;> simp

/-- Written lines are read one by one. -/
theorem all_unlines_eq {lines : List Text} (h : ∀ line ∈ lines, '\n' ∉ line) :
    all (Text.unlines lines) = lines.map ofRaw := by
  rw [all, Text.pieces_unlines h]
  simp

theorem trimStart_of_lead? {t more : Text} {lead : Lead} (h : lead? (some t) = some (lead, more)) :
    t.trimStart = lead.text ++ more := by
  have hsplit : t = indent t ++ (lead.text ++ more) := by
    rw [← lead?_eq_some_iff.mp h]
    exact List.takeWhile_append_dropWhile.symm
  conv_lhs => rw [hsplit]
  refine Text.trimStart_append_of_head ?_ fun c hc => (Leads.head?_text_append lead more c hc).2
  exact isBlank_of_isIndentation fun _ => List.mem_takeWhile_imp

/-- A line with the mark of a docstring counts and is no description. -/
theorem of_hasMark {t : Text} (h : hasMark t = true) :
    isIgnorable (some t) = false ∧ description? (some t) = none := by
  constructor
  · have hblank : Text.isBlank (indent t) = true :=
      isBlank_of_isIndentation fun _ => List.mem_takeWhile_imp
    have hsplit : t = indent t ++ body t := List.takeWhile_append_dropWhile.symm
    rw [Bool.eq_false_iff, isIgnorable]
    intro hignorable
    rw [hsplit, hasMark, Text.trimStart_append_of_isBlank hblank] at h
    cases hbody : body t with
    | nil =>
      rw [hbody] at h
      cases h
    | cons c rest =>
      simp only [hbody, beq_iff_eq] at hignorable
      rw [hbody, hignorable] at h
      cases h
  · have hmark := hasMark_trim t
    rw [h, hasMark, Text.trimStart_trim] at hmark
    have hany : structural.any (·.isPrefixOf t.trim) = true :=
      List.any_eq_true.mpr ⟨docstringMark, by decide, hmark⟩
    simp [description?, hany]

theorem eq_quotes_of_hasMark {t more : Text} {lead : Lead} (h : hasMark t = true)
    (hlead : lead? (some t) = some (lead, more)) : lead = .quotes := by
  rw [hasMark, trimStart_of_lead? hlead, List.isPrefixOf_iff_prefix] at h
  have hquotes : Lead.quotes.text <+: lead.text ++ more := h
  rcases List.prefix_or_prefix_of_prefix (List.prefix_append lead.text more) hquotes with
    hstarts | hstarts
  · exact Lead.eq_of_isPrefix hstarts
  · exact (Lead.eq_of_isPrefix hstarts).symm

theorem hasMark_of_lead? {t more : Text} (h : lead? (some t) = some (.quotes, more)) :
    hasMark t = true := by
  rw [hasMark, trimStart_of_lead? h, List.isPrefixOf_iff_prefix]
  exact List.prefix_append Lead.quotes.text more

theorem isFence_of_lead? {t more : Text} (h : lead? (some t) = some (.backticks, more)) :
    isFence t = true := by
  rw [isFence, trimStart_of_lead? h, List.isPrefixOf_iff_prefix]
  exact List.prefix_append Lead.backticks.text more

/-- A docstring opens at a line with its mark or at a fence. -/
theorem opening?_of_not_hasMark {t : Text} (hmark : hasMark t = false)
    (hfence : isFence t = false) : opening? (some t) = none := by
  rw [Option.eq_none_iff_forall_ne_some]
  intro o ho
  obtain ⟨lead, hquotes, hlead, _⟩ := opening?_eq_some_iff.mp ho
  rcases hquotes with rfl | rfl
  · rw [hasMark_of_lead? hlead] at hmark
    cases hmark
  · rw [isFence_of_lead? hlead] at hfence
    cases hfence

end Line

namespace Stage

variable {σ τ : Stage} {t : Text}

@[simp]
theorem run_nil (σ : Stage) : run [] σ = some σ :=
  rfl

@[simp]
theorem run_cons (line : Line) (rest : List Line) (σ : Stage) :
    run (line :: rest) σ = (σ.next line).bind (run rest) :=
  rfl

theorem run_append (front back : List Line) (σ : Stage) :
    run (front ++ back) σ = (run front σ).bind (run back) := by
  rw [run, List.foldlM_append]
  rfl

theorem next_none (σ : Stage) : σ.next none = none := by
  cases σ with
  | header w => cases w <;> rfl
  | _ => rfl

/-- No stage goes on over a line that cannot be read. -/
theorem ofRaw_of_next {raw : Text} (h : σ.next (Line.ofRaw raw) = some τ) :
    Line.ofRaw raw = some raw.dropReturn := by
  cases hraw : Line.ofRaw raw with
  | none =>
    rw [hraw, next_none] at h
    cases h
  | some t => rw [(Line.ofRaw_eq_some_iff.mp hraw).1]

theorem none_not_mem_of_run {lines : List Line} (h : run lines σ = some τ) : none ∉ lines := by
  induction lines generalizing σ with
  | nil => simp
  | cons line rest ih =>
    rw [run_cons] at h
    obtain ⟨υ, hnext, hrest⟩ := Option.bind_eq_some_iff.mp h
    rw [List.mem_cons, not_or]
    refine ⟨?_, ih hrest⟩
    rintro rfl
    rw [next_none] at hnext
    cases hnext

theorem isSome_walk_iff {n : Nat} {lines : List Line} : (walk n σ lines).isSome = true ↔
    ∃ τ, run lines σ = some τ ∧ τ.isFinal = true := by
  induction lines generalizing n σ with
  | nil => simp [walk]
  | cons line rest ih =>
    rw [walk, run_cons]
    cases σ.next line with
    | none => simp
    | some υ => simp [ih]

/-- Outside docstrings, a line with the mark of one opens a docstring under a step. -/
theorem next_of_hasMark (hσ : σ.isOutside = true) (hmark : hasMark t = true)
    (h : σ.next (some t) = some τ) : ∃ w o, σ = step w ∧ Line.opening? (some t) = some o ∧
      o.mark = docstringMark ∧ τ = docstring w o [] := by
  obtain ⟨hline, hdescription⟩ := Line.of_hasMark hmark
  have hlead : ∀ lead more, Line.lead? (some t) = some (lead, more) → lead = .quotes :=
    fun _ _ => Line.eq_quotes_of_hasMark hmark
  have hopens : ∀ w : Within, w.opensLine (some t) = none := by
    intro w
    rw [Within.opensLine]
    cases hfound : Line.lead? (some t) with
    | none => rfl
    | some found =>
      obtain ⟨lead, more⟩ := found
      rw [hlead lead more hfound]
      rfl
  have hwidth : Line.width? (some t) = none := by
    rw [Option.eq_none_iff_forall_ne_some]
    intro k hk
    obtain ⟨more, hbar⟩ := Place.row?_of_width? hk
    cases hlead _ _ hbar
  cases σ with
  | between w => simp [next, hline, hopens] at h
  | tagged w =>
    rw [next, hline] at h
    obtain ⟨⟨lead, more⟩, hfound, htaggable⟩ := Option.bind_eq_some_iff.mp h
    rw [hlead lead more hfound] at htaggable
    cases htaggable
  | header w => simp [next, hline, hdescription, hwidth, hopens] at h
  | step w =>
    rw [Place.next_step w hline, hwidth, hopens] at h
    cases hopening : Line.opening? (some t) with
    | none => simp [hopening] at h
    | some o =>
      obtain ⟨lead, _, hfound, _, hquotes⟩ := Line.opening?_eq_some_iff.mp hopening
      rw [hlead lead o.rest hfound] at hquotes
      simp only [hopening, Option.map_some, Option.some_or, Option.some.injEq] at h
      exact ⟨w, o, rfl, rfl, hquotes, h.symm⟩
  | docstring w o body => cases hσ
  | table w width => simp [next, hline, hwidth, hopens] at h

/-- The scan is inside a docstring just where the reader is, a docstring is open between quotes, and
    steps are read where they may stand. -/
def Aligned (inside : Bool) : Stage → Prop
  | docstring w o _ => inside = true ∧ o.mark = docstringMark ∧ w.hasSteps = true
  | step w => inside = false ∧ w.hasSteps = true
  | _ => inside = false

theorem Aligned.isOutside (h : σ.Aligned false) : σ.isOutside = true := by
  cases σ with
  | docstring w o body => cases h.1
  | _ => rfl

theorem aligned_of_opens {w : Within} {lead : Lead} (h : w.opens lead = some τ) :
    τ.Aligned false := by
  cases lead with
  | tag =>
    cases h
    rfl
  | step word =>
    rw [Within.opens] at h
    split at h
    · rename_i hsteps
      cases h
      exact ⟨rfl, hsteps⟩
    · cases h
  | quotes => cases h
  | backticks => cases h
  | bar => cases h
  | _ =>
    rw [Within.opens] at h
    split at h <;> cases h
    rfl

theorem aligned_of_opensLine {w : Within} {line : Line} (h : w.opensLine line = some τ) :
    τ.Aligned false := by
  obtain ⟨⟨lead, _⟩, _, hopens⟩ := Option.bind_eq_some_iff.mp h
  exact aligned_of_opens hopens

theorem aligned_of_width? {w : Within} {line : Line}
    (h : line.width?.map (table w) = some τ) : τ.Aligned false := by
  obtain ⟨k, _, rfl⟩ := Option.map_eq_some_iff.mp h
  rfl

/-- Outside docstrings, a line without the mark of one opens none. -/
theorem Aligned.next_of_not_hasMark (hσ : σ.Aligned false) (hmark : hasMark t = false)
    (hfence : isFence t = false) (h : σ.next (some t) = some τ) : τ.Aligned false := by
  cases σ with
  | between w =>
    rw [next] at h
    split at h
    · cases h
      rfl
    · exact aligned_of_opensLine h
  | tagged w =>
    rw [next] at h
    split at h
    · cases h
      rfl
    · obtain ⟨⟨lead, _⟩, _, hlead⟩ := Option.bind_eq_some_iff.mp h
      dsimp only at hlead
      split at hlead
      · exact aligned_of_opens hlead
      · cases hlead
  | header w =>
    rw [next] at h
    split at h
    · cases h
      rfl
    · split at h
      · exact aligned_of_width? h
      · exact aligned_of_opensLine h
  | step w =>
    rw [next] at h
    split at h
    · cases h
      exact hσ
    · have hopening := Line.opening?_of_not_hasMark hmark hfence
      rw [hopening, Option.map_none, Option.none_or, Option.or_eq_some_iff] at h
      rcases h with h | ⟨_, h⟩
      · exact aligned_of_width? h
      · exact aligned_of_opensLine h
  | docstring w o body => cases hσ.1
  | table w width =>
    rw [next] at h
    split at h
    · cases h
      rfl
    · split at h
      · cases h
        rfl
      · exact aligned_of_opensLine h

/-- Scan and reader go in and out of docstrings together, provided that no line but the mark leads
    the scan out. -/
theorem Aligned.next {inside : Bool} (hσ : σ.Aligned inside)
    (hclosing : inside = true → hasMark t = true → t.trim = docstringMark)
    (hfence : inside = false → hasMark t = false → isFence t = false)
    (h : σ.next (some t) = some τ) : τ.Aligned (inside != hasMark t) := by
  cases inside with
  | false =>
    cases hmark : hasMark t with
    | false => exact hσ.next_of_not_hasMark hmark (hfence rfl hmark) h
    | true =>
      obtain ⟨w, o, rfl, _, hquotes, rfl⟩ := next_of_hasMark hσ.isOutside hmark h
      exact ⟨rfl, hquotes, hσ.2⟩
  | true =>
    cases σ with
    | docstring w o body =>
      obtain ⟨_, hquotes, hsteps⟩ := hσ
      rw [Stage.next, hquotes] at h
      split at h
      · rename_i htrim
        have hmark : hasMark t = true := hasMark_of_trim htrim
        cases h
        rw [hmark]
        rfl
      · rename_i htrim
        have hmark : hasMark t = false := Bool.eq_false_iff.mpr fun hmark =>
          htrim (hclosing rfl hmark)
        cases h
        rw [hmark]
        exact ⟨rfl, hquotes, hsteps⟩
    | step w => cases hσ.1
    | _ => cases hσ

end Stage

/-- A text can be read if its lines lead to a stage in which a document may end. -/
theorem exists_parse_iff (text : Text) : (∃ doc, parse text = .ok doc) ↔
    ∃ σ, Stage.run (Line.all text) (.between .top) = some σ ∧ σ.isFinal = true := by
  rw [← Stage.isSome_walk_iff (n := 1), walk_eq_parse]
  cases parse text <;> simp [Except.toOption]

/-- A text that can be read holds nothing but lines that can be read. -/
theorem all_of_parse {text : Text} {doc : Document} (h : parse text = .ok doc) :
    none ∉ Line.all text ∧ Line.all text = text.lines.map Line.ofRaw := by
  obtain ⟨σ, hrun, _⟩ := (exists_parse_iff text).mp ⟨doc, h⟩
  have hreadable := Stage.none_not_mem_of_run hrun
  exact ⟨hreadable, Line.all_eq_map_lines hreadable⟩

end ScenarioLint.Gherkin
