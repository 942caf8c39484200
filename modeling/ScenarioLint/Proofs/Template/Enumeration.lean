import ScenarioLint.Proofs.Template.Cleaning

/-!
What cleaning up removes from the front of a line.

The visible characters of a line in front of its commentary stay, quotes and a misspelled first word
apart, just if the line starts with no number that has a mark behind it.  An enumeration has white
space behind the mark, but a mark without it is enough for the number to be dropped.
-/

namespace ScenarioLint.Template

open Text (visible)

/-- A number, a mark and white space start the text. -/
def StartsEnumeration (t : Text) : Prop :=
  ∃ digits mark c rest, t = digits ++ mark :: c :: rest ∧ digits ≠ [] ∧
    (∀ d ∈ digits, isDigit d = true) ∧ mark ∈ enumerationMarks ∧ isSpace c = true

/-- The second text is the first one with straight quotes, and perhaps with a first word that is
    corrected. -/
def Respells (t u : Text) : Prop :=
  u = t.map straighten ∨
    ∃ rest, t.map straighten = "GIven".toList ++ rest ∧ u = "Given".toList ++ rest

/-- Cleaning up removes nothing but white space in front of the commentary. -/
def KeepsFront (raw : Text) : Prop :=
  ∃ front, IsBeforeCommentary raw.trim front ∧ Respells (visible front) (visible (normalizeLine raw))

section Respells

variable {t u : Text}

theorem Respells.length_eq (h : Respells t u) : u.length = t.length := by
  have hlength : (t.map straighten).length = t.length := List.length_map _
  rw [← hlength]
  obtain heq | ⟨rest, ht, heq⟩ := h
  · rw [heq]
  · have hword : "Given".toList.length = "GIven".toList.length := by decide
    rw [ht, heq, List.length_append, List.length_append, hword]

theorem Respells.head? {c : Char} (h : Respells (c :: t) u) (hc : c ≠ 'G') :
    u.head? = some (straighten c) := by
  obtain heq | ⟨rest, ht, _⟩ := h
  · rw [heq]
    rfl
  · have hG : straighten c = 'G' := (List.cons.inj ht).1
    exact absurd (eq_of_straighten_eq (by decide) hG) hc

/-- Correcting a first word changes one visible character at most. -/
theorem respells_visible_fixGiven (t : Text) :
    Respells (visible t) (visible (fixGiven (t.map straighten))) := by
  obtain ⟨heq, _⟩ | ⟨rest, ht, heq⟩ := fixGiven_eq_or (t.map straighten)
  · left
    rw [heq, visible_map_straighten]
  · right
    have hmisspelled : visible "GIven".toList = "GIven".toList := by decide
    have hcorrected : visible "Given".toList = "Given".toList := by decide
    refine ⟨visible rest, ?_, ?_⟩
    · rw [← visible_map_straighten, ht, Text.visible_append, hmisspelled]
    · rw [heq, Text.visible_append, hcorrected]

/-- What is left of a line shows what stood in front of its commentary, and behind its enumeration. -/
theorem respells_visible_normalizeLine (raw : Text) :
    Respells (visible (beforeCommentary (dropEnumeration raw.trim)))
      (visible (normalizeLine raw)) := by
  rw [normalizeLine, Text.visible_join_words, ← Text.visible_trim (beforeCommentary _)]
  exact respells_visible_fixGiven _

end Respells

theorem keepsFront_of_not_startsNumbered {raw : Text} (h : ¬ StartsNumbered raw.trim) :
    KeepsFront raw := by
  refine ⟨_, isBeforeCommentary_iff.mpr rfl, ?_⟩
  have hrespells := respells_visible_normalizeLine raw
  rwa [dropEnumeration_of_not_startsNumbered h] at hrespells

/-- White space in front of a text makes no difference to what it shows in front of its commentary,
    unless it belongs to the commentary. -/
private theorem visible_beforeCommentary_trimStart (t : Text) :
    visible (beforeCommentary (Text.trimStart t)) = visible (beforeCommentary t) ∨
      (Text.trimStart t).head? = some '-' := by
  induction t with
  | nil => exact .inl rfl
  | cons c t ih =>
    by_cases hc : isSpace c = true
    · have htrim : Text.trimStart (c :: t) = Text.trimStart t := List.dropWhile_cons_of_pos hc
      rw [htrim, beforeCommentary_cons]
      split
      · next hstarts =>
        obtain ⟨_, d, rest, heq, _, _⟩ := startsCommentary_iff.mp hstarts
        obtain ⟨_, rfl⟩ := List.cons.inj heq
        exact .inr rfl
      · have hvisible : visible (c :: beforeCommentary t) = visible (beforeCommentary t) :=
          List.filter_cons_of_neg (by simp [hc])
        rw [hvisible]
        exact ih
    · have htrim : Text.trimStart (c :: t) = c :: t := List.dropWhile_cons_of_neg hc
      rw [htrim]
      exact .inl rfl

theorem not_keepsFront_of_startsNumbered {raw : Text} (h : StartsNumbered raw.trim) :
    ¬ KeepsFront raw := by
  obtain ⟨digits, mark, rest, hraw, hne, hdigits, hmark⟩ := h
  rintro ⟨front, hfront, hkept⟩
  have hnumber := visible_of_numbered hdigits hmark
  have hline : raw.trim = (digits ++ [mark]) ++ rest := by simp [hraw]
  rw [← isBeforeCommentary_iff.mp hfront, hline, beforeCommentary_append_of_visible hnumber,
    Text.visible_append, Text.visible_eq_self hnumber] at hkept
  have hreal := respells_visible_normalizeLine raw
  rw [hraw, dropEnumeration_append hne hdigits hmark] at hreal
  obtain hsame | hdash := visible_beforeCommentary_trimStart rest
  · -- the number and its mark are missing
    rw [hsame] at hreal
    have hlength := hkept.length_eq.symm.trans hreal.length_eq
    simp only [List.length_append, List.length_singleton] at hlength
    omega
  · -- what is left starts with the dash of the commentary, and not with a digit
    obtain ⟨more, hmore⟩ := List.head?_eq_some_iff.mp hdash
    obtain ⟨d, digits, rfl⟩ := List.exists_cons_of_ne_nil hne
    have hd : isDigit d = true := hdigits d List.mem_cons_self
    have hG : d ≠ 'G' := by
      rintro rfl
      exact absurd hd (by decide)
    have hbefore : visible (beforeCommentary ('-' :: more)) = '-' :: visible (beforeCommentary more) := by
      rw [beforeCommentary_cons, startsCommentary_of_visible (by decide)]
      rfl
    rw [hmore, hbefore] at hreal
    have hhead := (hkept.head? hG).symm.trans (hreal.head? (by decide))
    have hsame : straighten d = '-' := Option.some.inj hhead
    obtain rfl := eq_of_straighten_eq (by decide) hsame
    exact absurd hd (by decide)

/-- A line keeps its front just if it starts with no number that has a mark behind it. -/
theorem keepsFront_iff (raw : Text) : KeepsFront raw ↔ ¬ StartsNumbered raw.trim :=
  ⟨fun hkeeps hnumbered => not_keepsFront_of_startsNumbered hnumbered hkeeps,
    keepsFront_of_not_startsNumbered⟩

/-- A decimal number is no enumeration, and its whole part is dropped all the same. -/
theorem not_keepsFront_decimal :
    ¬ StartsEnumeration (Text.trim "3.5 seconds".toList) ∧
      normalizeLine "3.5 seconds".toList = "5 seconds".toList ∧
      ¬ KeepsFront "3.5 seconds".toList := by
  refine ⟨?_, by decide, ?_⟩
  · rintro ⟨digits, mark, c, rest, hline, hne, hdigits, _, hc⟩
    have htrim : Text.trim "3.5 seconds".toList = '3' :: '.' :: '5' :: " seconds".toList := by
      decide
    rw [htrim] at hline
    match digits, hne with
    | [d], _ =>
      simp only [List.cons_append, List.nil_append, List.cons.injEq] at hline
      obtain ⟨_, _, rfl, _⟩ := hline
      exact absurd hc (by decide)
    | d :: e :: digits, _ =>
      simp only [List.cons_append, List.cons.injEq] at hline
      obtain ⟨_, rfl, _⟩ := hline
      exact absurd (hdigits '.' (by simp)) (by decide)
  · exact not_keepsFront_of_startsNumbered
      ⟨['3'], '.', "5 seconds".toList, by decide, List.cons_ne_nil _ _, by decide, by decide⟩

end ScenarioLint.Template
