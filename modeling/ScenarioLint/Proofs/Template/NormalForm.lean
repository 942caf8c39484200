import ScenarioLint.Proofs.Template.Enumeration
import ScenarioLint.Proofs.Template.Spacing

/-!
The normal form that cleaning up gives to a line.

Every pass but the first one finds nothing to do in a line of this form, and no pass undoes what
another one did.  The first pass may go on: what stood behind an enumeration can look like one.
-/

namespace ScenarioLint.Template

/-- A text as cleaning up leaves it. -/
structure IsNormal (t : Text) : Prop where
  trimmed : t.trim = t
  spaces : ∀ c ∈ t, isSpace c = true → c = ' '
  single : t.IsSingleSpaced
  straight : ∀ c ∈ t, c ∉ curlyQuotes
  uncommented : ¬ " - ".toList <:+: t
  spelled : ¬ StartsMisspelled t

section Respelled

/-- What is left of a line before its words are put together again. -/
def respelled (raw : Text) : Text :=
  fixGiven ((beforeCommentary (dropEnumeration raw.trim)).trim.map straighten)

theorem normalizeLine_eq_join (raw : Text) :
    normalizeLine raw = Text.join [' '] (respelled raw).words :=
  rfl

theorem trim_map_straighten {t : Text} (ht : t.trim = t) :
    Text.trim (t.map straighten) = t.map straighten := by
  obtain ⟨hhead, hlast⟩ := Text.ends_of_trim ht
  apply Text.trim_of_ends
  · intro c hc
    rw [List.head?_map, Option.map_eq_some_iff] at hc
    obtain ⟨d, hd, rfl⟩ := hc
    rw [isSpace_straighten, hhead d hd]
  · intro c hc
    rw [List.getLast?_map, Option.map_eq_some_iff] at hc
    obtain ⟨d, hd, rfl⟩ := hc
    rw [isSpace_straighten, hlast d hd]

theorem trim_fixGiven {t : Text} (ht : t.trim = t) : (fixGiven t).trim = fixGiven t := by
  obtain ⟨heq, _⟩ | ⟨rest, rfl, heq⟩ := fixGiven_eq_or t
  · rwa [heq]
  · obtain ⟨_, hlast⟩ := Text.ends_of_trim ht
    rw [heq]
    apply Text.trim_of_ends
    · intro c hc
      obtain rfl : 'G' = c := Option.some.inj hc
      decide
    · intro c hc
      apply hlast c
      rw [List.getLast?_append] at hc ⊢
      exact hc

theorem trim_respelled (raw : Text) : (respelled raw).trim = respelled raw :=
  trim_fixGiven (trim_map_straighten (Text.trim_trim _))

theorem not_hasCommentary_respelled (raw : Text) : ¬ HasCommentary (respelled raw) := by
  intro h
  have hbefore := h.of_fixGiven.of_map_straighten.of_isInfix (Text.trim_isInfix _)
  exact not_hasCommentary_beforeCommentary _ hbefore

theorem not_mem_curlyQuotes_of_mem_respelled {raw : Text} {c : Char} (hc : c ∈ respelled raw) :
    c ∉ curlyQuotes := by
  have hstraight : ∀ d ∈ (beforeCommentary (dropEnumeration raw.trim)).trim.map straighten,
      d ∉ curlyQuotes := by
    intro d hd
    obtain ⟨e, _, rfl⟩ := List.mem_map.mp hd
    exact straighten_not_mem e
  rw [respelled] at hc
  obtain ⟨heq, _⟩ | ⟨rest, hline, heq⟩ :=
    fixGiven_eq_or ((beforeCommentary (dropEnumeration raw.trim)).trim.map straighten)
  · rw [heq] at hc
    exact hstraight c hc
  · rw [heq, List.mem_append] at hc
    obtain hword | hrest := hc
    · have hall : ∀ d ∈ "Given".toList, d ∉ curlyQuotes := by decide
      exact hall c hword
    · exact hstraight c (hline ▸ List.mem_append_right _ hrest)

end Respelled

section Normal

theorem isEvenlySpaced_normalizeLine (raw : Text) : (normalizeLine raw).IsEvenlySpaced :=
  Text.isEvenlySpaced_join fun _ hword => Text.visible_of_mem_words hword

theorem mem_respelled_of_mem_normalizeLine {raw : Text} {c : Char} (hc : c ∈ normalizeLine raw)
    (hvisible : isSpace c = false) : c ∈ respelled raw := by
  have hmem : c ∈ Text.visible (normalizeLine raw) := List.mem_filter.mpr ⟨hc, by simp [hvisible]⟩
  rw [normalizeLine_eq_join, Text.visible_join_words] at hmem
  exact (List.mem_filter.mp hmem).1

theorem isNormal_normalizeLine (raw : Text) : IsNormal (normalizeLine raw) := by
  have hspaced := isEvenlySpaced_normalizeLine raw
  have hrelaxes : Relaxes (normalizeLine raw) (respelled raw) :=
    relaxes_join_words (trim_respelled raw)
  refine ⟨Text.trim_join fun _ hword => Text.visible_of_mem_words hword, hspaced.spaces,
    hspaced.single, fun c hc => ?_, fun hdash => ?_, fun hmisspelled => ?_⟩
  · by_cases hspace : isSpace c = true
    · rw [hspaced.spaces c hc hspace]
      decide
    · exact not_mem_curlyQuotes_of_mem_respelled
        (mem_respelled_of_mem_normalizeLine hc (Bool.not_eq_true _ ▸ hspace))
  · have hcommentary : HasCommentary (normalizeLine raw) := ⟨' ', ' ', rfl, rfl, hdash⟩
    exact not_hasCommentary_respelled raw (hrelaxes.hasCommentary hcommentary)
  · exact not_startsMisspelled_fixGiven _ (hrelaxes.startsMisspelled hmisspelled)

variable {t : Text}

theorem IsNormal.not_hasCommentary (h : IsNormal t) : ¬ HasCommentary t := by
  rintro ⟨c, d, hc, hd, hdash⟩
  obtain rfl := h.spaces c (hdash.subset (by simp)) hc
  obtain rfl := h.spaces d (hdash.subset (by simp)) hd
  exact h.uncommented hdash

theorem IsNormal.map_straighten (h : IsNormal t) : t.map straighten = t := by
  conv_rhs => rw [← List.map_id t]
  exact List.map_congr_left fun c hc => straighten_of_not_mem (h.straight c hc)

/-- The passes find nothing to do in a normal line that starts with no number. -/
theorem IsNormal.respelled_eq (h : IsNormal t) (hnumber : ¬ StartsNumbered t) :
    respelled t = t := by
  rw [respelled, h.trimmed, dropEnumeration_of_not_startsNumbered hnumber,
    beforeCommentary_of_not_hasCommentary h.not_hasCommentary, h.trimmed, h.map_straighten,
    fixGiven_of_not_startsMisspelled h.spelled]

theorem IsNormal.join_words (h : IsNormal t) : Text.join [' '] t.words = t :=
  (relaxes_join_words h.trimmed).eq
    (Text.isEvenlySpaced_join fun _ hword => Text.visible_of_mem_words hword) ⟨h.single, h.spaces⟩

/-- A number with a mark behind it is dropped whatever stands behind it. -/
theorem normalizeLine_ne_of_startsNumbered (htrim : t.trim = t) (h : StartsNumbered t) :
    normalizeLine t ≠ t := by
  obtain ⟨digits, mark, rest, rfl, hne, hdigits, hmark⟩ := h
  intro hsame
  have hlength := (respells_visible_normalizeLine (digits ++ mark :: rest)).length_eq
  rw [hsame, htrim, dropEnumeration_append hne hdigits hmark] at hlength
  have hprefix := (beforeCommentary_isPrefix (Text.trimStart rest)).filter fun c => !isSpace c
  have hle := hprefix.length_le
  have hsplit : Text.visible (digits ++ mark :: rest) = (digits ++ [mark]) ++ Text.visible rest := by
    rw [← Text.visible_eq_self (visible_of_numbered hdigits hmark), ← Text.visible_append]
    simp
  rw [hsplit] at hlength
  rw [← Text.visible, ← Text.visible, Text.visible_trimStart, ← hlength] at hle
  simp only [List.length_append, List.length_singleton] at hle
  omega

/-- The lines that cleaning up leaves alone. -/
theorem normalizeLine_eq_self_iff : normalizeLine t = t ↔ IsNormal t ∧ ¬ StartsNumbered t := by
  constructor
  · intro h
    have hnormal : IsNormal t := h ▸ isNormal_normalizeLine t
    exact ⟨hnormal, fun hnumber => normalizeLine_ne_of_startsNumbered hnormal.trimmed hnumber h⟩
  · rintro ⟨hnormal, hnumber⟩
    rw [normalizeLine_eq_join, hnormal.respelled_eq hnumber, hnormal.join_words]

/-- A cleaned-up line is normal, and cleaning it up once more changes it just if a number with a
    mark behind it starts it. -/
theorem normalForm_normalizeLine (raw : Text) : IsNormal (normalizeLine raw) ∧
    (normalizeLine (normalizeLine raw) = normalizeLine raw ↔
      ¬ StartsNumbered (normalizeLine raw)) := by
  have hnormal := isNormal_normalizeLine raw
  exact ⟨hnormal, normalizeLine_eq_self_iff.trans (and_iff_right hnormal)⟩

end Normal

end ScenarioLint.Template
