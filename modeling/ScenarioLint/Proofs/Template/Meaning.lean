import Mathlib.Data.List.Forall2
import ScenarioLint.Template.Pattern

/-!
What a cleaned-up template says about the lines that fit it, without any pattern.
-/

namespace ScenarioLint

/-- The texts that take the place of a placeholder: those that its fragment describes alone. -/
def Placeholder.Fills (p : Placeholder) (t : Text) : Prop :=
  ∃ r, Regex.read? ('^' :: (p.fragment ++ ['$'])) = some r ∧ r.Describes t

namespace Template

/-- The second text is the first one with other white space wherever it has white space. -/
inductive Relaxes : Text → Text → Prop where
  | nil : Relaxes [] []
  | visible {c : Char} {t u : Text} (hc : isSpace c = false) (h : Relaxes t u) :
    Relaxes (c :: t) (c :: u)
  | gap {ws vs t u : Text} (hws : ws ≠ [] ∧ ws.isBlank = true) (hvs : vs ≠ [] ∧ vs.isBlank = true)
    (ht : ∀ c ∈ t.head?, isSpace c = false) (h : Relaxes t u) : Relaxes (ws ++ t) (vs ++ u)

/-- What a line may have in place of a segment. -/
def Segment.Matches : Segment → Text → Prop
  | literal t, u => Relaxes t u
  | placeholder p, u => p.Fills u

/-- A text consists of one text for each segment of a template without its keyword. -/
def Matches (body t : Text) : Prop :=
  ∃ ts, t = ts.flatten ∧ List.Forall₂ Segment.Matches (Segment.ofTemplate body) ts

/-- A text is a keyword up to the case of its letters. -/
def Spells (keyword : Keyword) (t : Text) : Prop :=
  t.map foldCase = keyword.word.map foldCase

instance (keyword : Keyword) (t : Text) : Decidable (Spells keyword t) :=
  inferInstanceAs (Decidable (_ = _))

/-- A text has the lead of a template and what stands for its body: its own keyword directly in
    front of the rest, or else a keyword of its rulebook with white space behind it. -/
def Fits (rulebook : Rulebook) (template t : Text) : Prop :=
  match Keyword.detect template with
  | some (keyword, rest) => ∃ word body, t = word ++ body ∧ Spells keyword word ∧ Matches rest body
  | none => ∃ word gap body, t = word ++ (gap ++ body) ∧
      (∃ keyword ∈ rulebook.keywords, Spells keyword word) ∧
        (gap ≠ [] ∧ gap.isBlank = true) ∧ Matches template body

section Relaxes

variable {c : Char} {t u : Text}

theorem relaxes_nil_iff : Relaxes [] u ↔ u = [] := by
  constructor
  · generalize hs : ([] : Text) = s
    rintro (_ | ⟨_, _⟩ | ⟨⟨hws, _⟩, _, _, _⟩)
    · rfl
    · cases hs
    · exact absurd (List.append_eq_nil_iff.mp hs.symm).1 hws
  · rintro rfl
    exact .nil

theorem relaxes_cons_iff_of_visible (hc : isSpace c = false) :
    Relaxes (c :: t) u ↔ ∃ v, u = c :: v ∧ Relaxes t v := by
  constructor
  · generalize hs : c :: t = s
    rintro (_ | ⟨_, h⟩ | ⟨⟨hne, hblank⟩, _, _, _⟩)
    · cases hs
    · cases hs
      exact ⟨_, rfl, h⟩
    · next ws _ _ _ =>
      obtain ⟨d, ws, rfl⟩ := List.exists_cons_of_ne_nil hne
      cases hs
      have hspace := (List.all_eq_true.mp hblank) c List.mem_cons_self
      rw [hc] at hspace
      cases hspace
  · rintro ⟨v, rfl, h⟩
    exact .visible hc h

theorem relaxes_cons_iff_of_space (hc : isSpace c = true)
    (ht : ∀ d ∈ t.head?, isSpace d = false) :
    Relaxes (c :: t) u ↔ ∃ vs v, u = vs ++ v ∧ (vs ≠ [] ∧ vs.isBlank = true) ∧ Relaxes t v := by
  constructor
  · generalize hs : c :: t = s
    rintro (_ | ⟨hd, _⟩ | ⟨⟨hne, hblank⟩, hvs, _, h⟩)
    · cases hs
    · cases hs
      rw [hc] at hd
      cases hd
    · next ws vs t' v _ =>
      obtain ⟨d, ws, rfl⟩ := List.exists_cons_of_ne_nil hne
      obtain ⟨rfl, hrest⟩ := List.cons.inj hs
      -- a second character of white space would be the head of the text behind the first
      obtain rfl : ws = [] := by
        cases ws with
        | nil => rfl
        | cons e ws =>
          have hspace := (List.all_eq_true.mp hblank) e (by simp)
          rw [ht e (by simp [hrest])] at hspace
          cases hspace
      obtain rfl : t = t' := hrest
      exact ⟨vs, v, rfl, hvs, h⟩
  · rintro ⟨vs, v, rfl, hvs, h⟩
    have hws : [c] ≠ [] ∧ Text.isBlank [c] = true := ⟨List.cons_ne_nil _ _, by simp [Text.isBlank, hc]⟩
    exact .gap hws hvs ht h

end Relaxes

end Template

end ScenarioLint
