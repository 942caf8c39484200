import Mathlib.Data.List.Chain
import ScenarioLint.Proofs.Text.Decision
import ScenarioLint.Proofs.Text.Words
import ScenarioLint.Template.Line

/-!
The white space of a cleaned-up line.
-/

namespace ScenarioLint

namespace Text

/-- No white space stands directly behind white space. -/
def IsSingleSpaced (t : Text) : Prop :=
  t.IsChain fun a b => isSpace a = true → isSpace b = false

theorem IsSingleSpaced.of_isInfix {t u : Text} (h : u.IsSingleSpaced) (htu : t <:+: u) :
    t.IsSingleSpaced :=
  List.IsChain.infix h htu

theorem isSingleSpaced_of_visible {t : Text} (h : ∀ c ∈ t, isSpace c = false) :
    t.IsSingleSpaced := by
  induction t with
  | nil => exact .nil
  | cons c t ih =>
    refine List.isChain_cons.mpr ⟨fun d hd _ => ?_, ih fun d hd => h d (List.mem_cons_of_mem _ hd)⟩
    exact h d (List.mem_cons_of_mem _ (List.mem_of_mem_head? hd))

/-- Visible words with single spaces between them. -/
theorem isSingleSpaced_join {ts : List Text} (h : ∀ t ∈ ts, t ≠ [] ∧ ∀ c ∈ t, isSpace c = false) :
    (join [' '] ts).IsSingleSpaced := by
  induction ts with
  | nil => exact .nil
  | cons t ts ih =>
    obtain ⟨⟨hne, hvisible⟩, htail⟩ := List.forall_mem_cons.mp h
    have hword := isSingleSpaced_of_visible hvisible
    cases ts with
    | nil =>
      rw [join_singleton]
      exact hword
    | cons next ts =>
      have hhead : ∀ c ∈ (join [' '] (next :: ts)).head?, isSpace c = false := by
        intro c hc
        exact isSpace_of_mem_head?_join htail hc
      have hgap : IsSingleSpaced (' ' :: join [' '] (next :: ts)) :=
        List.isChain_cons.mpr ⟨fun c hc _ => hhead c hc, ih htail⟩
      rw [join_cons_cons, List.singleton_append]
      refine List.IsChain.append hword hgap fun a ha b _ hspace => ?_
      rw [hvisible a (List.mem_of_mem_getLast? ha)] at hspace
      cases hspace

end Text

namespace Template

/-- Cleaning up leaves single spaces only. -/
theorem isSingleSpaced_normalizeLine (raw : Text) : (normalizeLine raw).IsSingleSpaced :=
  Text.isSingleSpaced_join fun _ hword => Text.visible_of_mem_words hword

end Template

end ScenarioLint
