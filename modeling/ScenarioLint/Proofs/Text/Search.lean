import ScenarioLint.Text

/-!
What starts a text, and the first place of a mark in it.
-/

namespace ScenarioLint.Text

theorem after?_eq_some_iff {lead t rest : Text} : after? lead t = some rest ↔ t = lead ++ rest := by
  induction lead generalizing t with
  | nil => simp [after?]
  | cons a lead ih =>
    cases t with
    | nil => simp [after?]
    | cons c t =>
      rw [after?]
      by_cases hac : a = c
      · simp [hac, ih]
      · simp [hac, Ne.symm hac]

private theorem splitOnce_go_eq_append {mark passed t before tail : Text}
    (h : splitOnce.go mark passed t = some (before, tail)) :
    ∃ seen, before = passed.reverse ++ seen ∧ t = seen ++ mark ++ tail := by
  induction t generalizing passed with
  | nil => cases h
  | cons c rest ih =>
    rw [splitOnce.go] at h
    cases hafter : after? mark (c :: rest) with
    | some found =>
      rw [hafter] at h
      cases h
      exact ⟨[], by simp, by rw [after?_eq_some_iff.mp hafter, List.nil_append]⟩
    | none =>
      rw [hafter] at h
      obtain ⟨seen, hbefore, hrest⟩ := ih h
      exact ⟨c :: seen, by simp [hbefore], by simp [hrest]⟩

theorem splitOnce_eq_append {mark t before tail : Text} (h : splitOnce mark t = some (before, tail)) :
    t = before ++ mark ++ tail := by
  obtain ⟨seen, hbefore, ht⟩ := splitOnce_go_eq_append h
  rw [ht, hbefore, List.reverse_nil, List.nil_append]

private theorem splitOnce_go_append_cons {c : Char} {before : Text} (hc : c ∉ before)
    (mark tail passed : Text) :
    splitOnce.go (c :: mark) passed (before ++ (c :: mark ++ tail)) =
      some (passed.reverse ++ before, tail) := by
  induction before generalizing passed with
  | nil =>
    have hfound : after? (c :: mark) (c :: mark ++ tail) = some tail := after?_eq_some_iff.mpr rfl
    rw [List.nil_append, List.cons_append, splitOnce.go, ← List.cons_append, hfound, List.append_nil]
  | cons first before ih =>
    rw [List.mem_cons, not_or] at hc
    rw [List.cons_append, splitOnce.go, after?, if_neg hc.1, ih hc.2]
    simp

/-- A mark behind text without the character that the mark starts with is the first one. -/
theorem splitOnce_append_cons {c : Char} {before : Text} (hc : c ∉ before) (mark tail : Text) :
    splitOnce (c :: mark) (before ++ c :: mark ++ tail) = some (before, tail) := by
  rw [List.append_assoc]
  exact splitOnce_go_append_cons hc mark tail []

end ScenarioLint.Text
