import ScenarioLint.Regex.Search

/-!
The search for a match decides whether an expression describes a text.
-/

namespace ScenarioLint.Regex

/-- The part of a text between two places. -/
def slice (t : Text) (i j : Nat) : Text :=
  (t.drop i).take (j - i)

section Slice

variable {t : Text} {i j k : Nat}

theorem slice_zero (t : Text) (j : Nat) : slice t 0 j = t.take j :=
  rfl

theorem slice_succ_succ (x : Char) (t : Text) (i j : Nat) :
    slice (x :: t) (i + 1) (j + 1) = slice t i j := by
  rw [slice, List.drop_succ_cons, Nat.add_sub_add_right, slice]

theorem length_slice (hij : i ≤ j) (hj : j ≤ t.length) : (slice t i j).length = j - i := by
  rw [slice, List.length_take, List.length_drop]
  omega

theorem slice_eq_nil_iff (hij : i ≤ j) (hj : j ≤ t.length) : slice t i j = [] ↔ i = j := by
  rw [← List.length_eq_zero_iff, length_slice hij hj]
  omega

theorem slice_self_succ (hj : j < t.length) : slice t j (j + 1) = [t[j]] := by
  rw [slice, Nat.add_sub_cancel_left, List.drop_eq_getElem_cons hj]
  rfl

theorem slice_append_slice (hij : i ≤ j) (hjk : j ≤ k) : slice t i j ++ slice t j k = slice t i k := by
  have hdrop : t.drop j = (t.drop i).drop (j - i) := by
    rw [List.drop_drop, Nat.add_sub_cancel' hij]
  have hlength : k - i = (j - i) + (k - j) := by omega
  rw [slice, slice, slice, hdrop, hlength, List.take_add]

/-- Two texts that make up a slice meet at one of its places. -/
theorem exists_of_slice_eq_append {u v : Text} (hik : i ≤ k) (hk : k ≤ t.length)
    (h : slice t i k = u ++ v) : ∃ j, i ≤ j ∧ j ≤ k ∧ slice t i j = u ∧ slice t j k = v := by
  have hlength := congrArg List.length h
  rw [length_slice hik hk, List.length_append] at hlength
  have hij : i ≤ i + u.length := Nat.le_add_right _ _
  have hjk : i + u.length ≤ k := by omega
  have happend := slice_append_slice (t := t) hij hjk
  rw [h] at happend
  have hsame : (slice t i (i + u.length)).length = u.length := by
    rw [length_slice hij (by omega)]
    omega
  obtain ⟨hu, hv⟩ := List.append_inj happend hsame
  exact ⟨i + u.length, hij, hjk, hu, hv⟩

end Slice

section Spread

theorem length_spread (c : CharClass) (carry : Bool) (t : Text) (marks : List Bool) :
    (spread c carry t marks).length = if t.length < marks.length then t.length + 1 else marks.length := by
  induction t generalizing carry marks with
  | nil => cases marks <;> simp [spread]
  | cons x t ih =>
    cases marks with
    | nil => rfl
    | cons mark marks =>
      rw [spread, List.length_cons, ih]
      simp only [List.length_cons]
      split <;> split <;> omega

/-- A place is reached by a repetition from the carried mark or from a marked place, if all
    characters in between belong to the class. -/
theorem spread_getElem?_iff (c : CharClass) {carry : Bool} {t : Text} {marks : List Bool}
    (hmarks : marks.length = t.length + 1) {j : Nat} (hj : j ≤ t.length) :
    (spread c carry t marks)[j]? = some true ↔
      (carry = true ∧ ∀ x ∈ t.take j, c.has x = true) ∨
        ∃ i ≤ j, marks[i]? = some true ∧ ∀ x ∈ slice t i j, c.has x = true := by
  induction t generalizing carry marks j with
  | nil =>
    obtain ⟨mark, rfl⟩ := List.length_eq_one_iff.mp hmarks
    obtain rfl := Nat.le_zero.mp hj
    cases mark <;> cases carry <;> simp [spread, slice]
  | cons x t ih =>
    cases marks with
    | nil => cases hmarks
    | cons mark marks =>
      have hmarks : marks.length = t.length + 1 := Nat.succ.inj hmarks
      cases j with
      | zero => cases mark <;> cases carry <;> simp [spread, slice]
      | succ j =>
        rw [spread, List.getElem?_cons_succ, ih hmarks (Nat.le_of_succ_le_succ hj), List.take_succ_cons,
          List.forall_mem_cons, Bool.and_eq_true, Bool.or_eq_true]
        constructor
        · rintro (⟨⟨hmark | hcarry, hx⟩, hrest⟩ | ⟨i, hi, hmark, hrest⟩)
          · refine .inr ⟨0, Nat.zero_le _, ?_, ?_⟩
            · rw [List.getElem?_cons_zero, hmark]
            · rw [slice_zero, List.take_succ_cons, List.forall_mem_cons]
              exact ⟨hx, hrest⟩
          · exact .inl ⟨hcarry, hx, hrest⟩
          · refine .inr ⟨i + 1, Nat.succ_le_succ hi, hmark, ?_⟩
            rwa [slice_succ_succ]
        · rintro (⟨hcarry, hx, hrest⟩ | ⟨i, hi, hmark, hall⟩)
          · exact .inl ⟨⟨.inr hcarry, hx⟩, hrest⟩
          · cases i with
            | zero =>
              rw [slice_zero, List.take_succ_cons, List.forall_mem_cons] at hall
              exact .inl ⟨⟨.inl (Option.some.inj hmark), hall.1⟩, hall.2⟩
            | succ i =>
              rw [slice_succ_succ] at hall
              exact .inr ⟨i, Nat.le_of_succ_le_succ hi, hmark, hall⟩

end Spread

section Ends

variable {t : Text} {marks : List Bool}

theorem length_ends (r : Regex) (hmarks : marks.length = t.length + 1) :
    (r.ends t marks).length = t.length + 1 := by
  induction r generalizing marks with
  | empty => exact hmarks
  | one c => simp [ends, hmarks]
  | many c =>
    rw [ends, length_spread, hmarks, if_pos (Nat.lt_succ_self _)]
  | seq first second ihFirst ihSecond =>
    rw [ends]
    split
    · exact ihSecond (ihFirst hmarks)
    · exact ihFirst hmarks
  | alt left right ihLeft ihRight =>
    rw [ends, List.length_zipWith, ihLeft hmarks, ihRight hmarks, Nat.min_self]

/-- A single character leads from one place to the next. -/
theorem ends_one_getElem?_iff (c : CharClass) (marks : List Bool) {j : Nat} (hj : j ≤ t.length) :
    ((one c).ends t marks)[j]? = some true ↔
      ∃ i ≤ j, marks[i]? = some true ∧ (one c).Describes (slice t i j) := by
  rw [ends]
  cases j with
  | zero =>
    rw [List.getElem?_cons_zero]
    constructor
    · intro hfalse
      cases hfalse
    · rintro ⟨i, hi, _, x, hx, _⟩
      obtain rfl := Nat.le_zero.mp hi
      cases hx
  | succ j =>
    have hlt : j < t.length := hj
    rw [List.getElem?_cons_succ, List.getElem?_zipWith_eq_some]
    constructor
    · rintro ⟨mark, x, hmark, hx, hboth⟩
      obtain ⟨rfl, hhas⟩ := Bool.and_eq_true_iff.mp hboth
      refine ⟨j, Nat.le_succ j, hmark, x, ?_, hhas⟩
      rw [slice_self_succ hlt, Option.some.inj ((List.getElem?_eq_getElem hlt).symm.trans hx)]
    · rintro ⟨i, hi, hmark, x, hslice, hhas⟩
      have hlength := congrArg List.length hslice
      rw [length_slice hi hj, List.length_singleton] at hlength
      obtain rfl : i = j := by omega
      rw [slice_self_succ hlt] at hslice
      refine ⟨true, x, hmark, ?_, by simp [hhas]⟩
      rw [List.getElem?_eq_getElem hlt, (List.cons.inj hslice).1]

theorem zipWith_or_getElem?_iff {left right : List Bool} (hlength : left.length = right.length)
    {j : Nat} : (List.zipWith or left right)[j]? = some true ↔
      left[j]? = some true ∨ right[j]? = some true := by
  rw [List.getElem?_zipWith]
  by_cases hj : j < left.length
  · rw [List.getElem?_eq_getElem hj, List.getElem?_eq_getElem (hlength ▸ hj)]
    simp
  · rw [List.getElem?_eq_none (Nat.le_of_not_lt hj),
      List.getElem?_eq_none (hlength ▸ Nat.le_of_not_lt hj)]
    simp

/-- The marked places after an expression are those that it reaches from a marked place. -/
theorem ends_getElem?_iff (r : Regex) (hmarks : marks.length = t.length + 1) {j : Nat}
    (hj : j ≤ t.length) :
    (r.ends t marks)[j]? = some true ↔
      ∃ i ≤ j, marks[i]? = some true ∧ r.Describes (slice t i j) := by
  induction r generalizing marks j with
  | empty =>
    rw [ends]
    constructor
    · intro hmark
      exact ⟨j, Nat.le_refl j, hmark, (slice_eq_nil_iff (Nat.le_refl j) hj).mpr rfl⟩
    · rintro ⟨i, hi, hmark, hnil⟩
      rwa [← (slice_eq_nil_iff hi hj).mp hnil]
  | one c => exact ends_one_getElem?_iff c marks hj
  | many c =>
    rw [ends, spread_getElem?_iff c hmarks hj]
    simp [Describes]
  | seq first second ihFirst ihSecond =>
    have hbetween := length_ends first hmarks
    have hsecond : (second.ends t (first.ends t marks))[j]? = some true ↔
        ∃ i ≤ j, marks[i]? = some true ∧ (seq first second).Describes (slice t i j) := by
      rw [ihSecond hbetween hj]
      constructor
      · rintro ⟨k, hk, hmark, hv⟩
        obtain ⟨i, hi, hmark, hu⟩ := (ihFirst hmarks (Nat.le_trans hk hj)).mp hmark
        exact ⟨i, Nat.le_trans hi hk, hmark, _, _, (slice_append_slice hi hk).symm, hu, hv⟩
      · rintro ⟨i, hi, hmark, u, v, happend, hu, hv⟩
        obtain ⟨k, hik, hkj, rfl, rfl⟩ := exists_of_slice_eq_append hi hj happend
        exact ⟨k, hkj, (ihFirst hmarks (Nat.le_trans hkj hj)).mpr ⟨i, hik, hmark, hu⟩, hv⟩
    rw [← hsecond, ends]
    split
    · rfl
    · next hnone =>
      -- nothing is marked between the two, and so nothing behind them
      have hunmarked : ∀ k : Nat, (first.ends t marks)[k]? ≠ some true := by
        intro k hmark
        exact hnone (List.any_eq_true.mpr ⟨true, List.mem_of_getElem? hmark, rfl⟩)
      rw [ihSecond hbetween hj]
      constructor
      · intro hmark
        exact absurd hmark (hunmarked j)
      · rintro ⟨k, _, hmark, _⟩
        exact absurd hmark (hunmarked k)
  | alt left right ihLeft ihRight =>
    have hlength := (length_ends left hmarks).trans (length_ends right hmarks).symm
    rw [ends, zipWith_or_getElem?_iff hlength, ihLeft hmarks hj, ihRight hmarks hj]
    constructor
    · rintro (⟨i, hi, hmark, hdescribes⟩ | ⟨i, hi, hmark, hdescribes⟩)
      · exact ⟨i, hi, hmark, .inl hdescribes⟩
      · exact ⟨i, hi, hmark, .inr hdescribes⟩
    · rintro ⟨i, hi, hmark, hdescribes | hdescribes⟩
      · exact .inl ⟨i, hi, hmark, hdescribes⟩
      · exact .inr ⟨i, hi, hmark, hdescribes⟩

end Ends

/-- The search finds exactly the texts that the expression describes. -/
theorem accepts_iff (r : Regex) (t : Text) : r.accepts t = true ↔ r.Describes t := by
  have hmarks : (true :: List.replicate t.length false).length = t.length + 1 := by simp
  have hlast : (r.ends t (true :: List.replicate t.length false)).getLast? =
      (r.ends t (true :: List.replicate t.length false))[t.length]? := by
    rw [List.getLast?_eq_getElem?, length_ends r hmarks, Nat.add_sub_cancel]
  have haccepts : r.accepts t = true ↔
      (r.ends t (true :: List.replicate t.length false))[t.length]? = some true := by
    rw [accepts, hlast]
    cases (r.ends t (true :: List.replicate t.length false))[t.length]? <;> simp
  rw [haccepts, ends_getElem?_iff r hmarks (Nat.le_refl _)]
  constructor
  · rintro ⟨i, _, hmark, hdescribes⟩
    cases i with
    | zero => rwa [slice_zero, List.take_length] at hdescribes
    | succ i =>
      rw [List.getElem?_cons_succ] at hmark
      cases List.eq_of_mem_replicate (List.mem_of_getElem? hmark)
  · intro hdescribes
    refine ⟨0, Nat.zero_le _, rfl, ?_⟩
    rwa [slice_zero, List.take_length]

end ScenarioLint.Regex
