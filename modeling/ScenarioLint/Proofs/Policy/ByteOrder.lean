import Mathlib.Tactic.SplitIfs
import ScenarioLint.Policy.Basic

/-!
The order of texts and the order of their bytes.  Texts are compared character by character, and the
bytes of a text compare in the same way.
-/

namespace ScenarioLint.Policy

/-- The bytes of a character come before those of a greater one, whatever follows either. -/
theorem utf8EncodeChar_append_lt {c d : Char} (h : c < d) (x y : List UInt8) :
    String.utf8EncodeChar c ++ x < String.utf8EncodeChar d ++ y := by
  have hlt : c.toNat < d.toNat := UInt32.lt_iff_toNat_lt.mp h
  have hvalid : d.toNat < 0x110000 := by
    have hd : d.toNat.isValidChar := d.valid
    rw [Nat.isValidChar] at hd
    omega
  rw [String.utf8EncodeChar, String.utf8EncodeChar]
  simp only [Char.toNat_val]
  -- a longer encoding starts with a greater byte, and of two encodings of one length the first byte
  -- in which they differ holds the higher places of the characters
  split_ifs
  all_goals
    simp only [List.cons_append, List.nil_append, List.cons_lt_cons_iff, UInt8.lt_iff_toNat_lt,
      ← UInt8.toNat_inj, UInt8.toNat_ofNat']
    simp (disch := omega) only [Nat.mod_eq_of_lt]
    omega

theorem bytes_lt_bytes {s t : Text} (h : s < t) : bytes s < bytes t := by
  induction s generalizing t with
  | nil =>
    cases t with
    | nil => exact absurd h (List.lt_irrefl _)
    | cons d t =>
      obtain ⟨b, rest, hb⟩ := List.exists_cons_of_ne_nil (String.utf8EncodeChar_ne_nil (c := d))
      rw [bytes, bytes, List.flatMap_nil, List.flatMap_cons, hb]
      exact List.nil_lt_cons _ _
  | cons c s ih =>
    cases t with
    | nil => exact absurd h (List.not_lt_nil _)
    | cons d t =>
      rw [bytes, bytes, List.flatMap_cons, List.flatMap_cons]
      obtain hlt | ⟨rfl, hrest⟩ := List.cons_lt_cons_iff.mp h
      · exact utf8EncodeChar_append_lt hlt _ _
      · exact List.append_left_lt (ih hrest)

/-- Texts are in the order of their bytes. -/
theorem bytes_lt_bytes_iff {s t : Text} : bytes s < bytes t ↔ s < t := by
  constructor
  · intro h
    by_cases hlt : s < t
    · exact hlt
    by_cases hgt : t < s
    · exact absurd h (List.lt_asymm (bytes_lt_bytes hgt))
    · rw [List.le_antisymm (List.not_lt.mp hgt) (List.not_lt.mp hlt)] at h
      exact absurd h (List.lt_irrefl _)
  · exact bytes_lt_bytes

end ScenarioLint.Policy
