import ScenarioLint.Proofs.Text.Space
import ScenarioLint.Settings.Basic

/-!
The names of methods.  A method is stored under one name, however it is written: the white space
around it and the case of its ASCII letters do not count, and nothing else is forgotten.
-/

namespace ScenarioLint

namespace Text

theorem toLower_eq_self {c : Char} (h : ¬(65 ≤ c.toNat ∧ c.toNat ≤ 90)) : c.toLower = c := by
  have hnot : ¬('A'.val ≤ c.val ∧ c.val ≤ 'Z'.val) := by
    rintro ⟨hlow, hhigh⟩
    exact h ⟨UInt32.le_iff_toNat_le.mp hlow, UInt32.le_iff_toNat_le.mp hhigh⟩
  exact dif_neg hnot

/-- What the two cases of a character have to do with each other. -/
private theorem case_spec (c : Char) :
    c.toUpper.toLower = c.toLower ∧ c.toLower.toUpper = c.toUpper ∧
      isSpace c.toUpper = isSpace c := by
  by_cases hascii : c.toNat < 128
  · have hall : ∀ n < 128, (Char.ofNat n).toUpper.toLower = (Char.ofNat n).toLower ∧
        (Char.ofNat n).toLower.toUpper = (Char.ofNat n).toUpper ∧
          isSpace (Char.ofNat n).toUpper = isSpace (Char.ofNat n) := by decide
    have hc := hall c.toNat hascii
    rwa [Char.ofNat_toNat] at hc
  · have hupper : c.toUpper = c := toUpper_eq_self (by omega)
    have hlower : c.toLower = c := toLower_eq_self (by omega)
    rw [hupper, hlower]
    exact ⟨rfl, hupper, rfl⟩

theorem isLower_toUpper (c : Char) : c.toUpper.isLower = false := by
  by_cases hlower : 97 ≤ c.toNat ∧ c.toNat ≤ 122
  · obtain ⟨hlow, hhigh⟩ := hlower
    have hall : ∀ n ≤ 122, 97 ≤ n → (Char.ofNat n).toUpper.isLower = false := by decide
    have hc := hall c.toNat hhigh hlow
    rwa [Char.ofNat_toNat] at hc
  · rw [toUpper_eq_self hlower, Bool.eq_false_iff]
    intro h
    obtain ⟨hlow, hhigh⟩ := Bool.and_eq_true_iff.mp h
    exact hlower ⟨UInt32.le_iff_toNat_le.mp (of_decide_eq_true hlow),
      UInt32.le_iff_toNat_le.mp (of_decide_eq_true hhigh)⟩

theorem isLower_of_mem_methodName {method : Text} {c : Char} (h : c ∈ methodName method) :
    c.isLower = false := by
  obtain ⟨d, _, rfl⟩ := List.mem_map.mp h
  exact isLower_toUpper d

/-- Texts that are alike are those with the same capitals. -/
theorem alike_iff_toUpper_eq {s t : Text} : alike s t = true ↔ s.toUpper = t.toUpper := by
  have hlower : ∀ u : Text, u.toUpper.toLower = u.toLower := by
    intro u
    rw [toUpper, toLower, List.map_map]
    exact List.map_congr_left fun c _ => (case_spec c).1
  have hupper : ∀ u : Text, u.toLower.toUpper = u.toUpper := by
    intro u
    rw [toLower, toUpper, List.map_map]
    exact List.map_congr_left fun c _ => (case_spec c).2.1
  rw [alike, beq_iff_eq]
  constructor
  · intro h
    rw [← hupper s, h, hupper]
  · intro h
    rw [← hlower s, h, hlower]

theorem toUpper_toUpper (t : Text) : t.toUpper.toUpper = t.toUpper := by
  rw [← alike_iff_toUpper_eq, alike, beq_iff_eq, toUpper, toLower, List.map_map]
  exact List.map_congr_left fun c _ => (case_spec c).1

/-- Capitals leave the white space where it is. -/
theorem trim_toUpper (t : Text) : t.toUpper.trim = t.trim.toUpper := by
  have hspace : isSpace ∘ Char.toUpper = isSpace := funext fun c => (case_spec c).2.2
  have hstart : ∀ u : Text, (u.map Char.toUpper).dropWhile isSpace =
      (u.dropWhile isSpace).map Char.toUpper := by
    intro u
    rw [List.dropWhile_map, hspace]
  rw [trim, trimEnd, trimStart, toUpper, hstart, ← List.map_reverse, hstart, ← List.map_reverse]
  rfl

end Text

/-- Two texts name the same method: they differ at most in the white space around them and in the
    case of their ASCII letters. -/
def SameMethod (a b : Text) : Prop :=
  Text.alike a.trim b.trim = true

instance (a b : Text) : Decidable (SameMethod a b) :=
  inferInstanceAs (Decidable (_ = true))

/-- One name stands for just the texts that name one method. -/
theorem methodName_eq_iff {a b : Text} : methodName a = methodName b ↔ SameMethod a b :=
  Text.alike_iff_toUpper_eq.symm

/-- A name is the name of itself. -/
theorem methodName_methodName (method : Text) : methodName (methodName method) = methodName method := by
  rw [methodName, methodName, Text.trim_toUpper, Text.trim_trim, Text.toUpper_toUpper]

/-- The names of methods are trimmed and in ASCII capitals. -/
theorem methodName_eq_self_iff {t : Text} : methodName t = t ↔ t.trim = t ∧ t.toUpper = t := by
  constructor
  · intro h
    rw [← h]
    exact ⟨by rw [methodName, Text.trim_toUpper, Text.trim_trim], Text.toUpper_toUpper _⟩
  · rintro ⟨htrim, hupper⟩
    rw [methodName, htrim, hupper]

end ScenarioLint
