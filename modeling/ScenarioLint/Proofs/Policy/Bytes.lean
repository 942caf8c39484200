import ScenarioLint.Policy.Basic
import ScenarioLint.Proofs.Text.Decision

/-!
What a list of bytes says about the fields that were written into it one after the other.
-/

namespace ScenarioLint.Policy

section Rows

variable {α β : Type} {encode : α → List β} {good : α → Prop}

/-- No encoding of a good item starts another one, so that an item and what follows it are read back
    in only one way. -/
def PrefixFree (encode : α → List β) (good : α → Prop) : Prop :=
  ∀ ⦃a b⦄, good a → good b → ∀ ⦃x y⦄, encode a ++ x = encode b ++ y → a = b ∧ x = y

/-- A list starts with the encoding of no good item. -/
def Stops (encode : α → List β) (good : α → Prop) (x : List β) : Prop :=
  ∀ ⦃a⦄, good a → ∀ y, encode a ++ y ≠ x

/-- Encodings of one length are told from what follows them. -/
theorem prefixFree_of_length (n : Nat) (hlength : ∀ a, (encode a).length = n)
    (hinj : ∀ ⦃a b⦄, encode a = encode b → a = b) : PrefixFree encode good := by
  intro a b _ _ x y h
  have hsame : (encode a).length = (encode b).length := by rw [hlength, hlength]
  obtain ⟨hcode, hrest⟩ := List.append_inj h hsame
  exact ⟨hinj hcode, hrest⟩

/-- Items in a row are read back up to what starts with none of them. -/
theorem PrefixFree.flatMap_append_inj (hfree : PrefixFree encode good) {as bs : List α}
    (has : ∀ a ∈ as, good a) (hbs : ∀ b ∈ bs, good b) {x y : List β}
    (hx : Stops encode good x) (hy : Stops encode good y)
    (h : as.flatMap encode ++ x = bs.flatMap encode ++ y) : as = bs ∧ x = y := by
  induction as generalizing bs with
  | nil =>
    cases bs with
    | nil => exact ⟨rfl, h⟩
    | cons b bs =>
      rw [List.flatMap_nil, List.flatMap_cons, List.append_assoc] at h
      exact absurd h.symm (hx (hbs b List.mem_cons_self) _)
  | cons a as ih =>
    cases bs with
    | nil =>
      rw [List.flatMap_nil, List.flatMap_cons, List.append_assoc] at h
      exact absurd h (hy (has a List.mem_cons_self) _)
    | cons b bs =>
      rw [List.flatMap_cons, List.flatMap_cons, List.append_assoc, List.append_assoc] at h
      obtain ⟨rfl, hrest⟩ := hfree (has a List.mem_cons_self) (hbs b List.mem_cons_self) h
      obtain ⟨rfl, hxy⟩ := ih (fun c hc => has c (List.mem_cons_of_mem _ hc))
        (fun c hc => hbs c (List.mem_cons_of_mem _ hc)) hrest
      exact ⟨rfl, hxy⟩

end Rows

section Text

theorem bytes_cons (c : Char) (t : Text) : bytes (c :: t) = String.utf8EncodeChar c ++ bytes t :=
  List.flatMap_cons

private theorem utf8EncodeChar_append_inj {c d : Char} {x y : List UInt8}
    (h : String.utf8EncodeChar c ++ x = String.utf8EncodeChar d ++ y) : c = d ∧ x = y := by
  have hc := ByteArray.utf8DecodeChar?_utf8EncodeChar_append (c := c) (b := x.toByteArray)
  rw [← List.toByteArray_append, h, List.toByteArray_append,
    ByteArray.utf8DecodeChar?_utf8EncodeChar_append] at hc
  cases Option.some.inj hc
  exact ⟨rfl, List.append_cancel_left h⟩

/-- The first character of a text is read back from its bytes. -/
theorem bytes_cons_append_inj {c d : Char} {s t : Text} {x y : List UInt8}
    (h : bytes (c :: s) ++ x = bytes (d :: t) ++ y) : c = d ∧ bytes s ++ x = bytes t ++ y := by
  rw [bytes_cons, bytes_cons, List.append_assoc, List.append_assoc] at h
  exact utf8EncodeChar_append_inj h

/-- Of two texts whose bytes start one list, one starts the other. -/
theorem bytes_append_eq {s t : Text} {x y : List UInt8} (h : bytes s ++ x = bytes t ++ y) :
    (∃ u, t = s ++ u ∧ x = bytes u ++ y) ∨ ∃ u, s = t ++ u ∧ y = bytes u ++ x := by
  induction s generalizing t with
  | nil => exact .inl ⟨t, rfl, h⟩
  | cons c s ih =>
    cases t with
    | nil => exact .inr ⟨c :: s, rfl, h.symm⟩
    | cons d t =>
      obtain ⟨rfl, hrest⟩ := bytes_cons_append_inj h
      obtain ⟨u, rfl, hu⟩ | ⟨u, rfl, hu⟩ := ih hrest
      · exact .inl ⟨u, rfl, hu⟩
      · exact .inr ⟨u, rfl, hu⟩

/-- Behind a zero byte, texts are told apart unless one of them goes on with a zero character. -/
theorem prefixFree_terminated {good : Text → Prop}
    (hgood : ∀ s u, good s → ¬good (s ++ '\x00' :: u)) :
    PrefixFree (fun t => bytes t ++ [0]) good := by
  have hzero : ∀ {u : Text} {x y : List UInt8}, 0 :: x = bytes u ++ 0 :: y → u ≠ [] →
      ∃ v, u = '\x00' :: v := by
    intro u x y h hne
    obtain ⟨c, v, rfl⟩ := List.exists_cons_of_ne_nil hne
    have h : bytes ['\x00'] ++ x = bytes (c :: v) ++ 0 :: y := h
    exact ⟨v, by rw [(bytes_cons_append_inj h).1]⟩
  intro s t hs ht x y h
  rw [List.append_assoc, List.append_assoc] at h
  obtain ⟨u, rfl, hu⟩ | ⟨u, rfl, hu⟩ := bytes_append_eq h
  · by_cases hne : u = []
    · subst hne
      exact ⟨(List.append_nil s).symm, List.tail_eq_of_cons_eq hu⟩
    · obtain ⟨v, rfl⟩ := hzero hu hne
      exact absurd ht (hgood s v hs)
  · by_cases hne : u = []
    · subst hne
      exact ⟨List.append_nil t, (List.tail_eq_of_cons_eq hu).symm⟩
    · obtain ⟨v, rfl⟩ := hzero hu hne
      exact absurd hs (hgood t v ht)

end Text

section Numbers

private theorem codeBytes_inj {a b : StatusCode} (h : codeBytes a = codeBytes b) : a = b := by
  obtain ⟨hlow, hhigh⟩ : a.toUInt8 = b.toUInt8 ∧ (a >>> 8).toUInt8 = (b >>> 8).toUInt8 := by
    simpa [codeBytes] using h
  have hlow : a.toNat % 256 = b.toNat % 256 := by
    simpa using congrArg UInt8.toNat hlow
  have hhigh : a.toNat / 256 % 256 = b.toNat / 256 % 256 := by
    simpa [Nat.shiftRight_eq_div_pow] using congrArg UInt8.toNat hhigh
  have ha := a.toNat_lt
  have hb := b.toNat_lt
  exact UInt16.toNat_inj.mp (by omega)

private theorem length_minimumBytes (n : UInt64) : (minimumBytes n).length = 8 := by
  rw [minimumBytes, List.length_map, List.length_range]

private theorem testBit_eq_of_byte {n : Nat} (j : Nat) :
    ((n >>> (8 * (j / 8))) % 256).testBit (j % 8) = n.testBit j := by
  have hlt : j % 8 < 8 := Nat.mod_lt _ (by decide)
  have hbyte : (256 : Nat) = 2 ^ 8 := rfl
  rw [hbyte, Nat.testBit_mod_two_pow, decide_eq_true hlt, Bool.true_and, Nat.testBit_shiftRight,
    Nat.div_add_mod]

private theorem minimumBytes_inj {a b : UInt64} (h : minimumBytes a = minimumBytes b) : a = b := by
  have hbytes : ∀ i < 8, (a.toNat >>> (8 * i)) % 256 = (b.toNat >>> (8 * i)) % 256 := by
    intro i hi
    have hbyte := List.map_inj_left.mp h i (List.mem_range.mpr hi)
    have hshift : 8 * i % 64 = 8 * i := Nat.mod_eq_of_lt (by omega)
    have hnat := congrArg UInt8.toNat hbyte
    simpa [hshift] using hnat
  apply UInt64.toNat_inj.mp
  apply Nat.eq_of_testBit_eq
  intro j
  by_cases hj : j < 64
  · rw [← testBit_eq_of_byte j, hbytes (j / 8) (by omega), testBit_eq_of_byte j]
  · have hsize : ∀ n : UInt64, n.toNat.testBit j = false := by
      intro n
      apply Nat.testBit_lt_two_pow
      exact Nat.lt_of_lt_of_le n.toNat_lt (Nat.pow_le_pow_right (by decide) (by omega))
    rw [hsize, hsize]

theorem prefixFree_codeBytes (good : StatusCode → Prop) : PrefixFree codeBytes good :=
  prefixFree_of_length 2 (fun _ => rfl) fun _ _ => codeBytes_inj

theorem prefixFree_minimumBytes (good : UInt64 → Prop) : PrefixFree minimumBytes good :=
  prefixFree_of_length 8 length_minimumBytes fun _ _ => minimumBytes_inj

end Numbers

end ScenarioLint.Policy
