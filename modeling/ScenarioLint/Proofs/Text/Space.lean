import Mathlib.Data.List.DropRight
import ScenarioLint.Text

/-!
White space at the ends of a text: what trimming removes and what it leaves alone.  And which
characters are white space at all, what capitals are made of, and what numbers are written with.
-/

namespace ScenarioLint.Text

/-- No visible ASCII character is white space. -/
theorem isSpace_of_ascii {c : Char} (hlow : 33 ≤ c.toNat) (hhigh : c.toNat < 128) :
    isSpace c = false := by
  have hall : ∀ n < 128, 33 ≤ n → isSpace (Char.ofNat n) = false := by decide
  have hc := hall c.toNat hhigh hlow
  rwa [Char.ofNat_toNat] at hc

theorem isSpace_of_between {c low high : Char} (hlow : low.val ≤ c.val) (hhigh : c.val ≤ high.val)
    (h : 33 ≤ low.toNat ∧ high.toNat < 128) : isSpace c = false := by
  have hlow : low.toNat ≤ c.toNat := UInt32.le_iff_toNat_le.mp hlow
  have hhigh : c.toNat ≤ high.toNat := UInt32.le_iff_toNat_le.mp hhigh
  exact isSpace_of_ascii (by omega) (by omega)

/-- Capitals take the place of small ASCII letters alone. -/
theorem toUpper_eq_self {c : Char} (h : ¬(97 ≤ c.toNat ∧ c.toNat ≤ 122)) : c.toUpper = c := by
  have hnot : ¬('a'.val ≤ c.val ∧ c.val ≤ 'z'.val) := by
    rintro ⟨hlow, hhigh⟩
    exact h ⟨UInt32.le_iff_toNat_le.mp hlow, UInt32.le_iff_toNat_le.mp hhigh⟩
  exact dif_neg hnot

/-- Only letters change when they are turned into capitals, and into nothing that is white space. -/
theorem toUpper_eq_self_or (c : Char) : c.toUpper = c ∨ isSpace c.toUpper = false := by
  by_cases hlower : 97 ≤ c.toNat ∧ c.toNat ≤ 122
  · right
    have hall : ∀ n ≤ 122, 97 ≤ n → isSpace (Char.ofNat n).toUpper = false := by decide
    have hc := hall c.toNat hlower.2 hlower.1
    rwa [Char.ofNat_toNat] at hc
  · left
    exact toUpper_eq_self hlower

theorem isDigit_of_mem_ofNat {n : Nat} {c : Char} (h : c ∈ ofNat n) : c.isDigit = true :=
  Nat.isDigit_of_mem_toDigits (by decide) (by decide) h

theorem not_mem_ofNat {c : Char} (hc : c.isDigit = false) (n : Nat) : c ∉ ofNat n := by
  intro hmem
  rw [isDigit_of_mem_ofNat hmem] at hc
  cases hc

theorem isBlank_iff {t : Text} : t.isBlank = true ↔ ∀ c ∈ t, isSpace c = true := by
  rw [isBlank, List.all_eq_true]

theorem takeWhile_append_trimStart (t : Text) : t.takeWhile isSpace ++ t.trimStart = t :=
  List.takeWhile_append_dropWhile

theorem isBlank_takeWhile (t : Text) : isBlank (t.takeWhile isSpace) = true := by
  rw [isBlank_iff]
  exact fun _ => List.mem_takeWhile_imp

/-- What is left after trimming the front starts with no white space. -/
theorem head?_trimStart {t : Text} {c : Char} (h : t.trimStart.head? = some c) :
    isSpace c = false := by
  have hnot := List.head?_dropWhile_not isSpace t
  rw [trimStart] at h
  rw [h] at hnot
  simpa using hnot

theorem trimStart_of_head {t : Text} (h : ∀ c, t.head? = some c → isSpace c = false) :
    t.trimStart = t := by
  cases t with
  | nil => rfl
  | cons c rest =>
    have hc : isSpace c = false := h c rfl
    rw [trimStart, List.dropWhile_cons_of_neg (by simp [hc])]

/-- Blank text in front of a text goes with the white space behind it. -/
theorem trimStart_append_of_isBlank {ws : Text} (hws : ws.isBlank = true) (t : Text) :
    trimStart (ws ++ t) = t.trimStart := by
  rw [isBlank_iff] at hws
  exact List.dropWhile_append_of_pos hws

theorem trimStart_append_of_head {ws t : Text} (hws : ws.isBlank = true)
    (h : ∀ c, t.head? = some c → isSpace c = false) : trimStart (ws ++ t) = t := by
  rw [trimStart_append_of_isBlank hws, trimStart_of_head h]

theorem trimEnd_eq_rdropWhile (t : Text) : t.trimEnd = t.rdropWhile isSpace :=
  rfl

/-- A text is its trimmed form with blank text behind it. -/
theorem exists_trimEnd_append (t : Text) : ∃ ws, t = t.trimEnd ++ ws ∧ ws.isBlank = true := by
  refine ⟨t.rtakeWhile isSpace, List.rdropWhile_append_rtakeWhile.symm, ?_⟩
  rw [isBlank_iff]
  exact fun _ => List.mem_rtakeWhile_imp

theorem getLast?_trimEnd {t : Text} {c : Char} (h : t.trimEnd.getLast? = some c) :
    isSpace c = false := by
  have hne : t.rdropWhile isSpace ≠ [] := by
    rintro hnil
    rw [trimEnd_eq_rdropWhile, hnil] at h
    cases h
  have hlast := List.rdropWhile_last_not isSpace t hne
  rw [trimEnd_eq_rdropWhile, List.getLast?_eq_getLast_of_ne_nil hne] at h
  simpa [Option.some.inj h] using hlast

theorem trimEnd_of_getLast {t : Text} (h : ∀ c, t.getLast? = some c → isSpace c = false) :
    t.trimEnd = t := by
  rw [trimEnd_eq_rdropWhile, List.rdropWhile_eq_self_iff]
  intro hne
  simp [h _ (List.getLast?_eq_getLast_of_ne_nil hne)]

theorem trimEnd_append_of_isBlank {ws : Text} (hws : ws.isBlank = true) (t : Text) :
    trimEnd (t ++ ws) = t.trimEnd := by
  rw [isBlank_iff] at hws
  rw [trimEnd, List.reverse_append, List.dropWhile_append_of_pos (by simpa using hws), trimEnd]

theorem trimEnd_append_of_getLast {t ws : Text} (hws : ws.isBlank = true)
    (h : ∀ c, t.getLast? = some c → isSpace c = false) : trimEnd (t ++ ws) = t := by
  rw [trimEnd_append_of_isBlank hws, trimEnd_of_getLast h]

/-- Behind a visible text, blank text is all that trimming the end can reach. -/
theorem trimEnd_append_of_not_isBlank {t : Text} (front : Text) (ht : t.trimEnd ≠ []) :
    trimEnd (front ++ t) = front ++ t.trimEnd := by
  obtain ⟨ws, hws, hblank⟩ := exists_trimEnd_append t
  conv_lhs => rw [hws, ← List.append_assoc]
  apply trimEnd_append_of_getLast hblank
  intro c hc
  rw [List.getLast?_append_of_ne_nil _ ht] at hc
  exact getLast?_trimEnd hc

/-- A trimmed text starts and ends visibly. -/
theorem ends_of_trim {t : Text} (ht : t.trim = t) :
    (∀ c, t.head? = some c → isSpace c = false) ∧
      ∀ c, t.getLast? = some c → isSpace c = false := by
  refine ⟨fun c hc => ?_, fun c hc => ?_⟩
  · obtain ⟨ws, hws, _⟩ := exists_trimEnd_append t.trimStart
    apply head?_trimStart (t := t)
    rw [hws, List.head?_append, ← trim, ht, hc]
    rfl
  · rw [← ht] at hc
    exact getLast?_trimEnd hc

theorem trim_of_ends {t : Text} (hhead : ∀ c, t.head? = some c → isSpace c = false)
    (hlast : ∀ c, t.getLast? = some c → isSpace c = false) : t.trim = t := by
  rw [trim, trimStart_of_head hhead, trimEnd_of_getLast hlast]

/-- A trimmed text is recovered from between blank texts. -/
theorem trim_append {front t back : Text} (hfront : front.isBlank = true) (ht : t.trim = t)
    (hback : back.isBlank = true) : trim (front ++ (t ++ back)) = t := by
  obtain ⟨hhead, hlast⟩ := ends_of_trim ht
  rw [trim, trimStart_append_of_isBlank hfront]
  cases t with
  | nil =>
    have hnil : trimStart back = [] := by
      rw [isBlank_iff] at hback
      rw [trimStart, List.dropWhile_eq_nil_iff]
      exact hback
    rw [List.nil_append, hnil]
    rfl
  | cons c rest =>
    have hstart : trimStart (c :: rest ++ back) = c :: rest ++ back :=
      trimStart_of_head fun d hd => hhead d hd
    rw [hstart, trimEnd_append_of_getLast hback hlast]

theorem trimStart_trim (t : Text) : t.trim.trimStart = t.trim := by
  apply trimStart_of_head
  intro c hc
  obtain ⟨ws, hws, _⟩ := exists_trimEnd_append t.trimStart
  apply head?_trimStart (t := t)
  rw [hws, List.head?_append, ← trim, hc, Option.some_or]

theorem trim_trim (t : Text) : t.trim.trim = t.trim := by
  rw [trim, trimStart_trim]
  exact trimEnd_of_getLast fun _ => getLast?_trimEnd

/-- Nothing is left of a text that is trimmed just if the text is blank. -/
theorem isEmpty_trim (t : Text) : t.trim.isEmpty = t.isBlank := by
  rw [Bool.eq_iff_iff, List.isEmpty_iff]
  constructor
  · intro hnil
    obtain ⟨ws, hws, hblank⟩ := exists_trimEnd_append t.trimStart
    rw [← trim, hnil, List.nil_append] at hws
    rw [← takeWhile_append_trimStart t, hws, isBlank, List.all_append, ← isBlank, ← isBlank,
      isBlank_takeWhile, hblank, Bool.and_self]
  · intro hblank
    have hnil : trim (t ++ ([] ++ [])) = [] := trim_append hblank rfl rfl
    simpa using hnil

/-- Blank text behind a text does not help it to start with something that ends visibly. -/
theorem isPrefix_of_isPrefix_append {lead t ws : Text} (hws : ws.isBlank = true)
    (hlead : ∀ c, lead.getLast? = some c → isSpace c = false) (h : lead <+: t ++ ws) :
    lead <+: t := by
  rcases List.prefix_or_prefix_of_prefix h (List.prefix_append t ws) with hstarts | ⟨more, rfl⟩
  · exact hstarts
  · obtain rfl | ⟨front, c, rfl⟩ := List.eq_nil_or_concat more
    · simp
    · rw [List.concat_eq_append] at h hlead
      have hc : c ∈ ws := ((List.prefix_append_right_inj t).mp h).subset (by simp)
      have hvisible := hlead c (by simp)
      rw [isBlank_iff.mp hws c hc] at hvisible
      cases hvisible

theorem isPrefix_append_iff {lead ws : Text} (hlead : ∀ c ∈ lead, isSpace c = false)
    (hws : ws.isBlank = true) (t : Text) : lead <+: t ++ ws ↔ lead <+: t :=
  ⟨isPrefix_of_isPrefix_append hws fun c hc => hlead c (List.mem_of_getLast? hc),
    fun h => h.trans (List.prefix_append t ws)⟩

/-- White space around a text makes no difference to its trimmed form. -/
theorem trim_append_append {front back : Text} (hfront : front.isBlank = true) (t : Text)
    (hback : back.isBlank = true) : trim (front ++ (t ++ back)) = t.trim := by
  obtain ⟨ws, hws, hblank⟩ := exists_trimEnd_append t.trimStart
  have hsplit : front ++ (t ++ back) =
      (front ++ t.takeWhile isSpace) ++ (t.trim ++ (ws ++ back)) := by
    conv_lhs => rw [← takeWhile_append_trimStart t, hws]
    simp [trim]
  rw [hsplit]
  apply trim_append ?_ (trim_trim t) ?_
  · have hstart := isBlank_takeWhile t
    rw [isBlank, List.all_append, ← isBlank, ← isBlank, hfront, hstart]
    rfl
  · rw [isBlank, List.all_append, ← isBlank, ← isBlank, hblank, hback]
    rfl

theorem trim_append_left {front : Text} (hfront : front.isBlank = true) (t : Text) :
    trim (front ++ t) = t.trim := by
  rw [trim, trim, trimStart_append_of_isBlank hfront]

/-- A text is what is left of it without a carriage return at its end, and blank text. -/
theorem exists_dropReturn_append (t : Text) :
    ∃ ws, t = t.dropReturn ++ ws ∧ ws.isBlank = true := by
  rw [dropReturn]
  split
  · rename_i hreturn
    obtain ⟨front, rfl⟩ := List.getLast?_eq_some_iff.mp hreturn
    exact ⟨['\r'], by rw [List.dropLast_concat], by decide⟩
  · exact ⟨[], (List.append_nil t).symm, rfl⟩

theorem trim_dropReturn (t : Text) : t.dropReturn.trim = t.trim := by
  obtain ⟨ws, hws, hblank⟩ := exists_dropReturn_append t
  conv_rhs => rw [hws]
  exact (trim_append_append (show isBlank [] = true from rfl) _ hblank).symm

theorem trim_isInfix (t : Text) : t.trim <:+: t := by
  rw [trim, trimEnd_eq_rdropWhile]
  exact (List.rdropWhile_prefix isSpace _).isInfix.trans (List.dropWhile_suffix isSpace).isInfix

theorem mem_of_mem_trim {t : Text} {c : Char} (h : c ∈ t.trim) : c ∈ t :=
  (trim_isInfix t).subset h

end ScenarioLint.Text
