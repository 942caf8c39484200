import ScenarioLint.Proofs.Json.Layout

/-!
Reading back what was written.  The reader of JSON finds the tree of a value in its written form,
whatever the layout: strings lose their escapes, numbers end where no digit follows, and white space
between the tokens is skipped.  Doubles are left out, because the decimal form of a double is another
matter than its place in a text.
-/

namespace ScenarioLint.Json

/-- What follows a number in a written value: nothing that would go on with it. -/
def EndsNumber (rest : Text) : Prop :=
  ∀ c, rest.head? = some c → c.isDigit = false ∧ c ≠ '.' ∧ c ≠ 'e' ∧ c ≠ 'E'

theorem endsNumber_nil : EndsNumber [] := by
  intro c hc
  cases hc

namespace Literal

theorem ofDigits_ofNat (n : Nat) : ofDigits (Text.ofNat n) = n :=
  Nat.ofDigitChars_toDigits (by omega) (by omega)

/-- Only zero is written with a zero in front. -/
theorem head?_ofNat_ne {n : Nat} (h : n ≠ 0) : (Text.ofNat n).head? ≠ some '0' := by
  induction n using Nat.strong_induction_on with
  | h n ih =>
    rw [Text.ofNat]
    by_cases hn : n < 10
    · have hall : ∀ m < 10, m ≠ 0 → some m.digitChar ≠ some '0' := by decide
      rw [Nat.toDigits_of_lt_base hn]
      exact hall n hn h
    · have hfront := ih (n / 10) (by omega) (by omega)
      obtain ⟨c, rest, hc⟩ := List.exists_cons_of_ne_nil (ofNat_ne_nil (n / 10))
      rw [hc] at hfront
      rw [Nat.toDigits_of_base_le (by omega) (by omega), ← Text.ofNat, hc]
      exact hfront

theorem readFraction_of_endsNumber {rest : Text} (h : EndsNumber rest) :
    readFraction rest = some (none, rest) := by
  rw [readFraction]
  · rintro t rfl
    exact (h '.' rfl).2.1 rfl

theorem readExponent_of_endsNumber {rest : Text} (h : EndsNumber rest) :
    readExponent rest = some (none, rest) := by
  cases rest with
  | nil => rfl
  | cons c rest =>
    obtain ⟨_, _, hlow, hhigh⟩ := h c rfl
    simp [readExponent, hlow, hhigh]

theorem takeWhile_ofNat_append {rest : Text} (h : EndsNumber rest) (n : Nat) :
    (Text.ofNat n ++ rest).takeWhile Char.isDigit = Text.ofNat n ∧
      (Text.ofNat n ++ rest).dropWhile Char.isDigit = rest := by
  have hdigits : ∀ c ∈ Text.ofNat n, c.isDigit = true := fun _ => Text.isDigit_of_mem_ofNat
  have hrest : rest.takeWhile Char.isDigit = [] ∧ rest.dropWhile Char.isDigit = rest := by
    cases rest with
    | nil => exact ⟨rfl, rfl⟩
    | cons c rest => simp [(h c rfl).1]
  rw [List.takeWhile_append_of_pos hdigits, List.dropWhile_append_of_pos hdigits, hrest.1, hrest.2,
    List.append_nil]
  exact ⟨rfl, rfl⟩

/-- The literal of an integer. -/
def ofInteger (k : Int) : Literal :=
  ⟨k < 0, Text.ofNat k.natAbs, none, none⟩

/-- A written natural number is read as it is. -/
theorem readMagnitude_ofNat {rest : Text} (h : EndsNumber rest) (negative : Bool) (n : Nat) :
    readMagnitude negative (Text.ofNat n ++ rest) =
      some (⟨negative, Text.ofNat n, none, none⟩, rest) := by
  obtain ⟨htake, hdrop⟩ := takeWhile_ofNat_append h n
  have hlead : ((Text.ofNat n).isEmpty ||
      (1 < (Text.ofNat n).length && (Text.ofNat n).head? == some '0')) = false := by
    have hempty : (Text.ofNat n).isEmpty = false := by simp [ofNat_ne_nil]
    rw [hempty, Bool.false_or]
    by_cases hn : n = 0
    · subst hn
      decide
    · simp [head?_ofNat_ne hn]
  simp [readMagnitude, htake, hdrop, hlead, readFraction_of_endsNumber h,
    readExponent_of_endsNumber h]

theorem read_written_integer {rest : Text} (h : EndsNumber rest) (k : Int) :
    read ((Number.integer k).written ++ rest) = some (ofInteger k, rest) := by
  cases k with
  | ofNat n =>
    obtain ⟨c, more, hc⟩ := List.exists_cons_of_ne_nil (ofNat_ne_nil n)
    have hdigit : c.isDigit = true := Text.isDigit_of_mem_ofNat (hc ▸ List.mem_cons_self)
    have hread := readMagnitude_ofNat h false n
    rw [Number.written, read]
    · rw [hread]
      rfl
    · rw [hc]
      rintro t heq
      rw [(List.cons.inj heq).1] at hdigit
      cases hdigit
  | negSucc n =>
    have hread := readMagnitude_ofNat h true (n + 1)
    rw [Number.written, ofInteger, decide_eq_true (Int.negSucc_lt_zero n)]
    exact hread

end Literal

namespace Source

theorem hexValue?_hexDigit : ∀ n < 16, hexValue? (hexDigit n) = some n := by
  decide

theorem hexUnit?_hexDigit {n : Nat} (h : n < 256) :
    hexUnit? '0' '0' (hexDigit (n / 16)) (hexDigit (n % 16)) = some n := by
  have hzero : hexValue? '0' = some 0 := rfl
  simp only [hexUnit?, hzero, hexValue?_hexDigit (n / 16) (by omega),
    hexValue?_hexDigit (n % 16) (by omega), bind, Option.bind, Option.some.injEq]
  omega

theorem pushUnit_toNat {c : Char} (h : c.toNat < 32) (p : Passed) : p.pushUnit c.toNat = p.push c := by
  rw [Passed.pushUnit, if_neg (by simp; omega), if_neg (by simp; omega), Char.ofNat_toNat]

/-- A written character is read as it is. -/
theorem readString_escape (p : Passed) (c : Char) (more : Text) :
    readString p (escape c ++ more) = readString (p.push c) more := by
  rw [escape]
  repeat' split
  iterate 7
    · subst_vars
      rfl
  · rename_i hcontrol
    have hunit := hexUnit?_hexDigit (n := c.toNat) (by omega)
    have hread : readString p ('\\' :: 'u' :: '0' :: '0' :: hexDigit (c.toNat / 16) ::
        hexDigit (c.toNat % 16) :: more) = readString (p.pushUnit c.toNat) more := by
      rw [readString, hunit]
    rw [← pushUnit_toNat hcontrol]
    exact hread
  · rename_i hquote hslash _ _ _ _ _ hcontrol
    rw [List.singleton_append, readString, if_neg hcontrol]
    all_goals simp_all

theorem readString_flatMap_escape {p : Passed} (hhalf : p.half = none) (hpaired : p.paired = true)
    (t rest : Text) :
    readString p (t.flatMap escape ++ '"' :: rest) = some (some (p.chars.reverse ++ t), rest) := by
  induction t generalizing p with
  | nil =>
    rw [List.flatMap_nil, List.nil_append, readString, Passed.text?, hhalf, hpaired, List.append_nil]
    rfl
  | cons c t ih =>
    have hpush : (p.push c).paired = true := by rw [Passed.push, hhalf, hpaired]; rfl
    rw [List.flatMap_cons, List.append_assoc, readString_escape, ih rfl hpush, Passed.push,
      List.reverse_cons, List.append_assoc]
    rfl

/-- A written text is read up to its closing quote. -/
theorem readString_quoted (t rest : Text) :
    readString .start (t.flatMap escape ++ '"' :: rest) = some (some t, rest) :=
  readString_flatMap_escape rfl rfl t rest

end Source

theorem quoted_append (t rest : Text) :
    quoted t ++ rest = '"' :: (t.flatMap escape ++ '"' :: rest) := by
  simp [quoted]

namespace Value

mutual

/-- There is no double in the value. -/
def isExact : Value → Bool
  | null => true
  | bool _ => true
  | number (.integer _) => true
  | number (.real _) => false
  | string _ => true
  | array items => areExact items
  | object members => membersExact members

def areExact : List Value → Bool
  | [] => true
  | v :: rest => v.isExact && areExact rest

def membersExact : List (Text × Value) → Bool
  | [] => true
  | (_, v) :: rest => v.isExact && membersExact rest

end

mutual

/-- The tree of a written value that has no doubles. -/
def source : Value → Source
  | null => .null
  | bool b => .bool b
  | number (.integer k) => .number (.ofInteger k)
  | number (.real _) => .broken
  | string t => .string t
  | array items => .array (sources items) true
  | object members => .object (memberSources members) true

def sources : List Value → List Source
  | [] => []
  | v :: rest => v.source :: sources rest

def memberSources : List (Text × Value) → List (Option Text × Source)
  | [] => []
  | (key, v) :: rest => (some key, v.source) :: memberSources rest

end

end Value

namespace Source

/-- What the reader of an array does behind an item. -/
def continueItems (fuel : Nat) (done : List Source) (t : Text) : Source × Text :=
  match skipGap t with
  | ',' :: rest => readItems fuel false rest done
  | ']' :: rest => (array done.reverse true, rest)
  | rest => (array done.reverse false, rest)

/-- What the reader of an object does behind a member. -/
def continueMembers (fuel : Nat) (done : List (Option Text × Source)) (t : Text) : Source × Text :=
  match skipGap t with
  | ',' :: rest => readMembers fuel false rest done
  | '\x7d' :: rest => (object done.reverse true, rest)
  | rest => (object done.reverse false, rest)

section Continue

variable {fuel : Nat} {t rest : Text}

theorem continueItems_of_comma {done : List Source} (h : skipGap t = ',' :: rest) :
    continueItems fuel done t = readItems fuel false rest done := by
  rw [continueItems, h]
  rfl

theorem continueItems_of_bracket {done : List Source} (h : skipGap t = ']' :: rest) :
    continueItems fuel done t = (array done.reverse true, rest) := by
  rw [continueItems, h]
  rfl

theorem continueMembers_of_comma {done : List (Option Text × Source)} (h : skipGap t = ',' :: rest) :
    continueMembers fuel done t = readMembers fuel false rest done := by
  rw [continueMembers, h]
  rfl

theorem continueMembers_of_brace {done : List (Option Text × Source)}
    (h : skipGap t = '\x7d' :: rest) :
    continueMembers fuel done t = (object done.reverse true, rest) := by
  rw [continueMembers, h]
  rfl

end Continue

theorem skipGap_cons_of_visible {c : Char} (h : isGap c = false) (t : Text) :
    skipGap (c :: t) = c :: t :=
  List.dropWhile_cons_of_neg (by simp [h])

theorem skipGap_append {gap : Text} (h : ∀ c ∈ gap, isGap c = true) (t : Text) :
    skipGap (gap ++ t) = skipGap t :=
  List.dropWhile_append_of_pos h

theorem isSpace_of_isGap {c : Char} (h : isGap c = true) : isSpace c = true := by
  simp only [isGap, Bool.or_eq_true, beq_iff_eq] at h
  obtain ((rfl | rfl) | rfl) | rfl := h
  all_goals rfl

theorem skipGap_laidOut (l : Layout) (level : Nat) (v : Value) (rest : Text) :
    skipGap (v.laidOut l level ++ rest) = v.laidOut l level ++ rest := by
  obtain ⟨c, more, hhead, hc, _⟩ := Value.exists_head_laidOut l level v
  rw [hhead]
  refine skipGap_cons_of_visible ?_ _
  rw [Bool.eq_false_iff]
  intro hgap
  have hspace := (Value.visible_of_isOpening hc).1
  rw [isSpace_of_isGap hgap] at hspace
  cases hspace

/-- The reader skips white space in front of a value. -/
theorem readValue_of_skipGap {fuel : Nat} (hfuel : 0 < fuel) {t u : Text} (h : skipGap t = skipGap u) :
    readValue fuel t = readValue fuel u := by
  obtain ⟨fuel, rfl⟩ := Nat.exists_eq_add_of_lt hfuel
  rw [readValue, readValue, h]

theorem readItems_item {fuel : Nat} {first : Bool} {t more : Text} {done : List Source}
    {item : Source} (hclose : (skipGap t).head? ≠ some ']')
    (hread : readValue fuel (skipGap t) = (item, more)) :
    readItems (fuel + 1) first t done = continueItems fuel (item :: done) more := by
  rw [readItems]
  split
  · rename_i rest heq
    rw [heq] at hclose
    exact absurd rfl hclose
  · rw [hread]
    rfl

theorem readMembers_member {fuel : Nat} {first : Bool} {t after rest more : Text}
    {done : List (Option Text × Source)} {key : Option Text} {v : Source}
    (hopen : skipGap t = '"' :: after) (hkey : readString .start after = some (key, rest))
    {behind : Text} (hcolon : skipGap rest = ':' :: behind)
    (hread : readValue fuel behind = (v, more)) :
    readMembers (fuel + 1) first t done = continueMembers fuel ((key, v) :: done) more := by
  rw [readMembers, hopen]
  simp only [hkey, hcolon, hread]
  rfl

/-- A written integer is read as a number. -/
theorem readValue_integer {fuel : Nat} (l : Layout) (level : Nat) (k : Int) {rest : Text}
    (h : EndsNumber rest) :
    readValue (fuel + 1) ((Value.number (.integer k)).laidOut l level ++ rest) =
      (number (.ofInteger k), rest) := by
  have hread := Literal.read_written_integer h k
  obtain ⟨hne, hall⟩ := Number.written_spec (.integer k)
  obtain ⟨c, more, hwritten⟩ := List.exists_cons_of_ne_nil hne
  have hc : isNumeral c = true := hall c (hwritten ▸ List.mem_cons_self)
  have hhead : ∀ {d : Char} {t : Text}, (Number.integer k).written ++ rest = d :: t →
      isNumeral d = true := by
    intro d t heq
    rw [hwritten] at heq
    exact (List.cons.inj heq).1 ▸ hc
  rw [readValue, skipGap_laidOut, Value.laidOut]
  split
  · rename_i heq
    simp [hwritten] at heq
  -- a number starts like no other value
  iterate 6
    · rename_i heq
      cases hhead heq
  · rw [hread]

theorem endsNumber_of_isGap {gap rest : Text} (hgap : ∀ c ∈ gap, isGap c = true)
    (h : EndsNumber rest) : EndsNumber (gap ++ rest) := by
  cases gap with
  | nil => exact h
  | cons c gap =>
    intro d hd
    cases hd
    have hc := hgap c List.mem_cons_self
    simp only [isGap, Bool.or_eq_true, beq_iff_eq] at hc
    obtain ((rfl | rfl) | rfl) | rfl := hc
    all_goals decide

theorem endsNumber_cons {c : Char} (rest : Text)
    (h : c.isDigit = false ∧ c ≠ '.' ∧ c ≠ 'e' ∧ c ≠ 'E') : EndsNumber (c :: rest) := by
  intro d hd
  cases hd
  exact h

theorem endsNumber_laidOutItems (l : Layout) (level : Nat) (items : List Value) (rest : Text) :
    EndsNumber (Value.laidOutItems l level items ++ rest) := by
  cases items with
  | nil =>
    rw [Value.laidOutItems, List.append_assoc]
    exact endsNumber_of_isGap (l.isGap_of_mem_gap level) (endsNumber_cons _ (by decide))
  | cons v items =>
    rw [Value.laidOutItems]
    exact endsNumber_cons _ (by decide)

theorem endsNumber_laidOutMembers (l : Layout) (level : Nat) (members : List (Text × Value))
    (rest : Text) : EndsNumber (Value.laidOutMembers l level members ++ rest) := by
  cases members with
  | nil =>
    rw [Value.laidOutMembers, List.append_assoc]
    exact endsNumber_of_isGap (l.isGap_of_mem_gap level) (endsNumber_cons _ (by decide))
  | cons m members =>
    rw [Value.laidOutMembers]
    exact endsNumber_cons _ (by decide)

section Length

variable (l : Layout) (level : Nat)

theorem length_laidOut_pos (v : Value) : 0 < (v.laidOut l level).length := by
  obtain ⟨c, rest, hhead, _⟩ := Value.exists_head_laidOut l level v
  rw [hhead]
  exact Nat.succ_pos _

theorem length_laidOutItems_pos (items : List Value) :
    0 < (Value.laidOutItems l level items).length := by
  cases items <;> simp [Value.laidOutItems]

end Length

private theorem readItems_laidOut {l : Layout} {level fuel : Nat} {first : Bool} {v : Value}
    {more : Text} {done : List Source}
    (hread : readValue fuel (v.laidOut l level ++ more) = (v.source, more)) :
    readItems (fuel + 1) first (l.gap level ++ (v.laidOut l level ++ more)) done =
      continueItems fuel (v.source :: done) more := by
  have hskip : skipGap (l.gap level ++ (v.laidOut l level ++ more)) = v.laidOut l level ++ more := by
    rw [skipGap_append (l.isGap_of_mem_gap level), skipGap_laidOut]
  obtain ⟨c, rest, hhead, _, hclose⟩ := Value.exists_head_laidOut l level v
  refine readItems_item ?_ (by rw [hskip, hread])
  rw [hskip, hhead]
  exact fun heq => hclose (Option.some.inj heq)

private theorem readMembers_laidOut {l : Layout} {level fuel : Nat} {first : Bool} {key : Text}
    {v : Value} {more : Text} {done : List (Option Text × Source)} (hfuel : 0 < fuel)
    (hread : readValue fuel (v.laidOut l level ++ more) = (v.source, more)) :
    readMembers (fuel + 1) first (l.gap level ++
        (quoted key ++ (':' :: (l.colon ++ (v.laidOut l level ++ more))))) done =
      continueMembers fuel ((some key, v.source) :: done) more := by
  have hopen : skipGap (l.gap level ++
      (quoted key ++ (':' :: (l.colon ++ (v.laidOut l level ++ more))))) =
        '"' :: (key.flatMap escape ++ '"' :: ':' :: (l.colon ++ (v.laidOut l level ++ more))) := by
    rw [skipGap_append (l.isGap_of_mem_gap level), quoted_append]
    exact skipGap_cons_of_visible rfl _
  have hbehind : readValue fuel (l.colon ++ (v.laidOut l level ++ more)) = (v.source, more) := by
    rw [← hread]
    exact readValue_of_skipGap hfuel (skipGap_append l.isGap_of_mem_colon _)
  exact readMembers_member hopen (readString_quoted key _) (skipGap_cons_of_visible rfl _) hbehind

mutual

/-- The reader finds the tree of a written value, and stops behind it.  The length of the value is
    fuel enough. -/
theorem readValue_laidOut (l : Layout) : ∀ (v : Value), v.isExact = true →
    ∀ (level fuel : Nat) (rest : Text), EndsNumber rest → (v.laidOut l level).length ≤ fuel →
      readValue fuel (v.laidOut l level ++ rest) = (v.source, rest)
  | .null, _, level, fuel, rest, _, hfuel => by
    obtain ⟨fuel, rfl⟩ := Nat.exists_eq_add_of_lt ((length_laidOut_pos l level _).trans_le hfuel)
    rw [readValue, skipGap_laidOut]
    rfl
  | .bool true, _, level, fuel, rest, _, hfuel => by
    obtain ⟨fuel, rfl⟩ := Nat.exists_eq_add_of_lt ((length_laidOut_pos l level _).trans_le hfuel)
    rw [readValue, skipGap_laidOut]
    rfl
  | .bool false, _, level, fuel, rest, _, hfuel => by
    obtain ⟨fuel, rfl⟩ := Nat.exists_eq_add_of_lt ((length_laidOut_pos l level _).trans_le hfuel)
    rw [readValue, skipGap_laidOut]
    rfl
  | .number (.integer k), _, level, fuel, rest, hrest, hfuel => by
    obtain ⟨fuel, rfl⟩ := Nat.exists_eq_add_of_lt ((length_laidOut_pos l level _).trans_le hfuel)
    exact readValue_integer l level k hrest
  | .string t, _, level, fuel, rest, _, hfuel => by
    obtain ⟨fuel, rfl⟩ := Nat.exists_eq_add_of_lt ((length_laidOut_pos l level _).trans_le hfuel)
    rw [readValue, skipGap_laidOut, Value.laidOut, quoted_append]
    simp only [readString_quoted]
    rfl
  | .array [], _, level, fuel, rest, _, hfuel => by
    obtain ⟨fuel, rfl⟩ : ∃ n, fuel = n + 2 := ⟨fuel - 2, by simp [Value.laidOut] at hfuel; omega⟩
    rw [readValue, skipGap_laidOut]
    rfl
  | .array (v :: items), hexact, level, fuel, rest, _, hfuel => by
    obtain ⟨hv, hitems⟩ := Bool.and_eq_true_iff.mp hexact
    have hpos := length_laidOut_pos l (level + 1) v
    have hmore := length_laidOutItems_pos l level items
    simp only [Value.laidOut, List.length_cons, List.length_append] at hfuel
    obtain ⟨fuel, rfl⟩ : ∃ n, fuel = n + 2 := ⟨fuel - 2, by omega⟩
    have hread := readValue_laidOut l v hv (level + 1) fuel _
      (endsNumber_laidOutItems l level items rest) (by omega)
    rw [readValue, skipGap_laidOut]
    simp only [Value.laidOut, List.cons_append, List.append_assoc]
    rw [readItems_laidOut hread,
      continueItems_laidOutItems l items hitems level fuel [v.source] rest (by omega)]
    rfl
  | .object [], _, level, fuel, rest, _, hfuel => by
    obtain ⟨fuel, rfl⟩ : ∃ n, fuel = n + 2 := ⟨fuel - 2, by simp [Value.laidOut] at hfuel; omega⟩
    rw [readValue, skipGap_laidOut]
    rfl
  | .object ((key, v) :: members), hexact, level, fuel, rest, _, hfuel => by
    obtain ⟨hv, hmembers⟩ := Bool.and_eq_true_iff.mp hexact
    have hpos := length_laidOut_pos l (level + 1) v
    simp only [Value.laidOut, List.length_cons, List.length_append] at hfuel
    obtain ⟨fuel, rfl⟩ : ∃ n, fuel = n + 2 := ⟨fuel - 2, by omega⟩
    have hread := readValue_laidOut l v hv (level + 1) fuel _
      (endsNumber_laidOutMembers l level members rest) (by omega)
    rw [readValue, skipGap_laidOut]
    simp only [Value.laidOut, List.cons_append, List.append_assoc]
    rw [readMembers_laidOut (by omega) hread,
      continueMembers_laidOutMembers l members hmembers level fuel [(some key, v.source)] rest
        (by omega)]
    rfl

theorem continueItems_laidOutItems (l : Layout) : ∀ (items : List Value),
    Value.areExact items = true → ∀ (level fuel : Nat) (done : List Source) (rest : Text),
      (Value.laidOutItems l level items).length ≤ fuel →
      continueItems fuel done (Value.laidOutItems l level items ++ rest) =
        (array (done.reverse ++ Value.sources items) true, rest)
  | [], _, level, fuel, done, rest, _ => by
    have hskip : skipGap (Value.laidOutItems l level [] ++ rest) = ']' :: rest := by
      rw [Value.laidOutItems, List.append_assoc, skipGap_append (l.isGap_of_mem_gap level)]
      exact skipGap_cons_of_visible rfl rest
    rw [continueItems_of_bracket hskip, Value.sources, List.append_nil]
  | v :: items, hexact, level, fuel, done, rest, hfuel => by
    obtain ⟨hv, hitems⟩ := Bool.and_eq_true_iff.mp hexact
    simp only [Value.laidOutItems, List.length_cons, List.length_append] at hfuel
    obtain ⟨fuel, rfl⟩ : ∃ n, fuel = n + 1 := ⟨fuel - 1, by omega⟩
    have hread := readValue_laidOut l v hv (level + 1) fuel _
      (endsNumber_laidOutItems l level items rest) (by omega)
    have hskip : skipGap (Value.laidOutItems l level (v :: items) ++ rest) =
        ',' :: (l.gap (level + 1) ++
          (v.laidOut l (level + 1) ++ (Value.laidOutItems l level items ++ rest))) := by
      simp only [Value.laidOutItems, List.cons_append, List.append_assoc]
      exact skipGap_cons_of_visible rfl _
    rw [continueItems_of_comma hskip, readItems_laidOut hread,
      continueItems_laidOutItems l items hitems level fuel (v.source :: done) rest (by omega)]
    simp [Value.sources]

theorem continueMembers_laidOutMembers (l : Layout) : ∀ (members : List (Text × Value)),
    Value.membersExact members = true →
    ∀ (level fuel : Nat) (done : List (Option Text × Source)) (rest : Text),
      (Value.laidOutMembers l level members).length ≤ fuel →
      continueMembers fuel done (Value.laidOutMembers l level members ++ rest) =
        (object (done.reverse ++ Value.memberSources members) true, rest)
  | [], _, level, fuel, done, rest, _ => by
    have hskip : skipGap (Value.laidOutMembers l level [] ++ rest) = '\x7d' :: rest := by
      rw [Value.laidOutMembers, List.append_assoc, skipGap_append (l.isGap_of_mem_gap level)]
      exact skipGap_cons_of_visible rfl rest
    rw [continueMembers_of_brace hskip, Value.memberSources, List.append_nil]
  | (key, v) :: members, hexact, level, fuel, done, rest, hfuel => by
    obtain ⟨hv, hmembers⟩ := Bool.and_eq_true_iff.mp hexact
    have hpos := length_laidOut_pos l (level + 1) v
    simp only [Value.laidOutMembers, List.length_cons, List.length_append] at hfuel
    obtain ⟨fuel, rfl⟩ : ∃ n, fuel = n + 1 := ⟨fuel - 1, by omega⟩
    have hread := readValue_laidOut l v hv (level + 1) fuel _
      (endsNumber_laidOutMembers l level members rest) (by omega)
    have hskip : skipGap (Value.laidOutMembers l level ((key, v) :: members) ++ rest) =
        ',' :: (l.gap (level + 1) ++ (quoted key ++ (':' :: (l.colon ++
          (v.laidOut l (level + 1) ++ (Value.laidOutMembers l level members ++ rest)))))) := by
      simp only [Value.laidOutMembers, List.cons_append, List.append_assoc]
      exact skipGap_cons_of_visible rfl _
    rw [continueMembers_of_comma hskip, readMembers_laidOut (by omega) hread,
      continueMembers_laidOutMembers l members hmembers level fuel ((some key, v.source) :: done)
        rest (by omega)]
    simp [Value.memberSources]

end

mutual

/-- Nothing is broken in the tree of a written value. -/
theorem isWhole_source : ∀ v : Value, v.isExact = true → v.source.isWhole = true
  | .null, _ => rfl
  | .bool _, _ => rfl
  | .number (.integer _), _ => rfl
  | .string _, _ => rfl
  | .array items, h => by
    rw [Value.source, isWhole, areWhole_sources items h, Bool.and_true]
  | .object members, h => by
    rw [Value.source, isWhole, membersWhole_memberSources members h, Bool.and_true]

theorem areWhole_sources : ∀ items : List Value, Value.areExact items = true →
    areWhole (Value.sources items) = true
  | [], _ => rfl
  | v :: rest, h => by
    obtain ⟨hv, hrest⟩ := Bool.and_eq_true_iff.mp h
    rw [Value.sources, areWhole, isWhole_source v hv, areWhole_sources rest hrest, Bool.and_true]

theorem membersWhole_memberSources : ∀ members : List (Text × Value),
    Value.membersExact members = true → membersWhole (Value.memberSources members) = true
  | [], _ => rfl
  | (_, v) :: rest, h => by
    obtain ⟨hv, hrest⟩ := Bool.and_eq_true_iff.mp h
    rw [Value.memberSources, membersWhole, isWhole_source v hv,
      membersWhole_memberSources rest hrest, Bool.and_true]

end

end Source

/-- A written value without doubles is read as its tree, also if white space follows. -/
theorem Document.read_laidOut {v : Value} (h : v.isExact = true) (l : Layout) {gap : Text}
    (hgap : ∀ c ∈ gap, isGap c = true) : Document.read (v.laidOut l 0 ++ gap) = ⟨v.source, true⟩ := by
  have hends : EndsNumber gap := by
    have happend := Source.endsNumber_of_isGap hgap endsNumber_nil
    rwa [List.append_nil] at happend
  have hread := Source.readValue_laidOut l v h 0 (2 * (v.laidOut l 0 ++ gap).length + 2) gap hends
    (by rw [List.length_append]; omega)
  have hskip : skipGap gap = [] := List.dropWhile_eq_nil_iff.mpr hgap
  rw [Document.read, hread]
  simp only [hskip, List.isEmpty_nil]

theorem Document.read_compact {v : Value} (h : v.isExact = true) :
    Document.read v.compact = ⟨v.source, true⟩ := by
  have hread : Document.read (v.laidOut .compact 0 ++ []) = _ :=
    Document.read_laidOut h .compact (List.forall_mem_nil _)
  rwa [List.append_nil, Value.laidOut_compact] at hread

theorem Document.read_pretty {v : Value} (h : v.isExact = true) :
    Document.read v.pretty = ⟨v.source, true⟩ := by
  have hread : Document.read (v.laidOut .pretty 0 ++ []) = _ :=
    Document.read_laidOut h .pretty (List.forall_mem_nil _)
  rwa [List.append_nil, Value.laidOut_pretty] at hread

theorem Document.whole?_read_pretty {v : Value} (h : v.isExact = true) :
    (Document.read v.pretty).whole? = some v.source := by
  rw [Document.read_pretty h, Document.whole?, Source.isWhole_source v h]
  rfl

end ScenarioLint.Json
