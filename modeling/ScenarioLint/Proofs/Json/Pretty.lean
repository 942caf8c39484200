import ScenarioLint.Json.Value
import ScenarioLint.Proofs.Text.Lines
import ScenarioLint.Proofs.Text.Space

/-!
The lines of a written JSON value.  Behind its indentation, each of them starts with a token, and
a token is neither the mark of a docstring nor a code fence.
-/

namespace ScenarioLint

/-- A character of a written number. -/
def isNumeral (c : Char) : Bool :=
  c.isDigit || c == '-' || c == '+' || c == '.' || c == 'e'

theorem isNumeral_of_mem_ofNat {n : Nat} {c : Char} (h : c ∈ Text.ofNat n) : isNumeral c = true := by
  have hdigit := Text.isDigit_of_mem_ofNat h
  simp [isNumeral, hdigit]

theorem ofNat_ne_nil (n : Nat) : Text.ofNat n ≠ [] :=
  Nat.toDigits_ne_nil

namespace Binary64

theorem isNumeral_of_mem_withPoint {ds : Text} (hds : ∀ c ∈ ds, isNumeral c = true) {c : Char}
    (h : c ∈ withPoint ds) : isNumeral c = true := by
  match ds with
  | [] => cases h
  | [d] => exact hds c h
  | d :: next :: rest =>
    rw [withPoint, List.mem_cons, List.mem_cons] at h
    · rcases h with rfl | rfl | h
      · exact hds _ List.mem_cons_self
      · rfl
      · exact hds _ (List.mem_cons_of_mem _ h)
    · simp

/-- The body of a written double: zero, all places, or one place and an exponent. -/
private theorem body_spec (digits : Nat) (ds : Text) (point : Int)
    (hds : ∀ c ∈ ds, isNumeral c = true) :
    ∀ body : Text, body =
      (if digits = 0 then "0.0".toList
      else if -5 < point && point ≤ 0 then
        "0.".toList ++ List.replicate (-point).toNat '0' ++ ds
      else if 0 < point && point ≤ 16 then
        if ds.length ≤ point.toNat then
          ds ++ List.replicate (point.toNat - ds.length) '0' ++ ".0".toList
        else ds.take point.toNat ++ '.' :: ds.drop point.toNat
      else
        withPoint ds ++ ['e', if 0 ≤ point - 1 then '+' else '-'] ++
          Text.ofNat (point - 1).natAbs) →
      body ≠ [] ∧ ∀ c ∈ body, isNumeral c = true := by
  intro body hbody
  have hzeros : ∀ n, ∀ c ∈ List.replicate n '0', isNumeral c = true := by
    intro n c hc
    rw [List.eq_of_mem_replicate hc]
    rfl
  have hfront : ∀ c ∈ "0.".toList, isNumeral c = true := by decide
  have hback : ∀ c ∈ ".0".toList, isNumeral c = true := by decide
  split at hbody
  · subst hbody
    decide
  split at hbody
  · subst hbody
    rw [List.forall_mem_append, List.forall_mem_append]
    exact ⟨by simp, ⟨hfront, hzeros _⟩, hds⟩
  split at hbody
  · split at hbody
    · subst hbody
      rw [List.forall_mem_append, List.forall_mem_append]
      exact ⟨by simp, ⟨hds, hzeros _⟩, hback⟩
    · subst hbody
      rw [List.forall_mem_append, List.forall_mem_cons]
      exact ⟨by simp, fun c hc => hds c (List.mem_of_mem_take hc), rfl,
        fun c hc => hds c (List.mem_of_mem_drop hc)⟩
  · subst hbody
    have hsign : isNumeral (if 0 ≤ point - 1 then '+' else '-') = true := by
      split <;> rfl
    rw [List.forall_mem_append, List.forall_mem_append, List.forall_mem_cons,
      List.forall_mem_singleton]
    exact ⟨by simp, ⟨fun c hc => isNumeral_of_mem_withPoint hds hc, rfl, hsign⟩,
      fun c hc => isNumeral_of_mem_ofNat hc⟩

/-- A written double is not empty and holds characters of numbers only. -/
theorem written_spec (x : Binary64) : x.written ≠ [] ∧ ∀ c ∈ x.written, isNumeral c = true := by
  rw [written]
  obtain ⟨digits, exponent⟩ := x.shortest
  have hds : ∀ c ∈ ((Text.ofNat digits).reverse.dropWhile (· == '0')).reverse,
      isNumeral c = true := by
    intro c hc
    have hmem := (List.dropWhile_sublist _).subset (List.mem_reverse.mp hc)
    exact isNumeral_of_mem_ofNat (List.mem_reverse.mp hmem)
  obtain ⟨hne, hall⟩ := body_spec digits _ ((Text.ofNat digits).length + exponent) hds _ rfl
  refine ⟨by simp only [ne_eq, List.append_eq_nil_iff, not_and]; exact fun _ => hne, ?_⟩
  intro c hc
  rcases List.mem_append.mp hc with hc | hc
  · split at hc
    · simp only [List.mem_singleton] at hc
      rw [hc]
      rfl
    · cases hc
  · exact hall c hc

end Binary64

namespace Json

/-- A text starts with a token: with a visible character that is neither a quote nor a backtick, or
    with a whole string in quotes and no third quote behind it. -/
def StartsToken (t : Text) : Prop :=
  (∃ c rest, t = c :: rest ∧ isSpace c = false ∧ c ≠ '"' ∧ c ≠ '\x60') ∨
    ∃ s rest, t = quoted s ++ rest ∧ rest.head? ≠ some '"'

theorem StartsToken.head {t : Text} (h : StartsToken t) :
    ∃ c, t.head? = some c ∧ isSpace c = false ∧ c ≠ '\x60' := by
  obtain ⟨c, rest, rfl, hspace, _, htick⟩ | ⟨s, rest, rfl, _⟩ := h
  · exact ⟨c, rfl, hspace, htick⟩
  · exact ⟨'"', rfl, rfl, by decide⟩

theorem StartsToken.dropWhile_eq {t : Text} (h : StartsToken t) :
    t.dropWhile (· == ' ') = t := by
  obtain ⟨c, hhead, hspace, _⟩ := h.head
  obtain ⟨rest, rfl⟩ := List.head?_eq_some_iff.mp hhead
  have hc : c ≠ ' ' := by
    rintro rfl
    cases hspace
  rw [List.dropWhile_cons_of_neg (by simpa using hc)]

theorem head?_escape (c : Char) : ∃ d, (escape c).head? = some d ∧ d ≠ '"' := by
  rw [escape]
  by_cases hquote : c = '"'
  · exact ⟨'\\', by simp [hquote], by decide⟩
  rw [if_neg hquote]
  repeat' split
  all_goals first
    | exact ⟨'\\', rfl, by decide⟩
    | exact ⟨c, rfl, hquote⟩

/-- A token does not start with three quotes. -/
theorem StartsToken.not_three_quotes {t : Text} (h : StartsToken t) :
    ¬ ['"', '"', '"'] <+: t := by
  rintro ⟨more, hmore⟩
  obtain ⟨c, rest, rfl, _, hquote, _⟩ | ⟨s, rest, rfl, hrest⟩ := h
  · exact hquote (List.cons.inj hmore).1.symm
  · cases s with
    | nil =>
      apply hrest
      simp only [quoted, List.flatMap_nil, List.nil_append, List.cons_append, List.cons.injEq,
        true_and] at hmore
      rw [← hmore]
      rfl
    | cons c s =>
      obtain ⟨d, hhead, hd⟩ := head?_escape c
      obtain ⟨tail, htail⟩ := List.head?_eq_some_iff.mp hhead
      simp only [quoted, List.flatMap_cons, htail, List.cons_append, List.cons.injEq,
        true_and] at hmore
      exact hd hmore.1.symm

private theorem hexDigit_ne : ∀ n < 16, '\n' ≠ hexDigit n ∧ '\r' ≠ hexDigit n := by
  decide

/-- A written character holds neither a line feed nor a carriage return. -/
theorem ending_not_mem_escape (c : Char) : '\n' ∉ escape c ∧ '\r' ∉ escape c := by
  rw [escape]
  by_cases hfeed : c = '\n'
  · subst hfeed
    decide
  by_cases hreturn : c = '\r'
  · subst hreturn
    decide
  by_cases hcontrol : c.toNat < 32
  · obtain ⟨hhigh, hhighReturn⟩ := hexDigit_ne (c.toNat / 16) (by omega)
    obtain ⟨hlow, hlowReturn⟩ := hexDigit_ne (c.toNat % 16) (by omega)
    rw [if_pos hcontrol]
    repeat' split
    all_goals simp [hhigh, hlow, hhighReturn, hlowReturn]
  · rw [if_neg hcontrol]
    repeat' split
    all_goals simp [Ne.symm hfeed, Ne.symm hreturn]

theorem ending_not_mem_quoted (t : Text) : '\n' ∉ quoted t ∧ '\r' ∉ quoted t := by
  simp [quoted, ending_not_mem_escape]

theorem Number.written_spec (n : Number) :
    n.written ≠ [] ∧ ∀ c ∈ n.written, isNumeral c = true := by
  match n with
  | .integer (.ofNat n) => exact ⟨ofNat_ne_nil n, fun _ => isNumeral_of_mem_ofNat⟩
  | .integer (.negSucc n) =>
    refine ⟨by simp [Number.written], fun c hc => ?_⟩
    rcases List.mem_cons.mp hc with rfl | hc
    · rfl
    · exact isNumeral_of_mem_ofNat hc
  | .real x => exact x.written_spec

theorem ending_not_mem_number (n : Number) : '\n' ∉ n.written ∧ '\r' ∉ n.written := by
  have hall := n.written_spec.2
  exact ⟨fun h => absurd (hall _ h) (by decide), fun h => absurd (hall _ h) (by decide)⟩

theorem visible_of_isNumeral {c : Char} (h : isNumeral c = true) :
    isSpace c = false ∧ c ≠ '"' ∧ c ≠ '\x60' := by
  refine ⟨?_, fun heq => ?_, fun heq => ?_⟩
  rotate_left
  · rw [heq] at h
    cases h
  · rw [heq] at h
    cases h
  simp only [isNumeral, Bool.or_eq_true, beq_iff_eq] at h
  obtain (((hdigit | rfl) | rfl) | rfl) | rfl := h
  · rw [Char.isDigit, Bool.and_eq_true, decide_eq_true_eq, decide_eq_true_eq] at hdigit
    exact Text.isSpace_of_between hdigit.1 hdigit.2 (by decide)
  all_goals rfl

namespace Value

/-- A written value starts with a token, whatever follows it but a quote. -/
theorem startsToken_prettyAt (level : Nat) (v : Value) {more : Text}
    (hmore : more.head? ≠ some '"') : StartsToken (v.prettyAt level ++ more) := by
  match v with
  | null => exact .inl ⟨'n', _, rfl, by decide⟩
  | bool true => exact .inl ⟨'t', _, rfl, by decide⟩
  | bool false => exact .inl ⟨'f', _, rfl, by decide⟩
  | number n =>
    obtain ⟨hne, hall⟩ := n.written_spec
    obtain ⟨c, rest, hwritten⟩ := List.exists_cons_of_ne_nil hne
    left
    refine ⟨c, rest ++ more, by rw [prettyAt, hwritten]; rfl, visible_of_isNumeral (hall c ?_)⟩
    rw [hwritten]
    exact List.mem_cons_self
  | string t => exact .inr ⟨t, more, by rw [prettyAt], hmore⟩
  | array [] => exact .inl ⟨'[', _, by simp [prettyAt]; rfl, by decide⟩
  | array (_ :: _) => exact .inl ⟨'[', _, by rw [prettyAt]; rfl, by decide⟩
  | object [] => exact .inl ⟨'\x7b', _, by simp [prettyAt]; rfl, by decide⟩
  | object ((_, _) :: _) => exact .inl ⟨'\x7b', _, by rw [prettyAt]; rfl, by decide⟩

/-- Every line feed of a text is followed by spaces and a token, where `more` follows the text. -/
def TokenLines (t more : Text) : Prop :=
  ∀ before behind, t = before ++ '\n' :: behind →
    StartsToken ((behind ++ more).dropWhile (· == ' '))

theorem tokenLines_of_not_mem {t : Text} (h : '\n' ∉ t) (more : Text) : TokenLines t more := by
  rintro before behind rfl
  simp at h

/-- A character of two texts in a row belongs to one of them. -/
private theorem split_of_append_eq {s t before behind : Text} {c : Char}
    (h : s ++ t = before ++ c :: behind) :
    (∃ mid, t = mid ++ c :: behind) ∨ ∃ mid, s = before ++ c :: mid ∧ behind = mid ++ t := by
  obtain ⟨mid, rfl, hmid⟩ | ⟨mid, rfl, hmid⟩ := List.append_eq_append_iff.mp h
  · exact .inl ⟨mid, hmid⟩
  · cases mid with
    | nil => exact .inl ⟨[], hmid.symm⟩
    | cons d mid =>
      obtain ⟨rfl, hbehind⟩ := List.cons.inj hmid
      exact .inr ⟨mid, rfl, hbehind⟩

theorem TokenLines.append {s t more : Text} (hs : TokenLines s (t ++ more))
    (ht : TokenLines t more) : TokenLines (s ++ t) more := by
  intro before behind h
  obtain ⟨mid, hmid⟩ | ⟨mid, rfl, rfl⟩ := split_of_append_eq h
  · exact ht mid behind hmid
  · rw [List.append_assoc]
    exact hs before mid rfl

theorem tokenLines_newline (level : Nat) {more : Text} (h : StartsToken more) :
    TokenLines (newline level) more := by
  intro before behind heq
  cases before with
  | nil =>
    rw [← (List.cons.inj heq).2, List.dropWhile_append_of_pos, h.dropWhile_eq]
    · exact h
    · intro c hc
      simp [List.eq_of_mem_replicate hc]
  | cons c before =>
    have hmem : '\n' ∈ List.replicate (2 * level) ' ' := by
      rw [(List.cons.inj heq).2]
      simp
    exact absurd (List.eq_of_mem_replicate hmem) (by decide)

theorem head?_prettyItems (level : Nat) (items : List Value) (more : Text) :
    (prettyItems level items ++ more).head? ≠ some '"' := by
  cases items <;> simp [prettyItems, newline]

theorem head?_prettyMembers (level : Nat) (members : List (Text × Value)) (more : Text) :
    (prettyMembers level members ++ more).head? ≠ some '"' := by
  cases members <;> simp [prettyMembers, newline]

private theorem startsToken_cons {c : Char} (hspace : isSpace c = false) (hquote : c ≠ '"')
    (htick : c ≠ '\x60') (more : Text) : StartsToken (c :: more) :=
  .inl ⟨c, more, rfl, hspace, hquote, htick⟩

private theorem tokenLines_key {level : Nat} {key : Text} {v : Value} {more : Text}
    (hv : TokenLines (v.prettyAt level) more) :
    TokenLines (newline level ++ quoted key ++ ": ".toList ++ v.prettyAt level) more := by
  have hkey : StartsToken (quoted key ++ (": ".toList ++ (v.prettyAt level ++ more))) :=
    .inr ⟨key, _, rfl, by simp⟩
  simp only [List.append_assoc]
  refine (tokenLines_newline level (by simpa using hkey)).append ?_
  refine (tokenLines_of_not_mem (ending_not_mem_quoted key).1 _).append ?_
  exact (tokenLines_of_not_mem (by decide) _).append hv

mutual

/-- Each line of a written value starts with a token behind its indentation, if no quote follows
    the value. -/
theorem tokenLines_prettyAt (level : Nat) :
    ∀ (v : Value) (more : Text), more.head? ≠ some '"' → TokenLines (v.prettyAt level) more
  | null, more, _ => tokenLines_of_not_mem (by simp [prettyAt]) more
  | bool true, more, _ => tokenLines_of_not_mem (by simp [prettyAt]) more
  | bool false, more, _ => tokenLines_of_not_mem (by simp [prettyAt]) more
  | number n, more, _ =>
    tokenLines_of_not_mem (by rw [prettyAt]; exact (ending_not_mem_number n).1) more
  | string t, more, _ =>
    tokenLines_of_not_mem (by rw [prettyAt]; exact (ending_not_mem_quoted t).1) more
  | array [], more, _ => tokenLines_of_not_mem (by simp [prettyAt]) more
  | array (v :: rest), more, _ => by
    have hrest := head?_prettyItems level rest more
    have hitems := tokenLines_prettyItems level rest more
    have hv := tokenLines_prettyAt (level + 1) v _ hrest
    rw [prettyAt, ← List.singleton_append, List.append_assoc]
    refine (tokenLines_of_not_mem (by simp) _).append ?_
    refine (tokenLines_newline _ ?_).append (hv.append hitems)
    rw [List.append_assoc]
    exact startsToken_prettyAt _ v hrest
  | object [], more, _ => tokenLines_of_not_mem (by simp [prettyAt]) more
  | object ((key, v) :: rest), more, _ => by
    have hrest := head?_prettyMembers level rest more
    have hmembers := tokenLines_prettyMembers level rest more
    have hv := tokenLines_prettyAt (level + 1) v _ hrest
    rw [prettyAt, ← List.singleton_append]
    exact (tokenLines_of_not_mem (by simp) _).append ((tokenLines_key hv).append hmembers)

theorem tokenLines_prettyItems (level : Nat) :
    ∀ (items : List Value) (more : Text), TokenLines (prettyItems level items) more
  | [], more => by
    rw [prettyItems]
    refine (tokenLines_newline level ?_).append (tokenLines_of_not_mem (by simp) more)
    exact startsToken_cons rfl (by decide) (by decide) _
  | v :: rest, more => by
    have hrest := head?_prettyItems level rest more
    have hitems := tokenLines_prettyItems level rest more
    have hv := tokenLines_prettyAt (level + 1) v _ hrest
    rw [prettyItems, ← List.singleton_append, List.append_assoc]
    refine (tokenLines_of_not_mem (by simp) _).append ?_
    refine (tokenLines_newline _ ?_).append (hv.append hitems)
    rw [List.append_assoc]
    exact startsToken_prettyAt _ v hrest

theorem tokenLines_prettyMembers (level : Nat) :
    ∀ (members : List (Text × Value)) (more : Text), TokenLines (prettyMembers level members) more
  | [], more => by
    rw [prettyMembers]
    refine (tokenLines_newline level ?_).append (tokenLines_of_not_mem (by simp) more)
    exact startsToken_cons rfl (by decide) (by decide) _
  | (key, v) :: rest, more => by
    have hrest := head?_prettyMembers level rest more
    have hmembers := tokenLines_prettyMembers level rest more
    have hv := tokenLines_prettyAt (level + 1) v _ hrest
    rw [prettyMembers, ← List.singleton_append]
    exact (tokenLines_of_not_mem (by simp) _).append ((tokenLines_key hv).append hmembers)

end

mutual

/-- A written value holds no carriage return. -/
theorem return_not_mem_prettyAt (level : Nat) : ∀ v : Value, '\r' ∉ v.prettyAt level
  | null => by simp [prettyAt]
  | bool true => by simp [prettyAt]
  | bool false => by simp [prettyAt]
  | number n => by
    rw [prettyAt]
    exact (ending_not_mem_number n).2
  | string t => by
    rw [prettyAt]
    exact (ending_not_mem_quoted t).2
  | array [] => by simp [prettyAt]
  | array (v :: rest) => by
    have hv := return_not_mem_prettyAt (level + 1) v
    have hrest := return_not_mem_prettyItems level rest
    simp [prettyAt, newline, hv, hrest]
  | object [] => by simp [prettyAt]
  | object ((key, v) :: rest) => by
    have hv := return_not_mem_prettyAt (level + 1) v
    have hrest := return_not_mem_prettyMembers level rest
    simp [prettyAt, newline, hv, hrest, ending_not_mem_quoted]

theorem return_not_mem_prettyItems (level : Nat) :
    ∀ items : List Value, '\r' ∉ prettyItems level items
  | [] => by simp [prettyItems, newline]
  | v :: rest => by
    have hv := return_not_mem_prettyAt (level + 1) v
    have hrest := return_not_mem_prettyItems level rest
    simp [prettyItems, newline, hv, hrest]

theorem return_not_mem_prettyMembers (level : Nat) :
    ∀ members : List (Text × Value), '\r' ∉ prettyMembers level members
  | [] => by simp [prettyMembers, newline]
  | (key, v) :: rest => by
    have hv := return_not_mem_prettyAt (level + 1) v
    have hrest := return_not_mem_prettyMembers level rest
    simp [prettyMembers, newline, hv, hrest, ending_not_mem_quoted]

end

private theorem startsToken_of_mem_pieces {v : Value} {piece : Text}
    (h : piece ∈ Text.pieces '\n' v.pretty) :
    ∃ more, StartsToken ((piece ++ more).dropWhile (· == ' ')) ∧
      (more = [] ∨ more.head? = some '\n') := by
  obtain ⟨before, behind, hsplit, hbefore, hbehind⟩ := Text.exists_of_mem_pieces h
  refine ⟨behind, ?_, hbehind⟩
  rcases hbefore with rfl | hbefore
  · have hstart : StartsToken (v.prettyAt 0 ++ []) := startsToken_prettyAt 0 v (by simp)
    rw [List.append_nil, ← pretty, hsplit, List.nil_append] at hstart
    rwa [hstart.dropWhile_eq]
  · obtain ⟨front, rfl⟩ := List.getLast?_eq_some_iff.mp hbefore
    have hlines := tokenLines_prettyAt 0 v [] (by simp) front (piece ++ behind)
    rw [List.append_nil] at hlines
    apply hlines
    rw [← pretty, hsplit]
    simp

private theorem return_not_mem_of_mem_pieces {v : Value} {piece : Text}
    (h : piece ∈ Text.pieces '\n' v.pretty) : '\r' ∉ piece := by
  obtain ⟨before, behind, hsplit, _, _⟩ := Text.exists_of_mem_pieces h
  have hnot := return_not_mem_prettyAt 0 v
  rw [← pretty, hsplit] at hnot
  simp only [List.mem_append, not_or] at hnot
  exact hnot.1.2

/-- The token behind the spaces of a line belongs to the line: neither a line feed nor the end of
    the text is one. -/
private theorem dropWhile_append_of_startsToken {line more : Text}
    (h : StartsToken ((line ++ more).dropWhile (· == ' ')))
    (hmore : more = [] ∨ more.head? = some '\n') :
    (line ++ more).dropWhile (· == ' ') = line.dropWhile (· == ' ') ++ more ∧
      ∃ c, (line.dropWhile (· == ' ')).head? = some c ∧ isSpace c = false ∧ c ≠ '\x60' := by
  obtain ⟨c, hhead, hspace, htick⟩ := h.head
  rw [List.dropWhile_append] at hhead ⊢
  split at hhead
  · exfalso
    rcases hmore with rfl | hmore
    · simp at hhead
    · obtain ⟨rest, rfl⟩ := List.head?_eq_some_iff.mp hmore
      rw [List.dropWhile_cons_of_neg (by decide)] at hhead
      cases hhead
      cases hspace
  · rename_i hne
    have hcons : line.dropWhile (· == ' ') ≠ [] := by simpa using hne
    obtain ⟨d, rest, hrest⟩ := List.exists_cons_of_ne_nil hcons
    rw [if_neg hne]
    rw [hrest] at hhead ⊢
    exact ⟨rfl, c, hhead, hspace, htick⟩

/-- The lines of a written value are all that stands between its line feeds. -/
theorem lines_pretty (v : Value) : v.pretty.lines = Text.pieces '\n' v.pretty := by
  have hpieces : ∀ piece ∈ Text.pieces '\n' v.pretty, piece.dropReturn = piece ∧ piece ≠ [] := by
    intro piece hpiece
    refine ⟨Text.dropReturn_of_not_mem (return_not_mem_of_mem_pieces hpiece), ?_⟩
    rintro rfl
    obtain ⟨more, htoken, hmore⟩ := startsToken_of_mem_pieces hpiece
    obtain ⟨_, c, hhead, _⟩ := dropWhile_append_of_startsToken htoken hmore
    cases hhead
  have hne := Text.pieces_ne_nil '\n' v.pretty
  rw [Text.lines]
  generalize Text.pieces '\n' v.pretty = pieces at hpieces hne
  obtain ⟨front, last, rfl⟩ := (List.eq_nil_or_concat' pieces).resolve_left hne
  obtain ⟨hfront, hlast⟩ := List.forall_mem_append.mp hpieces
  have hvisible : last.isEmpty = false := by
    simpa using (List.forall_mem_singleton.mp hlast).2
  have hkept : front.map Text.dropReturn = front :=
    (List.map_congr_left fun piece hpiece => (hfront piece hpiece).1).trans (List.map_id front)
  simp only [List.dropLast_concat, List.getLastD_concat, hvisible, hkept]
  rfl

/-- Where a visible character stands behind the spaces of a text, these are all its margin. -/
theorem trimStart_eq_dropWhile {t : Text} {c : Char}
    (hhead : (t.dropWhile (· == ' ')).head? = some c) (hspace : isSpace c = false) :
    t.trimStart = t.dropWhile (· == ' ') := by
  have hblank : Text.isBlank (t.takeWhile (· == ' ')) = true := by
    rw [Text.isBlank_iff]
    intro d hd
    have hd := List.mem_takeWhile_imp hd
    rw [beq_iff_eq.mp hd]
    rfl
  have hvisible : ∀ d, (t.dropWhile (· == ' ')).head? = some d → isSpace d = false := by
    intro d hd
    rw [hhead] at hd
    rwa [← Option.some.inj hd]
  have happend := Text.trimStart_append_of_head hblank hvisible
  rwa [List.takeWhile_append_dropWhile] at happend

/-- A line of a written value ends without a carriage return.  Behind its indentation it is not
    empty, and it starts neither with a backtick nor with three quotes. -/
theorem line_spec {v : Value} {line : Text} (h : line ∈ v.pretty.lines) :
    '\r' ∉ line ∧ (∃ c, line.trimStart.head? = some c ∧ c ≠ '\x60') ∧
      ¬ ['"', '"', '"'] <+: line.trimStart := by
  rw [lines_pretty] at h
  obtain ⟨more, htoken, hmore⟩ := startsToken_of_mem_pieces h
  obtain ⟨hsplit, c, hhead, hspace, htick⟩ := dropWhile_append_of_startsToken htoken hmore
  have htrim := trimStart_eq_dropWhile hhead hspace
  refine ⟨return_not_mem_of_mem_pieces h, ⟨c, htrim ▸ hhead, htick⟩, fun hquotes => ?_⟩
  apply htoken.not_three_quotes
  rw [hsplit, ← htrim]
  exact hquotes.trans (List.prefix_append _ _)

/-- What a written value starts with. -/
theorem exists_head_pretty (v : Value) : ∃ c rest, v.pretty = c :: rest ∧
    (c ∈ ['n', 't', 'f', '"', '[', '\x7b'] ∨ isNumeral c = true) := by
  rw [pretty]
  match v with
  | null => exact ⟨'n', _, rfl, .inl (by decide)⟩
  | bool true => exact ⟨'t', _, rfl, .inl (by decide)⟩
  | bool false => exact ⟨'f', _, rfl, .inl (by decide)⟩
  | number n =>
    obtain ⟨hne, hall⟩ := n.written_spec
    obtain ⟨c, rest, hwritten⟩ := List.exists_cons_of_ne_nil hne
    refine ⟨c, rest, by rw [prettyAt, hwritten], .inr (hall c ?_)⟩
    rw [hwritten]
    exact List.mem_cons_self
  | string t => exact ⟨'"', _, by rw [prettyAt]; rfl, .inl (by decide)⟩
  | array [] => exact ⟨'[', _, by rw [prettyAt]; rfl, .inl (by decide)⟩
  | array (_ :: _) => exact ⟨'[', _, by rw [prettyAt], .inl (by decide)⟩
  | object [] => exact ⟨'\x7b', _, by rw [prettyAt]; rfl, .inl (by decide)⟩
  | object ((_, _) :: _) => exact ⟨'\x7b', _, by rw [prettyAt], .inl (by decide)⟩

/-- What a token starts with.  It is no capital letter. -/
def isOpening (c : Char) : Bool :=
  c ∈ ['n', 't', 'f', '"', '[', ']', '\x7b', '\x7d'] || isNumeral c

theorem visible_of_isOpening {c : Char} (h : isOpening c = true) : isSpace c = false ∧ c ≠ 'T' := by
  rw [isOpening, Bool.or_eq_true, decide_eq_true_eq] at h
  rcases h with h | h
  · have hall : ∀ d ∈ ['n', 't', 'f', '"', '[', ']', '\x7b', '\x7d'], isSpace d = false ∧ d ≠ 'T' := by
      decide
    exact hall c h
  · refine ⟨(visible_of_isNumeral h).1, ?_⟩
    rintro rfl
    cases h

/-- Every line feed of a text is followed by spaces and the start of a token. -/
def OpenedLines (t : Text) : Prop :=
  ∀ before behind, t = before ++ '\n' :: behind →
    ∃ n c rest, behind = List.replicate n ' ' ++ c :: rest ∧ isOpening c = true

theorem openedLines_of_not_mem {t : Text} (h : '\n' ∉ t) : OpenedLines t := by
  rintro before behind rfl
  simp at h

theorem OpenedLines.append {s t : Text} (hs : OpenedLines s) (ht : OpenedLines t) :
    OpenedLines (s ++ t) := by
  intro before behind h
  obtain ⟨mid, hmid⟩ | ⟨mid, rfl, rfl⟩ := split_of_append_eq h
  · exact ht mid behind hmid
  · obtain ⟨n, c, rest, rfl, hc⟩ := hs before mid rfl
    exact ⟨n, c, rest ++ t, by rw [List.append_assoc, List.cons_append], hc⟩

/-- A new line that goes on with a token. -/
theorem openedLines_newline {level : Nat} {t : Text} {c : Char} {rest : Text} (ht : t = c :: rest)
    (hc : isOpening c = true) (h : OpenedLines t) : OpenedLines (newline level ++ t) := by
  intro before behind heq
  rw [newline, List.cons_append] at heq
  cases before with
  | nil => exact ⟨2 * level, c, rest, by rw [← (List.cons.inj heq).2, ht], hc⟩
  | cons _ before =>
    obtain ⟨mid, hmid⟩ | ⟨mid, hspaces, _⟩ := split_of_append_eq (List.cons.inj heq).2
    · exact h mid behind hmid
    · have hfeed : '\n' ∈ List.replicate (2 * level) ' ' := by simp [hspaces]
      exact absurd (List.eq_of_mem_replicate hfeed) (by decide)

theorem exists_head_prettyAt (level : Nat) (v : Value) :
    ∃ c rest, v.prettyAt level = c :: rest ∧ isOpening c = true ∧ c ≠ ']' := by
  match v with
  | null => exact ⟨'n', _, rfl, by decide⟩
  | bool true => exact ⟨'t', _, rfl, by decide⟩
  | bool false => exact ⟨'f', _, rfl, by decide⟩
  | number n =>
    obtain ⟨hne, hall⟩ := n.written_spec
    obtain ⟨c, rest, hwritten⟩ := List.exists_cons_of_ne_nil hne
    have hc := hall c (hwritten ▸ List.mem_cons_self)
    refine ⟨c, rest, by rw [prettyAt, hwritten], by rw [isOpening, hc, Bool.or_true], ?_⟩
    rintro rfl
    cases hc
  | string t => exact ⟨'"', _, by rw [prettyAt]; rfl, by decide⟩
  | array [] => exact ⟨'[', _, by rw [prettyAt]; rfl, by decide⟩
  | array (_ :: _) => exact ⟨'[', _, by rw [prettyAt], by decide⟩
  | object [] => exact ⟨'\x7b', _, by rw [prettyAt]; rfl, by decide⟩
  | object ((_, _) :: _) => exact ⟨'\x7b', _, by rw [prettyAt], by decide⟩

private theorem openedLines_item {level : Nat} {v : Value} (hv : OpenedLines (v.prettyAt level)) :
    OpenedLines (newline level ++ v.prettyAt level) := by
  obtain ⟨c, rest, hhead, hc, _⟩ := exists_head_prettyAt level v
  exact openedLines_newline hhead hc hv

private theorem openedLines_member {level : Nat} (key : Text) {v : Value}
    (hv : OpenedLines (v.prettyAt level)) :
    OpenedLines (newline level ++ quoted key ++ ": ".toList ++ v.prettyAt level) := by
  have hkey : OpenedLines (quoted key) := openedLines_of_not_mem (ending_not_mem_quoted key).1
  exact ((openedLines_newline rfl rfl hkey).append (openedLines_of_not_mem (by decide))).append hv

mutual

theorem openedLines_prettyAt (level : Nat) : ∀ v : Value, OpenedLines (v.prettyAt level)
  | null => openedLines_of_not_mem (by simp [prettyAt])
  | bool true => openedLines_of_not_mem (by simp [prettyAt])
  | bool false => openedLines_of_not_mem (by simp [prettyAt])
  | number n => openedLines_of_not_mem (by rw [prettyAt]; exact (ending_not_mem_number n).1)
  | string t => openedLines_of_not_mem (by rw [prettyAt]; exact (ending_not_mem_quoted t).1)
  | array [] => openedLines_of_not_mem (by simp [prettyAt])
  | array (v :: rest) => by
    have hv := openedLines_item (openedLines_prettyAt (level + 1) v)
    rw [prettyAt, ← List.singleton_append]
    exact (openedLines_of_not_mem (by decide)).append
      (hv.append (openedLines_prettyItems level rest))
  | object [] => openedLines_of_not_mem (by simp [prettyAt])
  | object ((key, v) :: rest) => by
    have hv := openedLines_member key (openedLines_prettyAt (level + 1) v)
    rw [prettyAt, ← List.singleton_append]
    exact (openedLines_of_not_mem (by decide)).append
      (hv.append (openedLines_prettyMembers level rest))

theorem openedLines_prettyItems (level : Nat) :
    ∀ items : List Value, OpenedLines (prettyItems level items)
  | [] => openedLines_newline rfl rfl (openedLines_of_not_mem (by decide))
  | v :: rest => by
    have hv := openedLines_item (openedLines_prettyAt (level + 1) v)
    rw [prettyItems, ← List.singleton_append]
    exact (openedLines_of_not_mem (by decide)).append
      (hv.append (openedLines_prettyItems level rest))

theorem openedLines_prettyMembers (level : Nat) :
    ∀ members : List (Text × Value), OpenedLines (prettyMembers level members)
  | [] => openedLines_newline rfl rfl (openedLines_of_not_mem (by decide))
  | (key, v) :: rest => by
    have hv := openedLines_member key (openedLines_prettyAt (level + 1) v)
    rw [prettyMembers, ← List.singleton_append]
    exact (openedLines_of_not_mem (by decide)).append
      (hv.append (openedLines_prettyMembers level rest))

end

/-- A line of a written value starts with a token behind its spaces. -/
theorem exists_opening_of_mem_lines {v : Value} {line : Text} (h : line ∈ v.pretty.lines) :
    ∃ n c rest, line = List.replicate n ' ' ++ c :: rest ∧ isOpening c = true := by
  rw [lines_pretty] at h
  obtain ⟨pre, post, hsplit, hpre, hpost⟩ := Text.exists_of_mem_pieces h
  have hopened : ∃ n c rest, line ++ post = List.replicate n ' ' ++ c :: rest ∧
      isOpening c = true := by
    rcases hpre with rfl | hpre
    · obtain ⟨c, rest, hhead, hc, _⟩ := exists_head_prettyAt 0 v
      rw [pretty, hhead, List.nil_append] at hsplit
      exact ⟨0, c, rest, hsplit.symm, hc⟩
    · obtain ⟨front, rfl⟩ := List.getLast?_eq_some_iff.mp hpre
      refine openedLines_prettyAt 0 v front (line ++ post) ?_
      rw [← pretty, hsplit]
      simp
  obtain ⟨n, c, rest, heq, hc⟩ := hopened
  have hfeed : c ≠ '\n' := by
    rintro rfl
    cases hc
  -- the line goes on behind its spaces, because no token starts with the line feed behind the line
  obtain ⟨mid, hspaces, rfl⟩ | ⟨mid, rfl, hmid⟩ := List.append_eq_append_iff.mp heq
  · cases mid with
    | nil => exact absurd (by simpa using hpost) hfeed
    | cons d mid =>
      have hd : d = '\n' := by simpa using hpost
      have hmem : d ∈ List.replicate n ' ' := by simp [hspaces]
      rw [List.eq_of_mem_replicate hmem] at hd
      cases hd
  · cases mid with
    | nil =>
      rw [List.nil_append] at hmid
      rw [← hmid] at hpost
      exact absurd (by simpa using hpost) hfeed
    | cons d mid =>
      obtain ⟨rfl, _⟩ := List.cons.inj hmid
      exact ⟨n, c, mid, rfl, hc⟩

end Value

end Json

end ScenarioLint
