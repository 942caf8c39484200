import ScenarioLint.Proofs.Scenario.StatusPhrase
import ScenarioLint.Proofs.Template.Line
import ScenarioLint.Proofs.Text.Search

/-!
What each of the passes that clean up a line removes or changes, and what it leaves alone.
-/

namespace ScenarioLint.Template

section Enumeration

/-- The characters that may stand behind the number of an enumeration. -/
def enumerationMarks : List Char :=
  ['.', ')', '-']

/-- A number with a mark behind it starts the text. -/
def StartsNumbered (t : Text) : Prop :=
  ∃ digits mark rest, t = digits ++ mark :: rest ∧ digits ≠ [] ∧
    (∀ c ∈ digits, isDigit c = true) ∧ mark ∈ enumerationMarks

variable {digits rest : Text} {mark : Char}

private theorem isDigit_mark (h : mark ∈ enumerationMarks) : isDigit mark = false := by
  have hall : ∀ c ∈ enumerationMarks, isDigit c = false := by decide
  exact hall mark h

private theorem isSpace_mark (h : mark ∈ enumerationMarks) : isSpace mark = false := by
  have hall : ∀ c ∈ enumerationMarks, isSpace c = false := by decide
  exact hall mark h

theorem visible_of_numbered (hdigits : ∀ c ∈ digits, isDigit c = true)
    (hmark : mark ∈ enumerationMarks) : ∀ c ∈ digits ++ [mark], isSpace c = false := by
  intro c hc
  obtain hc | hc := List.mem_append.mp hc
  · exact isSpace_of_isDigit (hdigits c hc)
  · exact List.mem_singleton.mp hc ▸ isSpace_mark hmark

/-- The number, its mark and the white space behind it are dropped. -/
theorem dropEnumeration_append (hne : digits ≠ []) (hdigits : ∀ c ∈ digits, isDigit c = true)
    (hmark : mark ∈ enumerationMarks) (rest : Text) :
    dropEnumeration (digits ++ mark :: rest) = rest.trimStart := by
  have hstop : ¬ isDigit mark = true := by simp [isDigit_mark hmark]
  have htake : (digits ++ mark :: rest).takeWhile isDigit = digits := by
    rw [List.takeWhile_append_of_pos hdigits, List.takeWhile_cons_of_neg hstop, List.append_nil]
  have hdrop : (digits ++ mark :: rest).dropWhile isDigit = mark :: rest := by
    rw [List.dropWhile_append_of_pos hdigits, List.dropWhile_cons_of_neg hstop]
  have hkind : (mark == '.' || mark == ')' || mark == '-') = true := by
    simpa [enumerationMarks, or_assoc] using hmark
  rw [dropEnumeration, hdrop, htake]
  simp [hne, hkind]

/-- A line that starts with no number, or with one that has no mark, keeps its front. -/
theorem dropEnumeration_of_not_startsNumbered {t : Text} (h : ¬ StartsNumbered t) :
    dropEnumeration t = t := by
  rw [dropEnumeration]
  split
  · next mark rest hdrop =>
    split
    · rfl
    · next hmark =>
      simp only [Bool.or_eq_true, Bool.not_eq_true', List.isEmpty_iff, not_or] at hmark
      refine absurd ⟨t.takeWhile isDigit, mark, rest, ?_, hmark.1, ?_, ?_⟩ h
      · rw [← hdrop, List.takeWhile_append_dropWhile]
      · exact fun _ => List.mem_takeWhile_imp
      · have hkind := hmark.2
        simp only [beq_iff_eq, Bool.not_eq_false, Bool.or_eq_true] at hkind
        simpa [enumerationMarks, or_assoc] using hkind
  · rfl

end Enumeration

section Commentary

/-- A dash between white space starts the text. -/
def startsCommentary : Text → Bool
  | c :: '-' :: d :: _ => isSpace c && isSpace d
  | _ => false

/-- Somewhere in the text a dash stands between white space. -/
def HasCommentary (t : Text) : Prop :=
  ∃ c d, isSpace c = true ∧ isSpace d = true ∧ [c, '-', d] <:+: t

variable {t u : Text}

theorem startsCommentary_iff : startsCommentary t = true ↔
    ∃ c d rest, t = c :: '-' :: d :: rest ∧ isSpace c = true ∧ isSpace d = true := by
  constructor
  · intro h
    unfold startsCommentary at h
    split at h
    · next c d rest => exact ⟨c, d, rest, rfl, Bool.and_eq_true_iff.mp h⟩
    · cases h
  · rintro ⟨c, d, rest, rfl, hc, hd⟩
    simp [startsCommentary, hc, hd]

theorem startsCommentary_of_visible {c : Char} (hc : isSpace c = false) (t : Text) :
    startsCommentary (c :: t) = false := by
  rw [Bool.eq_false_iff]
  intro h
  obtain ⟨_, _, _, heq, hspace, _⟩ := startsCommentary_iff.mp h
  cases heq
  rw [hc] at hspace
  cases hspace

theorem not_hasCommentary_nil : ¬ HasCommentary [] := by
  rintro ⟨c, d, _, _, h⟩
  exact List.cons_ne_nil _ _ (List.infix_nil.mp h)

theorem hasCommentary_cons_iff {c : Char} :
    HasCommentary (c :: t) ↔ startsCommentary (c :: t) = true ∨ HasCommentary t := by
  rw [startsCommentary_iff]
  constructor
  · rintro ⟨a, d, ha, hd, h⟩
    obtain ⟨rest, hstarts⟩ | hinside := List.infix_cons_iff.mp h
    · exact .inl ⟨a, d, rest, hstarts.symm, ha, hd⟩
    · exact .inr ⟨a, d, ha, hd, hinside⟩
  · rintro (⟨a, d, rest, heq, ha, hd⟩ | ⟨a, d, ha, hd, h⟩)
    · exact ⟨a, d, ha, hd, heq ▸ ⟨[], rest, rfl⟩⟩
    · exact ⟨a, d, ha, hd, List.infix_cons_iff.mpr (.inr h)⟩

theorem HasCommentary.of_isInfix (h : HasCommentary t) (htu : t <:+: u) : HasCommentary u := by
  obtain ⟨c, d, hc, hd, hinside⟩ := h
  exact ⟨c, d, hc, hd, hinside.trans htu⟩

/-- A dash between white space lies behind a visible text, not across its end. -/
theorem hasCommentary_append_iff {front : Text} (hfront : ∀ c ∈ front, isSpace c = false) :
    HasCommentary (front ++ t) ↔ HasCommentary t := by
  induction front with
  | nil => rfl
  | cons c front ih =>
    obtain ⟨hc, hmore⟩ := List.forall_mem_cons.mp hfront
    rw [List.cons_append, hasCommentary_cons_iff, startsCommentary_of_visible hc, ih hmore]
    simp

private theorem go_cons (passed : Text) (c : Char) (t : Text) :
    beforeCommentary.go passed (c :: t) =
      if startsCommentary (c :: t) then passed.reverse
      else beforeCommentary.go (c :: passed) t := by
  cases t with
  | nil => rfl
  | cons x t =>
    by_cases hx : x = '-'
    · subst hx
      cases t <;> rfl
    · rw [beforeCommentary.go.eq_def, startsCommentary.eq_def]
      simp [hx]

private theorem go_eq (passed t : Text) :
    beforeCommentary.go passed t = passed.reverse ++ beforeCommentary t := by
  rw [beforeCommentary]
  induction t generalizing passed with
  | nil => simp [beforeCommentary.go]
  | cons c t ih =>
    rw [go_cons, go_cons, ih (c :: passed), ih [c]]
    split <;> simp

/-- The search for commentary ends where one starts and otherwise passes one character. -/
theorem beforeCommentary_cons (c : Char) (t : Text) :
    beforeCommentary (c :: t) =
      if startsCommentary (c :: t) then [] else c :: beforeCommentary t := by
  rw [beforeCommentary, go_cons, go_eq]
  rfl

theorem startsCommentary_append (h : startsCommentary t = true) (u : Text) :
    startsCommentary (t ++ u) = true := by
  obtain ⟨c, d, rest, rfl, hc, hd⟩ := startsCommentary_iff.mp h
  exact startsCommentary_iff.mpr ⟨c, d, rest ++ u, rfl, hc, hd⟩

theorem beforeCommentary_isPrefix (t : Text) : beforeCommentary t <+: t := by
  induction t with
  | nil => exact List.prefix_rfl
  | cons c t ih =>
    rw [beforeCommentary_cons]
    split
    · exact List.nil_prefix
    · exact List.cons_prefix_cons.mpr ⟨rfl, ih⟩

theorem not_hasCommentary_beforeCommentary (t : Text) : ¬ HasCommentary (beforeCommentary t) := by
  induction t with
  | nil => exact not_hasCommentary_nil
  | cons c t ih =>
    rw [beforeCommentary_cons]
    split
    · exact not_hasCommentary_nil
    · next hnot =>
      rw [hasCommentary_cons_iff]
      rintro (hstarts | hinside)
      · obtain ⟨rest, hrest⟩ := beforeCommentary_isPrefix t
        have hlonger := startsCommentary_append hstarts rest
        rw [List.cons_append, hrest] at hlonger
        exact hnot hlonger
      · exact ih hinside

theorem beforeCommentary_of_not_hasCommentary (h : ¬ HasCommentary t) :
    beforeCommentary t = t := by
  induction t with
  | nil => rfl
  | cons c t ih =>
    rw [hasCommentary_cons_iff, not_or] at h
    rw [beforeCommentary_cons, if_neg h.1, ih h.2]

theorem beforeCommentary_append_of_visible {front : Text}
    (hfront : ∀ c ∈ front, isSpace c = false) (t : Text) :
    beforeCommentary (front ++ t) = front ++ beforeCommentary t := by
  induction front with
  | nil => rfl
  | cons c front ih =>
    obtain ⟨hc, hmore⟩ := List.forall_mem_cons.mp hfront
    rw [List.cons_append, beforeCommentary_cons, startsCommentary_of_visible hc, ih hmore]
    rfl

/-- The text in front of the first dash between white space, or all of it if there is none. -/
structure IsBeforeCommentary (t front : Text) : Prop where
  exists_append : ∃ rest, t = front ++ rest ∧ (rest = [] ∨ startsCommentary rest = true)
  first : ∀ a b, t = a ++ b → startsCommentary b = true → front.length ≤ a.length

private theorem isBeforeCommentary_beforeCommentary (t : Text) :
    IsBeforeCommentary t (beforeCommentary t) := by
  induction t with
  | nil => exact ⟨⟨[], rfl, .inl rfl⟩, fun _ _ _ _ => Nat.zero_le _⟩
  | cons c t ih =>
    rw [beforeCommentary_cons]
    split
    · next hstarts => exact ⟨⟨c :: t, rfl, .inr hstarts⟩, fun _ _ _ _ => Nat.zero_le _⟩
    · next hnot =>
      obtain ⟨⟨rest, ht, hrest⟩, hfirst⟩ := ih
      refine ⟨⟨rest, congrArg (c :: ·) ht, hrest⟩, fun a b hsplit hb => ?_⟩
      cases a with
      | nil => exact absurd (hsplit ▸ hb) hnot
      | cons _ a => exact Nat.succ_le_succ (hfirst a b (List.cons.inj hsplit).2 hb)

private theorem IsBeforeCommentary.length_le {front other : Text} (h : IsBeforeCommentary t front)
    (hother : IsBeforeCommentary t other) : front.length ≤ other.length := by
  obtain ⟨rest, ht, rfl | hstarts⟩ := hother.exists_append
  · obtain ⟨_, happend, _⟩ := h.exists_append
    rw [← List.append_nil other, ← ht, happend, List.length_append]
    exact Nat.le_add_right _ _
  · exact h.first other rest ht hstarts

theorem isBeforeCommentary_iff {front : Text} :
    IsBeforeCommentary t front ↔ beforeCommentary t = front := by
  constructor
  · intro h
    have hsame := isBeforeCommentary_beforeCommentary t
    obtain ⟨_, hfront, _⟩ := h.exists_append
    obtain ⟨_, hbefore, _⟩ := hsame.exists_append
    exact (List.append_inj (hbefore.symm.trans hfront)
      (Nat.le_antisymm (hsame.length_le h) (h.length_le hsame))).1
  · rintro rfl
    exact isBeforeCommentary_beforeCommentary t

end Commentary

section Quotes

/-- The quotes that become straight ones. -/
def curlyQuotes : List Char :=
  ['\u201c', '\u201d', '\u2018', '\u2019']

variable {c : Char} {t : Text}

theorem straighten_of_not_mem (h : c ∉ curlyQuotes) : straighten c = c := by
  simp only [curlyQuotes, List.mem_cons, List.not_mem_nil, or_false, not_or] at h
  obtain ⟨hopen, hclose, hopen', hclose'⟩ := h
  simp [straighten, hopen, hclose, hopen', hclose']

theorem straighten_eq_or (c : Char) :
    c ∉ curlyQuotes ∧ straighten c = c ∨ c ∈ curlyQuotes ∧ straighten c ∈ ['"', '\''] := by
  by_cases h : c ∈ curlyQuotes
  · have hall : ∀ c ∈ curlyQuotes, straighten c ∈ ['"', '\''] := by decide
    exact .inr ⟨h, hall c h⟩
  · exact .inl ⟨h, straighten_of_not_mem h⟩

theorem straighten_not_mem (c : Char) : straighten c ∉ curlyQuotes := by
  obtain ⟨h, heq⟩ | ⟨_, h⟩ := straighten_eq_or c
  · rwa [heq]
  · have hall : ∀ c ∈ ['"', '\''], c ∉ curlyQuotes := by decide
    exact hall _ h

theorem isSpace_straighten (c : Char) : isSpace (straighten c) = isSpace c := by
  obtain ⟨_, heq⟩ | ⟨hc, h⟩ := straighten_eq_or c
  · rw [heq]
  · have hcurly : ∀ c ∈ curlyQuotes, isSpace c = false := by decide
    have hstraight : ∀ c ∈ ['"', '\''], isSpace c = false := by decide
    rw [hcurly c hc, hstraight _ h]

theorem eq_of_straighten_eq {d : Char} (hd : d ∉ ['"', '\'']) (h : straighten c = d) : c = d := by
  obtain ⟨_, heq⟩ | ⟨_, hmem⟩ := straighten_eq_or c
  · exact heq.symm.trans h
  · exact absurd (h ▸ hmem) hd

theorem visible_map_straighten (t : Text) :
    Text.visible (t.map straighten) = (Text.visible t).map straighten := by
  rw [Text.visible, Text.visible, List.filter_map]
  congr 2
  funext c
  exact congrArg not (isSpace_straighten c)

theorem HasCommentary.of_map_straighten (h : HasCommentary (t.map straighten)) :
    HasCommentary t := by
  obtain ⟨c, d, hc, hd, hinside⟩ := h
  obtain ⟨u, hu, heq⟩ := List.infix_map_iff.mp hinside
  obtain ⟨x, y, z, rfl⟩ : ∃ x y z, u = [x, y, z] :=
    List.length_eq_three.mp (by simpa using (congrArg List.length heq).symm)
  simp only [List.map_cons, List.map_nil, List.cons.injEq, and_true] at heq
  obtain ⟨rfl, hdash, rfl⟩ := heq
  obtain rfl := eq_of_straighten_eq (by decide) hdash.symm
  exact ⟨x, z, isSpace_straighten x ▸ hc, isSpace_straighten z ▸ hd, hu⟩

end Quotes

section Misspelling

/-- The word `GIven` starts the text. -/
def StartsMisspelled (t : Text) : Prop :=
  ∃ rest, t = "GIven".toList ++ rest ∧ ∀ c ∈ rest.head?, isWord c = false

variable {t : Text}

theorem fixGiven_append {rest : Text} (h : ∀ c ∈ rest.head?, isWord c = false) :
    fixGiven ("GIven".toList ++ rest) = "Given".toList ++ rest := by
  rw [fixGiven, Text.after?_eq_some_iff.mpr rfl]
  cases rest with
  | nil => rfl
  | cons c rest => simp [h c rfl]

theorem fixGiven_of_not_startsMisspelled (h : ¬ StartsMisspelled t) : fixGiven t = t := by
  rw [fixGiven]
  split
  · rfl
  · next hafter =>
    exact absurd ⟨[], Text.after?_eq_some_iff.mp hafter, nofun⟩ h
  · next c rest hafter =>
    split
    · rfl
    · next hword =>
      refine absurd ⟨c :: rest, Text.after?_eq_some_iff.mp hafter, fun d hd => ?_⟩ h
      cases hd
      exact Bool.not_eq_true _ ▸ hword

/-- The misspelled word is corrected, and nothing else is. -/
theorem fixGiven_eq_or (t : Text) : fixGiven t = t ∧ ¬ StartsMisspelled t ∨
    ∃ rest, t = "GIven".toList ++ rest ∧ fixGiven t = "Given".toList ++ rest := by
  by_cases h : StartsMisspelled t
  · obtain ⟨rest, rfl, hend⟩ := h
    exact .inr ⟨rest, rfl, fixGiven_append hend⟩
  · exact .inl ⟨fixGiven_of_not_startsMisspelled h, h⟩

theorem not_startsMisspelled_fixGiven (t : Text) : ¬ StartsMisspelled (fixGiven t) := by
  obtain ⟨heq, hnot⟩ | ⟨rest, _, heq⟩ := fixGiven_eq_or t
  · rwa [heq]
  · rw [heq]
    rintro ⟨more, hmore, _⟩
    have hhead := congrArg (fun t => (t.drop 1).head?) hmore
    cases hhead

theorem HasCommentary.of_fixGiven (h : HasCommentary (fixGiven t)) : HasCommentary t := by
  obtain ⟨heq, _⟩ | ⟨rest, rfl, heq⟩ := fixGiven_eq_or t
  · rwa [heq] at h
  · rw [heq, hasCommentary_append_iff (by decide)] at h
    exact (hasCommentary_append_iff (by decide)).mpr h

end Misspelling

end ScenarioLint.Template
