import ScenarioLint.Proofs.Scenario.Phrase

/-!
Status lines.  A status line leads with a keyword and is no endpoint line, and white space at its ends
makes no difference to the code that it asserts.
-/

namespace ScenarioLint

theorem isSpace_of_isDigit {c : Char} (h : isDigit c = true) : isSpace c = false := by
  have hall : ∀ c ∈ spaces, isDigit c = false := by decide +kernel
  rw [Bool.eq_false_iff]
  intro hspace
  rw [hall c (mem_spaces hspace)] at h
  cases h

theorem isWord_of_isSpace {c : Char} (h : isSpace c = true) : isWord c = false := by
  have hjoiner : ∀ c ∈ spaces, (128 ≤ c.toNat && inRanges joinerRanges c) = false := by
    decide +kernel
  have hend := Keyword.endsWord_of_isSpace h []
  simp only [Keyword.endsWord, isAlphanumeric, Bool.and_eq_true, Bool.not_eq_true',
    Bool.or_eq_false_iff, bne_iff_ne] at hend
  rw [isWord, hend.1.1.1, hend.1.1.2, beq_false_of_ne hend.2, hjoiner c (mem_spaces h)]
  rfl

namespace Scenario

/-- White space behind a text continues no word. -/
theorem atWordEnd_append {ws : Text} (hws : ws.isBlank = true) (t : Text) :
    atWordEnd (t ++ ws) = atWordEnd t := by
  cases t with
  | cons c rest => rfl
  | nil =>
    cases ws with
    | nil => rfl
    | cons c rest =>
      have hc := isWord_of_isSpace (Text.isBlank_iff.mp hws c List.mem_cons_self)
      simp [atWordEnd, hc]

/-- The text spells the words in any case, with white space between them. -/
inductive SpellsAll : (words : List Text) → (t : Text) → Prop
  | nil : SpellsAll [] []
  | single {word t : Text} (hword : t.map foldCase = word.map foldCase) : SpellsAll [word] t
  | cons {word next u gap t : Text} {words : List Text}
      (hword : u.map foldCase = word.map foldCase) (hgap : gap ≠ []) (hblank : gap.isBlank = true)
      (hrest : SpellsAll (next :: words) t) : SpellsAll (word :: next :: words) (u ++ (gap ++ t))

/-- The first of the words is spelled at the start of the text. -/
theorem SpellsAll.exists_first {word : Text} {words : List Text} {t : Text}
    (h : SpellsAll (word :: words) t) :
    ∃ u more, t = u ++ more ∧ u.map foldCase = word.map foldCase := by
  cases h with
  | single hword => exact ⟨t, [], by simp, hword⟩
  | cons hword => exact ⟨_, _, rfl, hword⟩

theorem SpellsAll.startsVisibly {word : Text} {words : List Text} {t : Text}
    (h : SpellsAll (word :: words) t) (hvisible : StartsVisibly (word.map foldCase)) :
    StartsVisibly t := by
  obtain ⟨u, more, rfl, hword⟩ := h.exists_first
  have hu : Spells [word] u := ⟨word, List.mem_singleton_self word, hword⟩
  exact (hu.startsVisibly (by simpa using hvisible)).append more

theorem afterWords?_eq_some_iff {words : List Text}
    (hwords : ∀ word ∈ words, StartsVisibly (word.map foldCase)) {t rest : Text} :
    afterWords? words t = some rest ↔ ∃ u, t = u ++ rest ∧ SpellsAll words u := by
  induction words generalizing t with
  | nil =>
    constructor
    · intro h
      exact ⟨[], Option.some.inj h, .nil⟩
    · rintro ⟨_, rfl, ⟨⟩⟩
      rfl
  | cons word words ih =>
    cases words with
    | nil =>
      rw [afterWords?, afterWord?_eq_some_iff]
      constructor
      · rintro ⟨u, ht, hword⟩
        exact ⟨u, ht, .single hword⟩
      · rintro ⟨u, ht, hall⟩
        cases hall with
        | single hword => exact ⟨u, ht, hword⟩
    | cons next words =>
      have hrest := @ih fun other hother => hwords other (List.mem_cons_of_mem _ hother)
      simp only [afterWords?, bind, Option.bind_eq_some_iff, afterWord?_eq_some_iff,
        afterGap?_eq_some_iff, hrest]
      constructor
      · rintro ⟨_, ⟨u, rfl, hword⟩, _, ⟨gap, rfl, hgap, hblank, _⟩, v, rfl, hv⟩
        exact ⟨u ++ (gap ++ v), by simp, .cons hword hgap hblank hv⟩
      · rintro ⟨_, rfl, hall⟩
        cases hall with
        | @cons _ _ u gap v _ hword hgap hblank hv =>
          have hvisible := hv.startsVisibly
            (hwords next (List.mem_cons_of_mem _ List.mem_cons_self))
          exact ⟨gap ++ (v ++ rest), ⟨u, by simp, hword⟩, v ++ rest,
            ⟨gap, rfl, hgap, hblank, (hvisible.append rest).isSpace_head⟩, v, rfl, hv⟩

/-- The keywords that lead a status line. -/
def statusWords : List Text :=
  ["Then".toList, "And".toList]

/-- The text between the keyword of a status line and its digits. -/
def IsStatusPhrase (phrase : Text) : Prop :=
  Spells ["status".toList] phrase ∨
    SpellsAll ["response".toList, "status".toList, "should".toList, "be".toList] phrase

/-- The visible text in front of the digits of a status line. -/
def IsStatusLead (lead : Text) : Prop :=
  ∃ word gap phrase pad, lead = word ++ (gap ++ (phrase ++ pad)) ∧ Spells statusWords word ∧
    gap ≠ [] ∧ gap.isBlank = true ∧ IsStatusPhrase phrase ∧ pad ≠ [] ∧ pad.isBlank = true

/-- A status phrase starts with one of two words. -/
theorem IsStatusPhrase.exists_first {phrase : Text} (h : IsStatusPhrase phrase) :
    ∃ u more, phrase = u ++ more ∧ Spells ["status".toList, "response".toList] u := by
  rcases h with ⟨word, hword, hu⟩ | hlong
  · exact ⟨phrase, [], by simp, word, List.mem_append_left ["response".toList] hword, hu⟩
  · obtain ⟨u, more, hphrase, hu⟩ := hlong.exists_first
    exact ⟨u, more, hphrase, _, List.mem_cons_of_mem _ List.mem_cons_self, hu⟩

theorem IsStatusPhrase.startsVisibly {phrase : Text} (h : IsStatusPhrase phrase) :
    StartsVisibly phrase := by
  obtain ⟨u, more, rfl, hu⟩ := h.exists_first
  refine (hu.startsVisibly ?_).append more
  intro word hword
  simp only [List.mem_cons, List.not_mem_nil, or_false] at hword
  rcases hword with rfl | rfl
  all_goals exact ⟨_, rfl, by decide⟩

/-- What follows a status phrase in a text that starts with one. -/
def afterStatusPhrase? (t : Text) : Option Text :=
  (afterWord? "status".toList t).or
    (afterWords? ["response".toList, "status".toList, "should".toList, "be".toList] t)

theorem afterStatusPhrase?_eq_some_iff {t rest : Text} :
    afterStatusPhrase? t = some rest ↔ ∃ phrase, t = phrase ++ rest ∧ IsStatusPhrase phrase := by
  have hvisible : ∀ word ∈ ["response".toList, "status".toList, "should".toList, "be".toList],
      StartsVisibly (word.map foldCase) := by
    intro word hword
    simp only [List.mem_cons, List.not_mem_nil, or_false] at hword
    rcases hword with rfl | rfl | rfl | rfl
    all_goals exact ⟨_, rfl, by decide⟩
  have hwords : Distinguished ["status".toList, "response".toList] := by decide
  rw [afterStatusPhrase?, Option.or_eq_some_iff, afterWord?_eq_some_iff,
    afterWords?_eq_some_iff hvisible]
  constructor
  · rintro (⟨u, ht, hu⟩ | ⟨_, u, ht, hu⟩)
    · exact ⟨u, ht, .inl ⟨_, List.mem_singleton_self _, hu⟩⟩
    · exact ⟨u, ht, .inr hu⟩
  · rintro ⟨phrase, rfl, ⟨word, hword, hu⟩ | hlong⟩
    · exact .inl ⟨phrase, rfl, List.mem_singleton.mp hword ▸ hu⟩
    · refine .inr ⟨?_, phrase, rfl, hlong⟩
      rw [Option.eq_none_iff_forall_ne_some]
      intro more hmore
      obtain ⟨v, hsplit, hv⟩ := afterWord?_eq_some_iff.mp hmore
      obtain ⟨u, tail, rfl, hu⟩ := hlong.exists_first
      rw [List.append_assoc] at hsplit
      obtain ⟨hsame, _⟩ := hwords.eq_of_append_eq (by simp) (by simp) hu hv hsplit
      exact absurd hsame (by decide)

theorem statusDigits?_eq (line : Text) : statusDigits? line = (do
    let t ← afterOneOf? statusWords line.trimStart
    let t ← afterGap? t
    let t ← afterStatusPhrase? t
    let t ← afterGap? t
    let digits := t.take 3
    if digits.length = 3 && digits.all isDigit && atWordEnd (t.drop 3) then some digits
    else none) := by
  rw [statusDigits?]
  congr 1
  funext t
  congr 1
  funext t
  rw [afterStatusPhrase?]
  cases afterWord? "status".toList t <;> rfl

/-- A status line is a lead and three digits that end there, perhaps with more text behind them. -/
theorem statusDigits?_eq_some_iff {line digits : Text} :
    statusDigits? line = some digits ↔
      ∃ lead rest, line.trimStart = lead ++ (digits ++ rest) ∧ IsStatusLead lead ∧
        digits.length = 3 ∧ (∀ c ∈ digits, isDigit c = true) ∧ atWordEnd rest = true := by
  have hwords : Distinguished statusWords := by decide
  simp only [statusDigits?_eq, bind, Option.bind_eq_some_iff, afterOneOf?_eq_some_iff hwords,
    afterGap?_eq_some_iff, afterStatusPhrase?_eq_some_iff]
  constructor
  · rintro ⟨_, ⟨word, hline, hword⟩, _, ⟨gap, rfl, hgap, hgapBlank, _⟩, _, ⟨phrase, rfl, hphrase⟩, t,
      ⟨pad, rfl, hpad, hpadBlank, _⟩, hdigits⟩
    split at hdigits
    · rename_i hthree
      cases hdigits
      simp only [Bool.and_eq_true, decide_eq_true_eq, List.all_eq_true] at hthree
      refine ⟨word ++ (gap ++ (phrase ++ pad)), t.drop 3, ?_,
        ⟨word, gap, phrase, pad, rfl, hword, hgap, hgapBlank, hphrase, hpad, hpadBlank⟩,
        hthree.1.1, hthree.1.2, hthree.2⟩
      rw [hline, List.take_append_drop]
      simp
    · cases hdigits
  · rintro ⟨_, rest, hline, ⟨word, gap, phrase, pad, rfl, hword, hgap, hgapBlank, hphrase, hpad,
      hpadBlank⟩, hthree, hdigits, hend⟩
    have hhead : ∀ c, (digits ++ rest).head? = some c → isSpace c = false := by
      obtain ⟨d, more, rfl⟩ := List.exists_cons_of_ne_nil (l := digits) (by rintro rfl; cases hthree)
      intro c hc
      exact isSpace_of_isDigit (hdigits c (Option.some.inj hc ▸ List.mem_cons_self))
    refine ⟨_, ⟨word, by simpa using hline, hword⟩, _, ⟨gap, rfl, hgap, hgapBlank,
      (hphrase.startsVisibly.append _).isSpace_head⟩, _, ⟨phrase, rfl, hphrase⟩, digits ++ rest,
      ⟨pad, rfl, hpad, hpadBlank, hhead⟩, ?_⟩
    rw [List.take_left' hthree, List.drop_left' hthree,
      if_pos (by simpa [hthree, hend] using hdigits)]

/-- White space at the ends of a line makes no difference to the digits that it asserts. -/
theorem statusDigits?_trim (line : Text) : statusDigits? line.trim = statusDigits? line := by
  obtain ⟨ws, hws, hblank⟩ := Text.exists_trimEnd_append line.trimStart
  have htrim : line.trimStart = line.trim ++ ws := hws
  apply Option.ext
  intro digits
  rw [statusDigits?_eq_some_iff, statusDigits?_eq_some_iff, Text.trimStart_trim, htrim]
  constructor
  · rintro ⟨lead, rest, hline, hlead, hthree, hdigits, hend⟩
    refine ⟨lead, rest ++ ws, by simp [hline], hlead, hthree, hdigits, ?_⟩
    rw [atWordEnd_append hblank, hend]
  · rintro ⟨lead, rest, hline, hlead, hthree, hdigits, hend⟩
    have hlast : ∀ c, (lead ++ digits).getLast? = some c → isSpace c = false := by
      intro c hc
      rw [List.getLast?_append_of_ne_nil _ (by rintro rfl; cases hthree)] at hc
      exact isSpace_of_isDigit (hdigits c (List.mem_of_getLast? hc))
    rw [← List.append_assoc] at hline
    obtain ⟨more, hmore⟩ := Text.isPrefix_of_isPrefix_append hblank hlast
      (hline ▸ List.prefix_append _ rest)
    rw [← hmore, List.append_assoc, List.append_cancel_left_eq] at hline
    refine ⟨lead, more, by simp [← hmore], hlead, hthree, hdigits, ?_⟩
    rw [← atWordEnd_append hblank, hline, hend]

theorem statusCode?_trim (line : Text) : statusCode? line.trim = statusCode? line := by
  rw [statusCode?, statusCode?, statusDigits?_trim]

/-- A status line leads with a keyword. -/
theorem isSome_leading?_of_statusDigits? {line digits : Text}
    (h : statusDigits? line = some digits) : (Keyword.leading? line).isSome = true := by
  obtain ⟨_, rest, hline, ⟨word, gap, phrase, pad, rfl, ⟨spelled, hspelled, hword⟩, hgap, hblank, _⟩,
    _⟩ := statusDigits?_eq_some_iff.mp h
  obtain ⟨keyword, halike⟩ : ∃ keyword : Keyword, Text.alike word keyword.word = true := by
    simp only [statusWords, List.mem_cons, List.not_mem_nil, or_false] at hspelled
    rcases hspelled with rfl | rfl
    · exact ⟨.then, alike_of_foldCase hword (by decide)⟩
    · exact ⟨.and, alike_of_foldCase hword (by decide)⟩
  have hend := Keyword.endsWord_of_gap hgap hblank (phrase ++ pad ++ (digits ++ rest))
  have hleading : Keyword.leading? line = some keyword :=
    Keyword.leading?_eq_some_iff.mpr ⟨word, _, by simp [hline], halike, hend⟩
  rw [hleading, Option.isSome_some]

theorem statusCode?_of_leading? {line : Text} (h : Keyword.leading? line = none) :
    statusCode? line = none := by
  rw [statusCode?, Option.bind_eq_none_iff]
  intro digits hdigits
  have hkeyword := isSome_leading?_of_statusDigits? hdigits
  rw [h] at hkeyword
  cases hkeyword

/-- What follows white space that ends at something visible is determined. -/
theorem eq_of_gap_append_eq {gap pad t u : Text} (hgap : gap ≠ []) (hgapBlank : gap.isBlank = true)
    (ht : StartsVisibly t) (hpad : pad ≠ []) (hpadBlank : pad.isBlank = true) (hu : StartsVisibly u)
    (h : gap ++ t = pad ++ u) : t = u := by
  have hfirst : afterGap? (gap ++ t) = some t :=
    afterGap?_eq_some_iff.mpr ⟨gap, rfl, hgap, hgapBlank, ht.isSpace_head⟩
  have hsecond : afterGap? (gap ++ t) = some u :=
    afterGap?_eq_some_iff.mpr ⟨pad, h, hpad, hpadBlank, hu.isSpace_head⟩
  exact Option.some.inj (hfirst.symm.trans hsecond)

/-- An endpoint line starts with its words, behind any white space. -/
theorem exists_words_of_endpointLine {line : Text} (h : (endpointLine? line).isSome = true) :
    ∃ word gap name rest, line.trimStart = word ++ (gap ++ (name ++ rest)) ∧
      Spells endpointWords word ∧ gap ≠ [] ∧ gap.isBlank = true ∧ Spells endpointNames name := by
  obtain ⟨parts, hparts⟩ := Option.isSome_iff_exists.mp h
  obtain ⟨rest, hline, ⟨margin, word, gap, name, pad, hlead, hmargin, hword, hgap, hblank, hname,
    _⟩, _⟩ := endpointLine?_eq_some_iff.mp hparts
  refine ⟨word, gap, name, pad ++ rest, ?_, hword, hgap, hblank, hname⟩
  have hvisible := (hword.startsVisibly endpointWords_visible).append (gap ++ (name ++ pad) ++ rest)
  rw [hline, hlead, List.append_assoc,
    Text.trimStart_append_of_head hmargin (by simpa using hvisible.isSpace_head)]
  simp

/-- No line names the endpoint and asserts a status. -/
theorem statusCode?_of_endpointLine {line : Text} (h : (endpointLine? line).isSome = true) :
    statusCode? line = none := by
  have hwords : Distinguished (endpointWords ++ statusWords) := by decide
  have hnames : Distinguished (endpointNames ++ ["status".toList, "response".toList]) := by decide
  rw [statusCode?, Option.bind_eq_none_iff]
  intro digits hdigits
  exfalso
  obtain ⟨word, gap, name, rest, hline, ⟨spelled, hspelled, hword⟩, hgap, hblank, hname⟩ :=
    exists_words_of_endpointLine h
  obtain ⟨_, more, hstatus, ⟨other, space, phrase, pad, rfl, ⟨spelledToo, hspelledToo, hother⟩, hspace,
    hspaceBlank, hphrase, _⟩, _⟩ := statusDigits?_eq_some_iff.mp hdigits
  rw [hline, List.append_assoc] at hstatus
  obtain ⟨_, _, hbehind⟩ := hwords.eq_of_append_eq (List.mem_append_left _ hspelled)
    (List.mem_append_right _ hspelledToo) hword hother hstatus
  have hbehind : gap ++ (name ++ rest) = space ++ (phrase ++ (pad ++ (digits ++ more))) := by
    simpa using hbehind
  -- behind the keyword and the white space, the two kinds of line go on with different words
  have hsame := eq_of_gap_append_eq hgap hblank
    ((hname.startsVisibly endpointNames_visible).append rest) hspace hspaceBlank
    (hphrase.startsVisibly.append _) hbehind
  obtain ⟨first, tail, rfl, firstSpelled, hfirstSpelled, hfirst⟩ := hphrase.exists_first
  obtain ⟨nameSpelled, hnameSpelled, hname⟩ := hname
  rw [List.append_assoc] at hsame
  obtain ⟨heq, _⟩ := hnames.eq_of_append_eq (List.mem_append_left _ hnameSpelled)
    (List.mem_append_right _ hfirstSpelled) hname hfirst hsame
  have hdifferent : ∀ name ∈ endpointNames, name ∉ ["status".toList, "response".toList] := by
    decide
  exact hdifferent nameSpelled hnameSpelled (heq ▸ hfirstSpelled)

end Scenario

end ScenarioLint
