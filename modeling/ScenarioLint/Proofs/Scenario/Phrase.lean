import ScenarioLint.Proofs.Keyword
import ScenarioLint.Scenario.Phrase

/-!
How a line splits into the parts of a phrase.  Each reader of a part is characterised by the texts
that it takes off the front, so that a line can be taken apart and put together again.
-/

namespace ScenarioLint

/-- White space has no case. -/
theorem foldCase_of_isSpace {c : Char} (h : isSpace c = true) : foldCase c = c := by
  have hlong : c ≠ '\u017f' := by
    rintro rfl
    revert h
    decide
  have hkelvin : c ≠ '\u212a' := by
    rintro rfl
    revert h
    decide
  have hupper : ¬ ('A'.val ≤ c.val ∧ c.val ≤ 'Z'.val) := by
    rintro ⟨hlow, hhigh⟩
    rw [Text.isSpace_of_between hlow hhigh (by decide)] at h
    cases h
  have hlower : c.toLower = c := dif_neg hupper
  rw [foldCase, if_neg hlong, if_neg hkelvin, hlower]

theorem isSpace_of_foldCase {c d : Char} (h : foldCase c = d) (hd : isSpace d = false) :
    isSpace c = false := by
  rw [Bool.eq_false_iff]
  intro hspace
  rw [foldCase_of_isSpace hspace] at h
  rw [h, hd] at hspace
  cases hspace

/-- But for two letters beyond ASCII, case is the case of ASCII letters. -/
theorem foldCase_eq_toLower {c : Char} (hs : foldCase c ≠ 's') (hk : foldCase c ≠ 'k') :
    foldCase c = c.toLower := by
  rw [foldCase] at hs hk ⊢
  split
  · rename_i hlong
    rw [if_pos hlong] at hs
    exact absurd rfl hs
  · rename_i hlong
    rw [if_neg hlong] at hk
    split
    · rename_i hkelvin
      rw [if_pos hkelvin] at hk
      exact absurd rfl hk
    · rfl

/-- A word without the letters that have forms beyond ASCII is spelled in ASCII. -/
theorem alike_of_foldCase {u word : Text} (h : u.map foldCase = word.map foldCase)
    (hword : ∀ c ∈ word.map foldCase, c ≠ 's' ∧ c ≠ 'k') : Text.alike u word = true := by
  have hlower : ∀ {t : Text}, t.map foldCase = word.map foldCase →
      t.toLower = t.map foldCase := by
    intro t ht
    refine (List.map_congr_left fun c hc => ?_).symm
    obtain ⟨hs, hk⟩ := hword (foldCase c) (ht ▸ List.mem_map_of_mem hc)
    exact foldCase_eq_toLower hs hk
  rw [Text.alike, beq_iff_eq, hlower h, hlower rfl, h]

namespace Scenario

theorem afterWord?_eq_some_iff {word t rest : Text} : afterWord? word t = some rest ↔
    ∃ u, t = u ++ rest ∧ u.map foldCase = word.map foldCase := by
  induction word generalizing t with
  | nil =>
    simp only [afterWord?, Option.some.injEq, List.map_nil, List.map_eq_nil_iff]
    constructor
    · rintro rfl
      exact ⟨[], rfl, rfl⟩
    · rintro ⟨_, rfl, rfl⟩
      rfl
  | cons a word ih =>
    cases t with
    | nil => simp [afterWord?]
    | cons c t =>
      rw [afterWord?]
      by_cases hc : foldCase c = foldCase a
      · rw [if_pos hc, ih]
        constructor
        · rintro ⟨u, rfl, hu⟩
          exact ⟨c :: u, rfl, by simp [hc, hu]⟩
        · rintro ⟨u, heq, hu⟩
          cases u with
          | nil => cases hu
          | cons d u =>
            obtain ⟨rfl, rfl⟩ := List.cons.inj heq
            exact ⟨u, rfl, (List.cons.inj hu).2⟩
      · rw [if_neg hc]
        simp only [reduceCtorEq, false_iff, not_exists, not_and]
        rintro u heq hu
        cases u with
        | nil => cases hu
        | cons d u =>
          obtain ⟨rfl, _⟩ := List.cons.inj heq
          exact hc (List.cons.inj hu).1

/-- The text is one of the words in any case. -/
def Spells (words : List Text) (u : Text) : Prop :=
  ∃ word ∈ words, u.map foldCase = word.map foldCase

/-- No word starts another one. -/
def Distinguished (words : List Text) : Prop :=
  ∀ word ∈ words, ∀ other ∈ words, word.map foldCase <+: other.map foldCase → word = other

instance (words : List Text) : Decidable (Distinguished words) :=
  inferInstanceAs (Decidable (∀ word ∈ words, ∀ other ∈ words, _ → _))

/-- Of words that can be told apart, at most one starts a text. -/
theorem Distinguished.eq_of_append_eq {words : List Text} (hwords : Distinguished words)
    {word other u v rest more : Text} (hword : word ∈ words) (hother : other ∈ words)
    (hu : u.map foldCase = word.map foldCase) (hv : v.map foldCase = other.map foldCase)
    (h : u ++ rest = v ++ more) : word = other ∧ u = v ∧ rest = more := by
  have hsame : word = other := by
    rcases List.prefix_or_prefix_of_prefix (List.prefix_append u rest)
      (h ▸ List.prefix_append v more) with hstarts | hstarts
    · exact hwords word hword other hother (hu ▸ hv ▸ hstarts.map foldCase)
    · exact (hwords other hother word hword (hu ▸ hv ▸ hstarts.map foldCase)).symm
  have hspelled : u.map foldCase = v.map foldCase := by
    rw [hu, hsame, hv]
  have hlength : u.length = v.length := by
    simpa using congrArg List.length hspelled
  exact ⟨hsame, List.append_inj h hlength⟩

theorem afterOneOf?_eq_some_iff {words : List Text} (hwords : Distinguished words)
    {t rest : Text} :
    afterOneOf? words t = some rest ↔ ∃ u, t = u ++ rest ∧ Spells words u := by
  constructor
  · intro h
    obtain ⟨word, hword, hafter⟩ := List.exists_of_findSome?_eq_some h
    obtain ⟨u, ht, hu⟩ := afterWord?_eq_some_iff.mp hafter
    exact ⟨u, ht, word, hword, hu⟩
  · rintro ⟨u, rfl, word, hword, hu⟩
    have hafter : afterWord? word (u ++ rest) = some rest :=
      afterWord?_eq_some_iff.mpr ⟨u, rfl, hu⟩
    have hsome : ((words.findSome? (afterWord? · (u ++ rest)))).isSome = true :=
      List.findSome?_isSome_iff.mpr ⟨word, hword, by simp [hafter]⟩
    obtain ⟨found, hfound⟩ := Option.isSome_iff_exists.mp hsome
    obtain ⟨other, hother, hotherAfter⟩ := List.exists_of_findSome?_eq_some hfound
    obtain ⟨v, hsplit, hv⟩ := afterWord?_eq_some_iff.mp hotherAfter
    rw [afterOneOf?, hfound, (hwords.eq_of_append_eq hword hother hu hv hsplit).2.2]

theorem afterGap?_eq_some_iff {t rest : Text} : afterGap? t = some rest ↔
    ∃ gap, t = gap ++ rest ∧ gap ≠ [] ∧ gap.isBlank = true ∧
      ∀ c, rest.head? = some c → isSpace c = false := by
  cases t with
  | nil =>
    simp only [afterGap?, reduceCtorEq, false_iff]
    rintro ⟨gap, heq, hne, _⟩
    exact hne (List.append_eq_nil_iff.mp heq.symm).1
  | cons c t =>
    rw [afterGap?]
    by_cases hc : isSpace c = true
    · rw [if_pos hc, Option.some.injEq]
      constructor
      · rintro rfl
        refine ⟨c :: t.takeWhile isSpace, ?_, by simp, ?_, fun d => Text.head?_trimStart⟩
        · rw [List.cons_append, Text.takeWhile_append_trimStart]
        · rw [Text.isBlank, List.all_cons, hc, ← Text.isBlank, Text.isBlank_takeWhile]
          rfl
      · rintro ⟨gap, heq, hne, hgap, hhead⟩
        obtain ⟨d, gap, rfl⟩ := List.exists_cons_of_ne_nil hne
        obtain ⟨rfl, rfl⟩ := List.cons.inj heq
        rw [Text.isBlank, List.all_cons, Bool.and_eq_true] at hgap
        exact Text.trimStart_append_of_head hgap.2 hhead
    · rw [if_neg hc]
      simp only [reduceCtorEq, false_iff]
      rintro ⟨gap, heq, hne, hgap, _⟩
      obtain ⟨d, gap, rfl⟩ := List.exists_cons_of_ne_nil hne
      obtain ⟨rfl, _⟩ := List.cons.inj heq
      rw [Text.isBlank, List.all_cons, Bool.and_eq_true] at hgap
      exact hc hgap.1

/-- The text starts with a visible character that begins neither the mark of a docstring nor a code
    fence. -/
def StartsVisibly (t : Text) : Prop :=
  ∃ c, t.head? = some c ∧ isSpace c = false ∧ c ≠ '"' ∧ c ≠ '\x60'

theorem StartsVisibly.isSpace_head {t : Text} (h : StartsVisibly t) :
    ∀ c, t.head? = some c → isSpace c = false := by
  obtain ⟨d, hd, hspace, _⟩ := h
  intro c hc
  rw [hd] at hc
  rwa [← Option.some.inj hc]

theorem StartsVisibly.append {t : Text} (h : StartsVisibly t) (more : Text) :
    StartsVisibly (t ++ more) := by
  obtain ⟨c, hc, hvisible⟩ := h
  exact ⟨c, by simp [List.head?_append, hc], hvisible⟩

/-- A spelled word starts visibly if all of the words do. -/
theorem Spells.startsVisibly {words : List Text}
    (hwords : ∀ word ∈ words, StartsVisibly (word.map foldCase)) {u : Text}
    (h : Spells words u) : StartsVisibly u := by
  obtain ⟨word, hword, hu⟩ := h
  obtain ⟨c, hhead, hspace, hquote, htick⟩ := hwords word hword
  rw [← hu, List.head?_map, Option.map_eq_some_iff] at hhead
  obtain ⟨d, hd, rfl⟩ := hhead
  refine ⟨d, hd, isSpace_of_foldCase rfl hspace, ?_, ?_⟩
  · rintro rfl
    exact hquote rfl
  · rintro rfl
    exact htick rfl

/-- The words that lead an endpoint line. -/
def endpointWords : List Text :=
  ["Given".toList, "And".toList, "When".toList]

/-- The names that an endpoint line gives its value. -/
def endpointNames : List Text :=
  ["url".toList, "endpoint".toList]

/-- The text in front of the value of an endpoint line. -/
def IsEndpointLead (lead : Text) : Prop :=
  ∃ margin word gap name pad, lead = margin ++ (word ++ (gap ++ (name ++ pad))) ∧
    margin.isBlank = true ∧ Spells endpointWords word ∧ gap ≠ [] ∧ gap.isBlank = true ∧
    Spells endpointNames name ∧ pad ≠ [] ∧ pad.isBlank = true

private theorem take_length_sub {front back : Text} :
    (front ++ back).take ((front ++ back).length - back.length) = front := by
  rw [List.length_append, Nat.add_sub_cancel, List.take_left]

theorem endpointWords_visible :
    ∀ word ∈ endpointWords, StartsVisibly (word.map foldCase) := by
  intro word hword
  simp only [endpointWords, List.mem_cons, List.not_mem_nil, or_false] at hword
  rcases hword with rfl | rfl | rfl
  all_goals exact ⟨_, rfl, by decide⟩

theorem endpointNames_visible :
    ∀ name ∈ endpointNames, StartsVisibly (name.map foldCase) := by
  intro name hname
  simp only [endpointNames, List.mem_cons, List.not_mem_nil, or_false] at hname
  rcases hname with rfl | rfl
  all_goals exact ⟨_, rfl, by decide⟩

theorem IsEndpointLead.startsVisibly {lead : Text} (h : IsEndpointLead lead) :
    ∃ margin rest, lead = margin ++ rest ∧ margin.isBlank = true ∧ StartsVisibly rest := by
  obtain ⟨margin, word, gap, name, pad, hlead, hmargin, hword, _⟩ := h
  exact ⟨margin, _, hlead, hmargin, (hword.startsVisibly endpointWords_visible).append _⟩

/-- An endpoint line is a lead and a value, perhaps with white space behind it. -/
theorem endpointLine?_eq_some_iff {line : Text} {parts : EndpointLine} :
    endpointLine? line = some parts ↔
      ∃ rest, line = parts.lead ++ rest ∧ IsEndpointLead parts.lead ∧
        (∀ c, rest.head? = some c → isSpace c = false) ∧ parts.value = rest.trimEnd ∧
        parts.value ≠ [] ∧ '\n' ∉ parts.value := by
  have hwords : Distinguished ["Given".toList, "And".toList, "When".toList] := by decide
  have hnames : Distinguished ["url".toList, "endpoint".toList] := by decide
  simp only [endpointLine?, bind, Option.bind_eq_some_iff, afterOneOf?_eq_some_iff hwords,
    afterOneOf?_eq_some_iff hnames, afterGap?_eq_some_iff]
  constructor
  · rintro ⟨_, ⟨word, hline, hword⟩, _, ⟨gap, rfl, hgap, hgapBlank, _⟩, _, ⟨name, rfl, hname⟩, rest,
      ⟨pad, rfl, hpad, hpadBlank, hrest⟩, hparts⟩
    split at hparts
    · cases hparts
    · rename_i hvalue
      simp only [Bool.or_eq_true, List.isEmpty_iff, List.contains_iff_mem, not_or] at hvalue
      cases hparts
      have hsplit : line = (line.takeWhile isSpace ++ (word ++ (gap ++ (name ++ pad)))) ++ rest := by
        conv_lhs => rw [← Text.takeWhile_append_trimStart line, hline]
        simp
      have hlead : line.take (line.length - rest.length) =
          line.takeWhile isSpace ++ (word ++ (gap ++ (name ++ pad))) := by
        conv_lhs => rw [hsplit, take_length_sub]
      refine ⟨rest, ?_, ?_, hrest, rfl, hvalue.1, hvalue.2⟩
      · rw [hlead]
        exact hsplit
      · rw [hlead]
        exact ⟨_, word, gap, name, pad, rfl, Text.isBlank_takeWhile line, hword, hgap, hgapBlank,
          hname, hpad, hpadBlank⟩
  · rintro ⟨rest, hline, ⟨margin, word, gap, name, pad, hlead, hmargin, hword, hgap, hgapBlank,
      hname, hpad, hpadBlank⟩, hrest, hvalue, hne, hfeed⟩
    have hwordStart := hword.startsVisibly endpointWords_visible
    have hnameStart := hname.startsVisibly endpointNames_visible
    have htrim : line.trimStart = word ++ (gap ++ (name ++ (pad ++ rest))) := by
      rw [hline, hlead, List.append_assoc, Text.trimStart_append_of_head hmargin]
      · simp
      · rw [List.append_assoc]
        exact (hwordStart.append _).isSpace_head
    refine ⟨_, ⟨word, htrim, hword⟩, _,
      ⟨gap, rfl, hgap, hgapBlank, (hnameStart.append _).isSpace_head⟩, _, ⟨name, rfl, hname⟩, rest,
      ⟨pad, rfl, hpad, hpadBlank, hrest⟩, ?_⟩
    rw [← hvalue, if_neg (by simp [hne, hfeed]), hline, take_length_sub]

section Leading

/-- An endpoint line leads with a keyword of the setup, whatever its value is. -/
theorem IsEndpointLead.leading? {lead : Text} (h : IsEndpointLead lead) :
    ∃ keyword, keyword ≠ .then ∧ keyword.isHeader = false ∧
      ∀ rest, Keyword.leading? (lead ++ rest) = some keyword := by
  obtain ⟨margin, word, gap, name, pad, rfl, hmargin, ⟨spelled, hspelled, hword⟩, hgap, hgapBlank,
    _⟩ := h
  have hleading : ∀ keyword : Keyword, Text.alike word keyword.word = true → ∀ rest,
      Keyword.leading? (margin ++ (word ++ (gap ++ (name ++ pad))) ++ rest) = some keyword := by
    intro keyword halike rest
    rw [List.append_assoc, List.append_assoc, List.append_assoc]
    exact Keyword.leading?_of_alike hmargin halike (Keyword.endsWord_of_gap hgap hgapBlank _)
  simp only [endpointWords, List.mem_cons, List.not_mem_nil, or_false] at hspelled
  rcases hspelled with rfl | rfl | rfl
  · exact ⟨.given, by decide, rfl, hleading .given (alike_of_foldCase hword (by decide))⟩
  · exact ⟨.and, by decide, rfl, hleading .and (alike_of_foldCase hword (by decide))⟩
  · exact ⟨.when, by decide, rfl, hleading .when (alike_of_foldCase hword (by decide))⟩

theorem exists_leading?_of_endpointLine {line : Text} (h : (endpointLine? line).isSome = true) :
    ∃ keyword : Keyword, keyword ≠ .then ∧ keyword.isHeader = false ∧
      Keyword.leading? line = some keyword := by
  obtain ⟨parts, hparts⟩ := Option.isSome_iff_exists.mp h
  obtain ⟨rest, hline, hlead, _⟩ := endpointLine?_eq_some_iff.mp hparts
  obtain ⟨keyword, hthen, hheader, hleading⟩ := hlead.leading?
  exact ⟨keyword, hthen, hheader, hline ▸ hleading rest⟩

/-- No setup step asserts anything. -/
theorem leading?_ne_then_of_afterSetup? {line : Text} (h : (afterSetup? line).isSome = true) :
    Keyword.leading? line ≠ some .then := by
  intro hthen
  obtain ⟨u, rest, hline, halike, _⟩ := Keyword.leading?_eq_some_iff.mp hthen
  obtain ⟨c, u, rfl⟩ := List.exists_cons_of_ne_nil (l := u) (by rintro rfl; cases halike)
  have hhead : c.toLower = 't' := by
    rw [Text.alike, beq_iff_eq] at halike
    exact (List.cons.inj halike).1
  have hfold : foldCase c = 't' := by
    rw [foldCase, if_neg (by rintro rfl; cases hhead), if_neg (by rintro rfl; cases hhead), hhead]
  have hwords : Distinguished ["Given".toList, "When".toList, "And".toList, ['*']] := by decide
  obtain ⟨t, ht⟩ := Option.isSome_iff_exists.mp h
  simp only [afterSetup?, bind, Option.bind_eq_some_iff, afterOneOf?_eq_some_iff hwords] at ht
  obtain ⟨_, ⟨v, hv, word, hword, hspelled⟩, _⟩ := ht
  have hstart : v.map foldCase ≠ [] → (v.map foldCase).head? = some 't' := by
    intro hne
    obtain ⟨d, v, rfl⟩ := List.exists_cons_of_ne_nil (l := v) (by rintro rfl; exact hne rfl)
    rw [hline, List.cons_append, List.cons_append] at hv
    rw [← (List.cons.inj hv).1, List.map_cons, List.head?_cons, hfold]
  have hall : ∀ word ∈ ["Given".toList, "When".toList, "And".toList, ['*']],
      word.map foldCase ≠ [] ∧ (word.map foldCase).head? ≠ some 't' := by decide
  obtain ⟨hne, hnot⟩ := hall word hword
  rw [← hspelled] at hne hnot
  exact hnot (hstart hne)

theorem isSome_afterSetup?_of_isContentTypeHeader {line : Text}
    (h : isContentTypeHeader line = true) : (afterSetup? line).isSome = true := by
  rw [isContentTypeHeader] at h
  cases hsetup : afterSetup? line with
  | none => simp [hsetup] at h
  | some t => rfl

end Leading

end Scenario

end ScenarioLint
