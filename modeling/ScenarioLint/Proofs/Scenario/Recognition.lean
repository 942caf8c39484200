import ScenarioLint.Proofs.Scenario.Docstring
import ScenarioLint.Proofs.Scenario.StatusPhrase

/-!
What lines are recognised as.

White space at the end of a line makes no difference to it, so the lines of a written text count for
the same as before they were written.  An endpoint line is recognised as nothing else that a repair
looks for.
-/

namespace ScenarioLint.Scenario

/-- What follows the first word of a line, if it is one of some, and the white space behind it. -/
def afterLead? (words : List Text) (line : Text) : Option Text :=
  (afterOneOf? words line.trimStart).bind afterGap?

theorem afterSetup?_eq (line : Text) : afterSetup? line =
    afterLead? ["Given".toList, "When".toList, "And".toList, ['*']] line :=
  rfl

theorem isExecutionLine_eq (line : Text) : isExecutionLine line =
    (((afterLead? ["When".toList, "And".toList] line).bind
      (afterWord? "method".toList)).bind afterGap?).any (!·.isEmpty) := by
  simp only [isExecutionLine, afterLead?, Option.bind_assoc]
  rfl

/-- No character of the word is white space, whatever its case. -/
def Visible (word : Text) : Prop :=
  ∀ c ∈ word.map foldCase, isSpace c = false

instance (word : Text) : Decidable (Visible word) :=
  inferInstanceAs (Decidable (∀ c ∈ word.map foldCase, _))

theorem Visible.of_spelled {word u : Text} (h : Visible word)
    (hu : u.map foldCase = word.map foldCase) : ∀ c ∈ u, isSpace c = false := by
  intro c hc
  refine isSpace_of_foldCase rfl (h (foldCase c) ?_)
  rw [← hu]
  exact List.mem_map_of_mem hc

section Behind

variable {ws : Text}

theorem trimStart_append_eq (hws : ws.isBlank = true) (line : Text) :
    (line.trimStart = [] ∧ (line ++ ws).trimStart = []) ∨
      (line ++ ws).trimStart = line.trimStart ++ ws := by
  rw [Text.trimStart, Text.trimStart, List.dropWhile_append]
  cases hempty : (line.dropWhile isSpace).isEmpty with
  | true =>
    exact .inl ⟨List.isEmpty_iff.mp hempty,
      List.dropWhile_eq_nil_iff.mpr (Text.isBlank_iff.mp hws)⟩
  | false => exact .inr rfl

theorem afterWord?_append (hws : ws.isBlank = true) {word : Text} (hword : Visible word)
    (t : Text) : afterWord? word (t ++ ws) = (afterWord? word t).map (· ++ ws) := by
  apply Option.ext
  intro rest
  rw [afterWord?_eq_some_iff, Option.map_eq_some_iff]
  constructor
  · rintro ⟨u, ht, hu⟩
    obtain ⟨more, rfl⟩ := Text.isPrefix_of_isPrefix_append hws
      (fun c hc => hword.of_spelled hu c (List.mem_of_getLast? hc)) (ht ▸ List.prefix_append u rest)
    rw [List.append_assoc, List.append_cancel_left_eq] at ht
    exact ⟨more, afterWord?_eq_some_iff.mpr ⟨u, rfl, hu⟩, ht⟩
  · rintro ⟨more, hmore, rfl⟩
    obtain ⟨u, rfl, hu⟩ := afterWord?_eq_some_iff.mp hmore
    exact ⟨u, List.append_assoc u more ws, hu⟩

theorem afterOneOf?_append (hws : ws.isBlank = true) {words : List Text}
    (hwords : ∀ word ∈ words, Visible word) (t : Text) :
    afterOneOf? words (t ++ ws) = (afterOneOf? words t).map (· ++ ws) := by
  induction words with
  | nil => rfl
  | cons word words ih =>
    obtain ⟨hword, hmore⟩ := List.forall_mem_cons.mp hwords
    have hrest := ih hmore
    rw [afterOneOf?, afterOneOf?] at hrest ⊢
    rw [List.findSome?_cons, List.findSome?_cons, afterWord?_append hws hword]
    cases afterWord? word t with
    | some rest => rfl
    | none => exact hrest

/-- What is visible behind a gap stays so with white space behind it. -/
theorem afterGap?_append_iff (hws : ws.isBlank = true) {t rest : Text} :
    (afterGap? (t ++ ws) = some rest ∧ rest ≠ []) ↔
      ∃ more, afterGap? t = some more ∧ more ≠ [] ∧ rest = more ++ ws := by
  simp only [afterGap?_eq_some_iff]
  constructor
  · rintro ⟨⟨gap, ht, hgap, hblank, hhead⟩, hne⟩
    obtain ⟨c, rest, rfl⟩ := List.exists_cons_of_ne_nil hne
    have hprefix : gap ++ [c] <+: t ++ ws := ht ▸ ⟨rest, by simp⟩
    have hlast : ∀ d, (gap ++ [c]).getLast? = some d → isSpace d = false := by
      intro d hd
      rw [List.getLast?_concat] at hd
      exact Option.some.inj hd ▸ hhead c rfl
    obtain ⟨more, rfl⟩ := Text.isPrefix_of_isPrefix_append hws hlast hprefix
    refine ⟨c :: more, ⟨gap, by simp, hgap, hblank, hhead⟩, by simp, ?_⟩
    simpa using ht.symm
  · rintro ⟨more, ⟨gap, rfl, hgap, hblank, hhead⟩, hne, rfl⟩
    obtain ⟨c, more, rfl⟩ := List.exists_cons_of_ne_nil hne
    exact ⟨⟨gap, List.append_assoc _ _ _, hgap, hblank, hhead⟩, by simp⟩

theorem afterLead?_append_iff (hws : ws.isBlank = true) {words : List Text}
    (hwords : ∀ word ∈ words, word ≠ [] ∧ Visible word) {line rest : Text} :
    (afterLead? words (line ++ ws) = some rest ∧ rest ≠ []) ↔
      ∃ more, afterLead? words line = some more ∧ more ≠ [] ∧ rest = more ++ ws := by
  rw [afterLead?, afterLead?]
  obtain ⟨hline, hempty⟩ | htrim := trimStart_append_eq hws line
  · have hnone : afterOneOf? words [] = none := by
      rw [afterOneOf?, List.findSome?_eq_none_iff]
      intro word hword
      obtain ⟨c, word, rfl⟩ := List.exists_cons_of_ne_nil (hwords _ hword).1
      rfl
    rw [hline, hempty, hnone]
    simp
  · rw [htrim, afterOneOf?_append hws fun word hword => (hwords word hword).2]
    cases afterOneOf? words line.trimStart with
    | none => simp
    | some t => exact afterGap?_append_iff hws

/-- A line leads with a word and goes on with another one, whatever white space is at its end. -/
theorem afterLead?_bind_append (hws : ws.isBlank = true) {words : List Text}
    (hwords : ∀ word ∈ words, word ≠ [] ∧ Visible word) {word : Text} (hne : word ≠ [])
    (hword : Visible word) (line : Text) :
    (afterLead? words (line ++ ws)).bind (afterWord? word) =
      ((afterLead? words line).bind (afterWord? word)).map (· ++ ws) := by
  have hstart : ∀ {t rest : Text}, afterWord? word t = some rest → t ≠ [] := by
    rintro _ rest h rfl
    obtain ⟨c, word, rfl⟩ := List.exists_cons_of_ne_nil hne
    cases h
  apply Option.ext
  intro rest
  rw [Option.bind_eq_some_iff, Option.map_eq_some_iff]
  constructor
  · rintro ⟨t, ht, hafter⟩
    obtain ⟨more, hmore, _, rfl⟩ := (afterLead?_append_iff hws hwords).mp ⟨ht, hstart hafter⟩
    rw [afterWord?_append hws hword, Option.map_eq_some_iff] at hafter
    obtain ⟨tail, htail, rfl⟩ := hafter
    exact ⟨tail, Option.bind_eq_some_iff.mpr ⟨more, hmore, htail⟩, rfl⟩
  · rintro ⟨tail, htail, rfl⟩
    obtain ⟨more, hmore, hafter⟩ := Option.bind_eq_some_iff.mp htail
    obtain ⟨hagain, _⟩ := (afterLead?_append_iff hws hwords).mpr ⟨more, hmore, hstart hafter, rfl⟩
    refine ⟨more ++ ws, hagain, ?_⟩
    rw [afterWord?_append hws hword, hafter]
    rfl

theorem isRequestStep_append (hws : ws.isBlank = true) (line : Text) :
    isRequestStep (line ++ ws) = isRequestStep line := by
  rw [isRequestStep, isRequestStep, afterSetup?_eq, afterSetup?_eq,
    afterLead?_bind_append hws (by decide) (by decide) (by decide), Option.any_map]
  congr 1
  funext t
  exact atWordEnd_append hws t

theorem hasContentType_of_isBlank (hws : ws.isBlank = true) (fresh : Bool) :
    hasContentType fresh ws = false := by
  induction ws generalizing fresh with
  | nil => rfl
  | cons c ws ih =>
    have hrest : Text.isBlank ws = true := Text.isBlank_iff.mpr fun d hd =>
      Text.isBlank_iff.mp hws d (List.mem_cons_of_mem c hd)
    have hnone : afterWord? "content-type".toList (c :: ws) = none :=
      afterWord?_append (t := []) hws (by decide)
    rw [hasContentType, hnone, ih hrest]
    simp

theorem hasContentType_append (hws : ws.isBlank = true) (fresh : Bool) (t : Text) :
    hasContentType fresh (t ++ ws) = hasContentType fresh t := by
  induction t generalizing fresh with
  | nil => exact hasContentType_of_isBlank hws fresh
  | cons c t ih =>
    have hword : ((afterWord? "content-type".toList (c :: (t ++ ws))).any atWordEnd) =
        (afterWord? "content-type".toList (c :: t)).any atWordEnd := by
      rw [← List.cons_append, afterWord?_append hws (by decide), Option.any_map]
      congr 1
      funext rest
      exact atWordEnd_append hws rest
    rw [List.cons_append, hasContentType, hasContentType, hword, ih]

theorem isContentTypeHeader_append (hws : ws.isBlank = true) (line : Text) :
    isContentTypeHeader (line ++ ws) = isContentTypeHeader line := by
  rw [isContentTypeHeader, isContentTypeHeader, afterSetup?_eq, afterSetup?_eq,
    afterLead?_bind_append hws (by decide) (by decide) (by decide)]
  cases (afterLead? ["Given".toList, "When".toList, "And".toList, ['*']] line).bind
      (afterWord? "header".toList) with
  | none => rfl
  | some t =>
    simp only [Option.map_some, atWordEnd_append hws, hasContentType_append hws,
      afterWord?_append hws (show Visible ['s'] by decide), Option.any_map]

theorem isExecutionLine_append (hws : ws.isBlank = true) (line : Text) :
    isExecutionLine (line ++ ws) = isExecutionLine line := by
  rw [isExecutionLine_eq, isExecutionLine_eq,
    afterLead?_bind_append hws (by decide) (by decide) (by decide)]
  cases (afterLead? ["When".toList, "And".toList] line).bind (afterWord? "method".toList) with
  | none => rfl
  | some t =>
    have hiff : ∀ u : Text, ((afterGap? u).any (!·.isEmpty)) = true ↔
        ∃ rest, afterGap? u = some rest ∧ rest ≠ [] := by
      intro u
      cases afterGap? u <;> simp
    rw [Option.map_some, Option.bind_some, Option.bind_some, Bool.eq_iff_iff, hiff, hiff]
    simp only [afterGap?_append_iff hws]
    constructor
    · rintro ⟨_, more, hmore, hne, _⟩
      exact ⟨more, hmore, hne⟩
    · rintro ⟨more, hmore, hne⟩
      exact ⟨_, more, hmore, hne, rfl⟩

theorem endpointLine?_append (hws : ws.isBlank = true) (line : Text) :
    endpointLine? (line ++ ws) = endpointLine? line := by
  apply Option.ext
  intro parts
  rw [endpointLine?_eq_some_iff, endpointLine?_eq_some_iff]
  constructor
  · rintro ⟨rest, hline, hlead, hhead, hvalue, hne, hfeed⟩
    obtain ⟨space, hspace, hblank⟩ := Text.exists_trimEnd_append rest
    rw [← hvalue] at hspace
    have hlast : ∀ c, (parts.lead ++ parts.value).getLast? = some c → isSpace c = false := by
      intro c hc
      rw [List.getLast?_append_of_ne_nil _ hne, hvalue] at hc
      exact Text.getLast?_trimEnd hc
    have hprefix : parts.lead ++ parts.value <+: line ++ ws :=
      ⟨space, by rw [hline, hspace, List.append_assoc]⟩
    obtain ⟨more, rfl⟩ := Text.isPrefix_of_isPrefix_append hws hlast hprefix
    rw [hspace, List.append_assoc, List.append_assoc, List.append_cancel_left_eq,
      List.append_cancel_left_eq] at hline
    have hmore : Text.isBlank more = true := by
      rw [← hline, Text.isBlank, List.all_append, Bool.and_eq_true] at hblank
      exact hblank.1
    refine ⟨parts.value ++ more, List.append_assoc _ _ _, hlead, ?_, ?_, hne, hfeed⟩
    · intro c hc
      apply hhead c
      rw [hspace]
      rwa [List.head?_append_of_ne_nil _ hne] at hc ⊢
    · refine (Text.trimEnd_append_of_getLast hmore fun c hc => ?_).symm
      rw [hvalue] at hc
      exact Text.getLast?_trimEnd hc
  · rintro ⟨rest, rfl, hlead, hhead, hvalue, hne, hfeed⟩
    refine ⟨rest ++ ws, List.append_assoc _ _ _, hlead, ?_, ?_, hne, hfeed⟩
    · have hrest : rest ≠ [] := by
        rintro rfl
        exact hne hvalue
      rwa [List.head?_append_of_ne_nil _ hrest]
    · rw [hvalue, Text.trimEnd_append_of_isBlank hws]

end Behind

/-- The line counts for the same as another one, whatever a repair looks for. -/
structure CountsAs (other line : Text) : Prop where
  mark : hasMark other = hasMark line
  keyword : ∀ role, keywordIn role other = keywordIn role line
  endpoint : endpointLine? other = endpointLine? line
  header : isContentTypeHeader other = isContentTypeHeader line
  request : isRequestStep other = isRequestStep line
  execution : isExecutionLine other = isExecutionLine line

theorem countsAs_dropReturn (line : Text) : CountsAs line.dropReturn line := by
  obtain ⟨ws, hws, hblank⟩ := Text.exists_dropReturn_append line
  refine ⟨?_, fun role => ?_, ?_, ?_, ?_, ?_⟩
  · rw [← hasMark_trim, Text.trim_dropReturn, hasMark_trim]
  · have hleading : Keyword.leading? line.dropReturn = Keyword.leading? line := by
      rw [← Keyword.leading?_trim, Text.trim_dropReturn, Keyword.leading?_trim]
    rw [keywordIn, keywordIn]
    split
    · exact hleading
    · rfl
  · conv_rhs => rw [hws, endpointLine?_append hblank]
  · conv_rhs => rw [hws, isContentTypeHeader_append hblank]
  · conv_rhs => rw [hws, isRequestStep_append hblank]
  · conv_rhs => rw [hws, isExecutionLine_append hblank]

section Endpoint

/-- An endpoint line goes on with the name of its value, so it does not go on with another word. -/
theorem afterLead?_bind_of_endpointLine {line : Text} (h : (endpointLine? line).isSome = true)
    {words : List Text} (hwords : Distinguished words)
    (hall : Distinguished (endpointWords ++ words)) {word : Text}
    (hnames : Distinguished (endpointNames ++ [word])) (hother : word ∉ endpointNames) :
    (afterLead? words line).bind (afterWord? word) = none := by
  rw [Option.eq_none_iff_forall_not_mem]
  intro rest hrest
  obtain ⟨t, ht, hafter⟩ := Option.bind_eq_some_iff.mp hrest
  obtain ⟨u, hu, hgap⟩ := Option.bind_eq_some_iff.mp ht
  obtain ⟨first, gap, name, more, hline, ⟨spelled, hspelled, hfirst⟩, hgapNe, hgapBlank, hname⟩ :=
    exists_words_of_endpointLine h
  obtain ⟨v, hv, spelledToo, hspelledToo, hvSpelled⟩ := (afterOneOf?_eq_some_iff hwords).mp hu
  rw [hline] at hv
  obtain ⟨_, _, rfl⟩ := hall.eq_of_append_eq (List.mem_append_left _ hspelled)
    (List.mem_append_right _ hspelledToo) hfirst hvSpelled hv
  have hbehind : afterGap? (gap ++ (name ++ more)) = some (name ++ more) :=
    afterGap?_eq_some_iff.mpr ⟨gap, rfl, hgapNe, hgapBlank,
      ((hname.startsVisibly endpointNames_visible).append more).isSpace_head⟩
  obtain rfl := Option.some.inj (hbehind.symm.trans hgap)
  obtain ⟨w, hw, hwSpelled⟩ := afterWord?_eq_some_iff.mp hafter
  obtain ⟨nameSpelled, hnameSpelled, hname⟩ := hname
  obtain ⟨heq, _⟩ := hnames.eq_of_append_eq (List.mem_append_left _ hnameSpelled)
    (List.mem_append_right _ (List.mem_singleton_self word)) hname hwSpelled hw
  exact hother (heq ▸ hnameSpelled)

/-- A line that names the endpoint is nothing else that a repair looks for. -/
theorem not_other_of_endpointLine {line : Text} (h : (endpointLine? line).isSome = true) :
    isContentTypeHeader line = false ∧ isRequestStep line = false ∧
      isExecutionLine line = false := by
  refine ⟨?_, ?_, ?_⟩
  · rw [isContentTypeHeader, afterSetup?_eq, afterLead?_bind_of_endpointLine h (by decide)
      (by decide) (by decide) (by decide)]
  · rw [isRequestStep, afterSetup?_eq, afterLead?_bind_of_endpointLine h (by decide)
      (by decide) (by decide) (by decide)]
    rfl
  · rw [isExecutionLine_eq, afterLead?_bind_of_endpointLine h (by decide) (by decide) (by decide)
      (by decide)]
    rfl

end Endpoint

end ScenarioLint.Scenario
