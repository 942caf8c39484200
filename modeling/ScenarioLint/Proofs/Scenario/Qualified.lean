import ScenarioLint.Proofs.Endpoint
import ScenarioLint.Proofs.Scenario.Phrase
import ScenarioLint.Scenario.Repair

/-!
Qualified endpoint lines.  A line keeps its lead when its value is qualified, and it is recognised
again with the qualified value.
-/

namespace ScenarioLint.Scenario

/-- The quote around a value: one of the two quotation marks, or none. -/
def IsQuote (quote : Text) : Prop :=
  quote = [] ∨ quote = ['"'] ∨ quote = ['\'']

theorem unquote_spec (v : Text) :
    IsQuote (unquote v).1 ∧ v = (unquote v).1 ++ (unquote v).2 ++ (unquote v).1 := by
  cases v with
  | nil => exact ⟨.inl rfl, rfl⟩
  | cons q rest =>
    rw [unquote]
    split
    · rename_i hquote
      simp only [Bool.and_eq_true, Bool.or_eq_true, decide_eq_true_eq] at hquote
      obtain ⟨hq, hlast⟩ := hquote
      refine ⟨?_, ?_⟩
      · rcases hq with rfl | rfl
        · exact .inr (.inl rfl)
        · exact .inr (.inr rfl)
      · obtain ⟨front, rfl⟩ := List.getLast?_eq_some_iff.mp hlast
        simp
    · exact ⟨.inl rfl, by simp⟩

/-- A value in quotes, and a value that starts with no quote, are taken apart as they were put
    together. -/
theorem unquote_append {quote inner : Text} (hquote : IsQuote quote)
    (hhead : quote = [] → ∀ c, inner.head? = some c → c ≠ '"' ∧ c ≠ '\'') :
    unquote (quote ++ inner ++ quote) = (quote, inner) := by
  rcases hquote with rfl | rfl | rfl
  · rw [List.nil_append, List.append_nil]
    cases inner with
    | nil => rfl
    | cons c rest =>
      obtain ⟨hdouble, hsingle⟩ := hhead rfl c rfl
      simp [unquote, hdouble, hsingle]
  · simp [unquote]
  · simp [unquote]

theorem IsQuote.eq_nil_or {quote : Text} (h : IsQuote quote) :
    quote = [] ∨ ∃ q, quote = [q] ∧ isSpace q = false := by
  rcases h with rfl | rfl | rfl
  · exact .inl rfl
  · exact .inr ⟨_, rfl, rfl⟩
  · exact .inr ⟨_, rfl, rfl⟩

theorem IsQuote.not_mem_of_isSpace {quote : Text} (h : IsQuote quote) {c : Char}
    (hc : isSpace c = true) : c ∉ quote := by
  obtain rfl | ⟨q, rfl, hq⟩ := h.eq_nil_or
  · simp
  · rw [List.mem_singleton]
    rintro rfl
    rw [hc] at hq
    cases hq

theorem isSchemeChar_visible {c : Char} (h : isSchemeChar c = true) :
    isSpace c = false ∧ c ≠ '"' ∧ c ≠ '\'' := by
  refine ⟨?_, fun heq => ?_, fun heq => ?_⟩
  · have h : ((((decide ('A'.val ≤ c.val ∧ c.val ≤ 'Z'.val) ||
        (decide ('a'.val ≤ c.val) && decide (c.val ≤ 'z'.val))) ||
          (decide ('0'.val ≤ c.val) && decide (c.val ≤ '9'.val))) || c == '+') || c == '-') ||
            c == '.' := h
    simp only [Bool.or_eq_true, beq_iff_eq, Bool.and_eq_true, decide_eq_true_eq] at h
    obtain ((((⟨hlow, hhigh⟩ | ⟨hlow, hhigh⟩) | ⟨hlow, hhigh⟩) | rfl) | rfl) | rfl := h
    · exact Text.isSpace_of_between hlow hhigh (by decide)
    · exact Text.isSpace_of_between hlow hhigh (by decide)
    · exact Text.isSpace_of_between hlow hhigh (by decide)
    all_goals rfl
  · rw [heq] at h
    cases h
  · rw [heq] at h
    cases h

/-- How a line changes when its value is qualified, if it changes at all. -/
theorem qualifyLine_of_endpointLine {e : Endpoint} {line : Text} {parts : EndpointLine}
    (h : endpointLine? line = some parts) :
    qualifyLine e line = line ∨
      ∃ quote inner, parts.value = quote ++ inner ++ quote ∧ IsQuote quote ∧ inner ≠ [] ∧
        (∀ c ∈ inner, isSpace c = false) ∧ e.qualify inner ≠ inner ∧
        qualifyLine e line = parts.lead ++ (quote ++ e.qualify inner ++ quote) := by
  obtain ⟨hquote, hvalue⟩ := unquote_spec parts.value
  simp only [qualifyLine, h]
  split
  · exact .inl rfl
  · rename_i hinner
    simp only [Bool.or_eq_true, List.isEmpty_iff, List.any_eq_true, not_or, not_exists, not_and,
      Bool.not_eq_true] at hinner
    split
    · exact .inl rfl
    · rename_i hne
      exact .inr ⟨_, _, hvalue, hquote, hinner.1, hinner.2, hne, by simp⟩

/-- The visible ends of a qualified value between its quotes. -/
theorem ends_of_qualified {e : Endpoint} {quote inner : Text} (hquote : IsQuote quote)
    (hne : inner ≠ []) (hvisible : ∀ c ∈ inner, isSpace c = false)
    (hchanged : e.qualify inner ≠ inner) :
    (∀ c, (quote ++ e.qualify inner ++ quote).head? = some c → isSpace c = false) ∧
      ∀ c, (quote ++ e.qualify inner ++ quote).getLast? = some c → isSpace c = false := by
  obtain rfl | ⟨q, rfl, hq⟩ := hquote.eq_nil_or
  · rw [List.nil_append, List.append_nil]
    refine ⟨fun c hc => ?_, fun c hc => ?_⟩
    · obtain ⟨d, hd, hscheme⟩ := Endpoint.head?_qualify_of_ne hchanged
      rw [hd] at hc
      exact Option.some.inj hc ▸ (isSchemeChar_visible hscheme).1
    · rw [Endpoint.getLast?_qualify hne] at hc
      exact hvisible c (List.mem_of_getLast? hc)
  · refine ⟨fun c hc => ?_, fun c hc => ?_⟩
    · exact Option.some.inj hc ▸ hq
    · rw [List.getLast?_concat] at hc
      exact Option.some.inj hc ▸ hq

theorem qualified_ne_nil {e : Endpoint} {inner : Text} (quote : Text)
    (hchanged : e.qualify inner ≠ inner) : quote ++ e.qualify inner ++ quote ≠ [] := by
  obtain ⟨c, hc, _⟩ := Endpoint.head?_qualify_of_ne hchanged
  intro hnil
  simp only [List.append_eq_nil_iff] at hnil
  rw [hnil.1.2] at hc
  cases hc

/-- A value on one line stays on one line. -/
theorem feed_not_mem_qualified {e : Endpoint} (hhost : ∀ host ∈ e.host, '\n' ∉ host)
    {quote inner : Text} (hquote : IsQuote quote) (hfeed : '\n' ∉ quote ++ inner ++ quote) :
    '\n' ∉ quote ++ e.qualify inner ++ quote := by
  have hinner : '\n' ∉ inner := fun hmem => hfeed (by simp [hmem])
  have hqualified := Endpoint.not_mem_qualify (by decide) hhost hinner
  have hquoteFeed : '\n' ∉ quote := hquote.not_mem_of_isSpace rfl
  simp [hqualified, hquoteFeed]

/-- A line whose value has been qualified is an endpoint line with the same lead, and its value
    needs no further qualification. -/
theorem endpointLine?_qualifyLine {e : Endpoint} (hhost : ∀ host ∈ e.host, '\n' ∉ host)
    {line : Text} {parts : EndpointLine} (h : endpointLine? line = some parts) :
    (∃ value, endpointLine? (qualifyLine e line) = some ⟨parts.lead, value⟩) ∧
      qualifyLine e (qualifyLine e line) = qualifyLine e line := by
  obtain hsame | ⟨quote, inner, hvalue, hquote, hne, hvisible, hchanged, hline⟩ :=
    qualifyLine_of_endpointLine (e := e) h
  · rw [hsame]
    exact ⟨⟨parts.value, h⟩, hsame⟩
  · obtain ⟨hhead, hlast⟩ := ends_of_qualified hquote hne hvisible hchanged
    obtain ⟨_, _, hlead, _, _, _, hfeed⟩ := endpointLine?_eq_some_iff.mp h
    have hagain : endpointLine? (qualifyLine e line) =
        some ⟨parts.lead, quote ++ e.qualify inner ++ quote⟩ := by
      refine endpointLine?_eq_some_iff.mpr ⟨_, hline, hlead, hhead,
        (Text.trimEnd_of_getLast hlast).symm, qualified_ne_nil quote hchanged, ?_⟩
      exact feed_not_mem_qualified hhost hquote (hvalue ▸ hfeed)
    refine ⟨⟨_, hagain⟩, ?_⟩
    have hunquote : unquote (quote ++ e.qualify inner ++ quote) = (quote, e.qualify inner) := by
      apply unquote_append hquote
      intro _ c hc
      obtain ⟨d, hd, hscheme⟩ := Endpoint.head?_qualify_of_ne hchanged
      rw [hd] at hc
      exact Option.some.inj hc ▸ (isSchemeChar_visible hscheme).2
    rw [qualifyLine, hagain]
    simp only [hunquote, Endpoint.qualify_qualify_eq, if_true, ite_self]

section Again

variable {e : Endpoint} {line : Text}

theorem isSome_endpointLine?_qualifyLine (hhost : ∀ host ∈ e.host, '\n' ∉ host)
    (h : (endpointLine? line).isSome = true) :
    (endpointLine? (qualifyLine e line)).isSome = true := by
  obtain ⟨parts, hparts⟩ := Option.isSome_iff_exists.mp h
  obtain ⟨⟨_, hagain⟩, _⟩ := endpointLine?_qualifyLine hhost hparts
  exact Option.isSome_of_eq_some hagain

/-- The keyword is part of the lead. -/
theorem leading?_qualifyLine (hhost : ∀ host ∈ e.host, '\n' ∉ host)
    (h : (endpointLine? line).isSome = true) :
    Keyword.leading? (qualifyLine e line) = Keyword.leading? line := by
  obtain ⟨parts, hparts⟩ := Option.isSome_iff_exists.mp h
  obtain ⟨⟨_, hagain⟩, _⟩ := endpointLine?_qualifyLine hhost hparts
  obtain ⟨rest, hold, hlead, _⟩ := endpointLine?_eq_some_iff.mp hparts
  obtain ⟨more, hnew, _⟩ := endpointLine?_eq_some_iff.mp hagain
  obtain ⟨keyword, _, _, hleading⟩ := hlead.leading?
  rw [hnew, hold, hleading, hleading]

end Again

theorem hasMark_of_startsVisibly {margin t : Text} (hmargin : margin.isBlank = true)
    (h : StartsVisibly t) : hasMark (margin ++ t) = false := by
  have hhead := h.isSpace_head
  obtain ⟨c, hc, _, hquote, _⟩ := h
  rw [hasMark, Text.trimStart_append_of_head hmargin hhead]
  obtain ⟨rest, rfl⟩ := List.head?_eq_some_iff.mp hc
  simp [docstringMark, List.isPrefixOf, Ne.symm hquote]

theorem isFence_of_startsVisibly {margin t : Text} (hmargin : margin.isBlank = true)
    (h : StartsVisibly t) : isFence (margin ++ t) = false := by
  have hhead := h.isSpace_head
  obtain ⟨c, hc, _, _, htick⟩ := h
  rw [isFence, Text.trimStart_append_of_head hmargin hhead]
  obtain ⟨rest, rfl⟩ := List.head?_eq_some_iff.mp hc
  simp [List.isPrefixOf, Ne.symm htick]

/-- A line with the lead of an endpoint line is neither the mark of a docstring nor a fence. -/
theorem plain_of_lead {lead : Text} (h : IsEndpointLead lead) (rest : Text) :
    hasMark (lead ++ rest) = false ∧ isFence (lead ++ rest) = false := by
  obtain ⟨margin, start, rfl, hmargin, hstart⟩ := h.startsVisibly
  rw [List.append_assoc]
  exact ⟨hasMark_of_startsVisibly hmargin (hstart.append rest),
    isFence_of_startsVisibly hmargin (hstart.append rest)⟩

theorem plain_of_endpointLine {line : Text} (h : (endpointLine? line).isSome = true) :
    hasMark line = false ∧ isFence line = false := by
  obtain ⟨parts, hparts⟩ := Option.isSome_iff_exists.mp h
  obtain ⟨rest, hline, hlead, _⟩ := endpointLine?_eq_some_iff.mp hparts
  rw [hline]
  exact plain_of_lead hlead rest

end ScenarioLint.Scenario
