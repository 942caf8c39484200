import ScenarioLint.Proofs.Scenario.Settled
import ScenarioLint.Proofs.Text.Lines

/-!
Repairing a scenario once is enough.  The blank lines at both ends may go without unsettling the
rest, and what a repair writes is read back line by line as it was written.
-/

namespace ScenarioLint.Scenario

section Trimming

theorem trimLines_eq (lines : List Text) :
    trimLines lines = (lines.dropWhile Text.isBlank).rdropWhile Text.isBlank :=
  rfl

theorem trimLines_trimLines (lines : List Text) : trimLines (trimLines lines) = trimLines lines := by
  rw [trimLines_eq, trimLines_eq]
  have hfront : ((lines.dropWhile Text.isBlank).rdropWhile Text.isBlank).dropWhile Text.isBlank =
      (lines.dropWhile Text.isBlank).rdropWhile Text.isBlank := by
    obtain ⟨more, hmore⟩ := List.rdropWhile_prefix Text.isBlank (lines.dropWhile Text.isBlank)
    have hhead := List.head?_dropWhile_not Text.isBlank lines
    cases htrimmed : (lines.dropWhile Text.isBlank).rdropWhile Text.isBlank with
    | nil => rfl
    | cons first rest =>
      rw [← hmore, htrimmed, List.cons_append, List.head?_cons] at hhead
      rw [List.dropWhile_cons_of_neg (by simpa using hhead)]
  rw [hfront, List.rdropWhile_idempotent]

/-- What survives the loss of one blank line at either end survives the loss of all of them. -/
theorem trimLines_induction {P : List Text → Prop}
    (hfront : ∀ blank rest, blank.isBlank = true → P (blank :: rest) → P rest)
    (hback : ∀ rest blank, blank.isBlank = true → P (rest ++ [blank]) → P rest)
    {lines : List Text} (h : P lines) : P (trimLines lines) := by
  have hdrop : P (lines.dropWhile Text.isBlank) := by
    induction lines with
    | nil => exact h
    | cons line rest ih =>
      by_cases hblank : line.isBlank = true
      · rw [List.dropWhile_cons_of_pos hblank]
        exact ih (hfront line rest hblank h)
      · rwa [List.dropWhile_cons_of_neg hblank]
  rw [trimLines_eq]
  generalize lines.dropWhile Text.isBlank = dropped at hdrop
  induction dropped using List.reverseRecOn with
  | nil => exact hdrop
  | append_singleton rest line ih =>
    by_cases hblank : line.isBlank = true
    · rw [List.rdropWhile_concat_pos _ _ _ hblank]
      exact ih (hback rest line hblank hdrop)
    · rwa [List.rdropWhile_concat_neg _ _ _ hblank]

variable {e : Endpoint}

private theorem mem_textLines_of_cons_blank {test : Text → Bool} {blank : Text} {rest : List Text}
    (hblank : blank.isBlank = true) (hreject : test blank = false)
    (h : ∃ line ∈ textLines false (blank :: rest), test line = true) :
    ∃ line ∈ textLines false rest, test line = true := by
  obtain ⟨line, hline, htest⟩ := h
  rw [textLines_cons, hasMark_of_isBlank hblank, List.mem_append] at hline
  rcases hline with hline | hline
  · rw [if_pos ⟨rfl, rfl⟩, List.mem_singleton] at hline
    rw [hline, hreject] at htest
    cases htest
  · exact ⟨line, hline, htest⟩

private theorem mem_textLines_of_concat_blank {test : Text → Bool} {blank : Text}
    {rest : List Text} (hreject : test blank = false)
    (h : ∃ line ∈ textLines false (rest ++ [blank]), test line = true) :
    ∃ line ∈ textLines false rest, test line = true := by
  obtain ⟨line, hline, htest⟩ := h
  rw [textLines_append, List.mem_append] at hline
  rcases hline with hline | hline
  · exact ⟨line, hline, htest⟩
  · rw [List.mem_singleton.mp (mem_of_mem_textLines hline), hreject] at htest
    cases htest

/-- A blank line in front may go. -/
theorem Settled.of_cons_blank {blank : Text} {rest : List Text} (hblank : blank.isBlank = true)
    (h : Settled e (blank :: rest)) : Settled e rest := by
  have hmark := hasMark_of_isBlank hblank
  obtain ⟨⟨endpointAt, front, line, back, hsplit, _, houtside, hline, hendpoint, hqualified,
    hother⟩, hheader, hblock, hexecution⟩ := h
  refine ⟨?_, fun hbody => ?_, fun hbody => ?_, fun hmethod => ?_⟩
  · cases front with
    | nil =>
      obtain ⟨rfl, _⟩ := List.cons.inj hsplit
      rw [endpointLine?_of_isBlank hblank] at hendpoint
      cases hendpoint
    | cons first front =>
      obtain ⟨rfl, rfl⟩ := List.cons.inj hsplit
      rw [Role.insideAfter_cons, hmark] at houtside
      refine ⟨front.length, front, line, back, rfl, rfl, houtside, hline, hendpoint, hqualified,
        fun other hmem => hother other ?_⟩
      rw [textLines_cons, hmark]
      exact List.mem_append_right _ hmem
  · exact mem_textLines_of_cons_blank hblank (isContentTypeHeader_of_isBlank hblank)
      (hheader hbody)
  · have hfound := hblock hbody
    rw [hasBodyBlock_eq, Bool.or_eq_true, isSome_findText?_iff] at hfound ⊢
    refine hfound.imp (mem_textLines_of_cons_blank hblank (isRequestStep_of_isBlank hblank)) ?_
    intro hopens
    rw [marked_cons, hmark, keywordIn_of_isBlank hblank] at hopens
    exact hopens
  · exact mem_textLines_of_cons_blank hblank (isExecutionLine_of_isBlank hblank)
      (hexecution hmethod)

/-- A blank line at the end may go. -/
theorem Settled.of_concat_blank {rest : List Text} {blank : Text} (hblank : blank.isBlank = true)
    (h : Settled e (rest ++ [blank])) : Settled e rest := by
  have hmark := hasMark_of_isBlank hblank
  obtain ⟨⟨endpointAt, front, line, back, hsplit, _, houtside, hline, hendpoint, hqualified,
    hother⟩, hheader, hblock, hexecution⟩ := h
  refine ⟨?_, fun hbody => ?_, fun hbody => ?_, fun hmethod => ?_⟩
  · obtain rfl | ⟨back, last, rfl⟩ := List.eq_nil_or_concat back
    · obtain ⟨_, hlast⟩ := List.append_inj' hsplit rfl
      rw [← List.singleton_inj.mp hlast, endpointLine?_of_isBlank hblank] at hendpoint
      cases hendpoint
    · have hconcat : rest ++ [blank] = (front ++ line :: back) ++ [last] := by
        simpa using hsplit
      have hrest : rest = front ++ line :: back := (List.append_inj' hconcat rfl).1
      exact ⟨front.length, front, line, back, hrest, rfl, houtside, hline, hendpoint, hqualified,
        hother⟩
  · exact mem_textLines_of_concat_blank (isContentTypeHeader_of_isBlank hblank) (hheader hbody)
  · have hfound := hblock hbody
    rw [hasBodyBlock_eq, Bool.or_eq_true, isSome_findText?_iff] at hfound ⊢
    refine hfound.imp (mem_textLines_of_concat_blank (isRequestStep_of_isBlank hblank)) ?_
    intro hopens
    have hrole : Role.of (Role.insideAfter false rest) false ≠ .opening := by
      cases Role.insideAfter false rest <;> decide
    rw [marked_append, marked_cons, hmark, keywordIn_of_isBlank hblank] at hopens
    exact (opensUnder_concat hrole).symm.trans hopens
  · exact mem_textLines_of_concat_blank (isExecutionLine_of_isBlank hblank) (hexecution hmethod)

theorem Settled.trimLines {lines : List Text} (h : Settled e lines) : Settled e (trimLines lines) :=
  trimLines_induction (fun _ _ hblank => Settled.of_cons_blank hblank)
    (fun _ _ hblank => Settled.of_concat_blank hblank) h

theorem Settled.ne_nil {lines : List Text} (h : Settled e lines) : lines ≠ [] := by
  rintro rfl
  obtain ⟨⟨endpointAt, front, line, back, hsplit, _⟩, _⟩ := h
  cases front <;> cases hsplit

end Trimming

/-- A line that is read back as it was written and that a repair does not drop. -/
structure Readable (line : Text) : Prop where
  feed : '\n' ∉ line
  carriage : line.getLast? ≠ some '\r'
  fence : isFence line = false

section Reading

variable {options : RepairOptions} {e : Endpoint} {indent : Text}

theorem mem_insertAt {lines block : List Text} {i : Nat} {line : Text}
    (h : line ∈ insertAt lines i block) : line ∈ lines ∨ line ∈ block := by
  rw [insertAt, List.mem_append, List.mem_append] at h
  rcases h with (h | h) | h
  · exact .inl (List.mem_of_mem_take h)
  · exact .inr h
  · exact .inl (List.mem_of_mem_drop h)

/-- A line that starts and ends visibly is readable if it holds no line feed. -/
theorem readable_of_visible {margin t : Text} (hmargin : margin.isBlank = true)
    (hmarginFeed : '\n' ∉ margin) (hfeed : '\n' ∉ t) (hstart : StartsVisibly t)
    (hlast : ∀ c, t.getLast? = some c → isSpace c = false) : Readable (margin ++ t) := by
  have hne : t ≠ [] := by
    rintro rfl
    obtain ⟨c, hc, _⟩ := hstart
    cases hc
  refine ⟨by simp [hmarginFeed, hfeed], ?_, isFence_of_startsVisibly hmargin hstart⟩
  rw [List.getLast?_append_of_ne_nil _ hne]
  intro hreturn
  cases hlast '\r' hreturn

theorem mem_of_mem_trimLines {lines : List Text} {line : Text} (h : line ∈ trimLines lines) :
    line ∈ lines := by
  rw [trimLines_eq] at h
  exact (List.dropWhile_suffix _).subset ((List.rdropWhile_prefix _ _).subset h)

theorem feed_not_mem_leadOf {line : Text} (h : '\n' ∉ line) : '\n' ∉ leadOf line :=
  fun hmem => h ((List.takeWhile_prefix _).subset hmem)

theorem feed_not_mem_stepIndentOf (hstep : '\n' ∉ options.stepIndent) {lines : List Text}
    (hlines : ∀ line ∈ lines, '\n' ∉ line) : '\n' ∉ stepIndentOf options lines := by
  have hlead : ∀ i, '\n' ∉ leadOf (lines.getD i []) := by
    intro i
    apply feed_not_mem_leadOf
    rw [List.getD_eq_getElem?_getD]
    cases hline : lines[i]? with
    | none => simp
    | some line => exact hlines line (List.mem_of_getElem? hline)
  rw [stepIndentOf]
  split
  · exact hlead _
  · split
    · rename_i i _
      rw [List.mem_append, not_or]
      exact ⟨hlead i, hstep⟩
    · simp

theorem readable_qualifyLine (hhost : ∀ host ∈ e.host, '\n' ∉ host) {line : Text}
    (h : Readable line) : Readable (qualifyLine e line) := by
  cases hparts : endpointLine? line with
  | none =>
    have hsame : qualifyLine e line = line := by simp [qualifyLine, hparts]
    rwa [hsame]
  | some parts =>
    obtain hsame | ⟨quote, inner, hvalue, hquote, hne, hvisible, hchanged, hline⟩ :=
      qualifyLine_of_endpointLine (e := e) hparts
    · rwa [hsame]
    · obtain ⟨rest, hsplit, hlead, _, _, _, hfeed⟩ := endpointLine?_eq_some_iff.mp hparts
      obtain ⟨_, hlast⟩ := ends_of_qualified hquote hne hvisible hchanged
      have hqualified := feed_not_mem_qualified hhost hquote (hvalue ▸ hfeed)
      have hleadFeed : '\n' ∉ parts.lead := by
        intro hmem
        apply h.feed
        rw [hsplit]
        exact List.mem_append_left _ hmem
      rw [hline]
      refine ⟨?_, ?_, (plain_of_lead hlead _).2⟩
      · rw [List.mem_append, not_or]
        exact ⟨hleadFeed, hqualified⟩
      · rw [List.getLast?_append_of_ne_nil _ (qualified_ne_nil quote hchanged)]
        intro hreturn
        cases hlast '\r' hreturn

theorem readable_endpointLineOf (hindent : indent.isBlank = true) (hindentFeed : '\n' ∉ indent)
    (hfeed : '\n' ∉ e.fullUrl) : Readable (endpointLineOf e indent) := by
  rw [endpointLineOf, List.append_assoc, List.append_assoc]
  refine readable_of_visible hindent hindentFeed (by simp [hfeed]) ⟨_, rfl, by decide⟩ ?_
  intro c hc
  rw [← List.append_assoc, List.getLast?_concat] at hc
  exact Option.some.inj hc ▸ rfl

theorem readable_headerLineOf (hindent : indent.isBlank = true) (hindentFeed : '\n' ∉ indent)
    (hcontentType : '\n' ∉ options.contentType) : Readable (headerLineOf options indent) := by
  rw [headerLineOf, List.append_assoc, List.append_assoc]
  refine readable_of_visible hindent hindentFeed (by simp [hcontentType]) ⟨_, rfl, by decide⟩ ?_
  intro c hc
  rw [← List.append_assoc, List.getLast?_concat] at hc
  exact Option.some.inj hc ▸ rfl

theorem readable_executionLineOf (hindent : indent.isBlank = true) (hindentFeed : '\n' ∉ indent)
    (hmethod : '\n' ∉ e.method) (hne : e.methodUpper ≠ []) :
    Readable (executionLineOf e indent) := by
  have hfeed := not_mem_methodUpper rfl hmethod
  rw [executionLineOf, List.append_assoc]
  refine readable_of_visible hindent hindentFeed (by simp [hfeed]) ⟨_, rfl, by decide⟩ ?_
  intro c hc
  rw [List.getLast?_append_of_ne_nil _ hne] at hc
  exact isSpace_getLast_methodUpper hc

theorem readable_of_mem_requestBlock (hindent : indent.isBlank = true)
    (hindentFeed : '\n' ∉ indent) {body : Json.Value} {line : Text}
    (h : line ∈ requestBlock indent body) : Readable line := by
  have hmark : Readable (indent ++ docstringMark) := by
    refine ⟨by simpa [docstringMark] using hindentFeed, ?_, ?_⟩
    · rw [List.getLast?_append]
      intro hreturn
      cases Option.some.inj hreturn
    · rw [isFence, Text.trimStart_append_of_head hindent]
      · rfl
      · intro c hc
        exact Option.some.inj hc ▸ rfl
  simp only [requestBlock, List.mem_append, List.mem_cons, List.not_mem_nil, or_false,
    List.mem_map] at h
  rcases h with ((rfl | rfl) | ⟨inner, hinner, rfl⟩) | rfl
  · refine readable_of_visible hindent hindentFeed (by decide) ⟨_, rfl, by decide⟩ ?_
    intro c hc
    exact Option.some.inj hc ▸ rfl
  · exact hmark
  · obtain ⟨hreturn, ⟨c, hhead, htick⟩, _⟩ := Json.Value.line_spec hinner
    have hne : inner ≠ [] := by
      rintro rfl
      cases hhead
    refine ⟨by simp [hindentFeed, Text.feed_not_mem_of_mem_lines hinner], ?_, ?_⟩
    · rw [List.getLast?_append_of_ne_nil _ hne]
      intro hlast
      exact hreturn (List.mem_of_getLast? hlast)
    · rw [isFence, Text.trimStart_append_of_isBlank hindent]
      obtain ⟨rest, hrest⟩ := List.head?_eq_some_iff.mp hhead
      simp [hrest, List.isPrefixOf, Ne.symm htick]
  · exact hmark

theorem mem_withEndpoint {lines : List Text} {line : Text}
    (h : line ∈ (withEndpoint e indent lines).1) :
    line ∈ lines ∨ (∃ old ∈ lines, line = qualifyLine e old) ∨ line = endpointLineOf e indent := by
  obtain ⟨front, old, back, rfl, _, _, _, _, heq⟩ | ⟨_, heq⟩ := withEndpoint_cases e indent lines
  · rw [heq, List.mem_append, List.mem_cons] at h
    rcases h with h | rfl | h
    · exact .inl (List.mem_append_left _ h)
    · exact .inr (.inl ⟨old, by simp, rfl⟩)
    · exact .inl (by simp [h])
  · rw [heq] at h
    rcases mem_insertAt h with h | h
    · exact .inl h
    · exact .inr (.inr (List.mem_singleton.mp h))

theorem mem_withHeader {lines : List Text} {endpointAt : Nat} {line : Text}
    (h : line ∈ (withHeader options indent endpointAt lines).1) :
    line ∈ lines ∨ line = headerLineOf options indent := by
  obtain heq | heq := fst_withHeader_cases options indent endpointAt lines
  · exact .inl (heq ▸ h)
  · rw [heq] at h
    exact (mem_insertAt h).imp_right List.mem_singleton.mp

theorem mem_withRequest {lines : List Text} {endpointAt : Nat} {line : Text}
    (h : line ∈ withRequest options e indent endpointAt lines) :
    line ∈ lines ∨ line = headerLineOf options indent ∨
      ∃ body, e.body? = some body ∧ line ∈ requestBlock indent body := by
  rw [withRequest] at h
  split at h
  · exact .inl h
  · rename_i body hbody
    dsimp only at h
    split at h
    · exact (mem_withHeader h).imp_right .inl
    · rcases mem_insertAt h with h | h
      · exact (mem_withHeader h).imp_right .inl
      · exact .inr (.inr ⟨body, hbody, h⟩)

theorem mem_withExecution {lines : List Text} {endpointAt : Nat} {line : Text}
    (h : line ∈ withExecution e indent endpointAt lines) :
    line ∈ lines ∨ e.methodUpper ≠ [] ∧ line = executionLineOf e indent := by
  rw [withExecution] at h
  split at h
  · exact .inl h
  · rename_i hmissing
    rw [Bool.or_eq_true, List.isEmpty_iff, not_or] at hmissing
    exact (mem_insertAt h).imp_right fun h => ⟨hmissing.1, List.mem_singleton.mp h⟩

/-- Every line of the canonical form is readable if the lines it is made from are. -/
theorem readable_of_mem_repairedLines (hpath : '\n' ∉ e.path) (hmethod : '\n' ∉ e.method)
    (hhost : ∀ host ∈ e.host, '\n' ∉ host) (hstep : options.stepIndent.isBlank = true)
    (hstepFeed : '\n' ∉ options.stepIndent) (hcontentType : '\n' ∉ options.contentType)
    {lines : List Text} (hlines : ∀ line ∈ lines, Readable line) :
    ∀ line ∈ repairedLines options e lines, Readable line := by
  have hindent := isBlank_stepIndentOf hstep lines
  have hindentFeed := feed_not_mem_stepIndentOf hstepFeed fun line hline => (hlines line hline).feed
  have hfeed : '\n' ∉ e.fullUrl := Endpoint.not_mem_qualify (by decide) hhost hpath
  intro line hline
  obtain hline | ⟨hmethodUpper, rfl⟩ := mem_withExecution hline
  · obtain hline | rfl | ⟨body, _, hline⟩ := mem_withRequest hline
    · obtain hline | ⟨old, hold, rfl⟩ | rfl := mem_withEndpoint hline
      · exact hlines line hline
      · exact readable_qualifyLine hhost (hlines old hold)
      · exact readable_endpointLineOf hindent hindentFeed hfeed
    · exact readable_headerLineOf hindent hindentFeed hcontentType
    · exact readable_of_mem_requestBlock hindent hindentFeed hline
  · exact readable_executionLineOf hindent hindentFeed hmethod hmethodUpper

end Reading

theorem readable_of_mem_fencelessLines {text : Text}
    (htext : ∀ line ∈ text.lines, line.getLast? ≠ some '\r') :
    ∀ line ∈ fencelessLines text, Readable line := by
  intro line hline
  obtain ⟨hmem, hfence⟩ := List.mem_filter.mp hline
  exact ⟨Text.feed_not_mem_of_mem_lines hmem, htext line hmem, by simpa using hfence⟩

theorem fencelessLines_eq_lines {text : Text} (hfence : ∀ line ∈ text.lines, isFence line = false) :
    fencelessLines text = text.lines := by
  rw [fencelessLines, List.filter_eq_self]
  intro line hline
  simp [hfence line hline]

/-- The line that a text is read back from. -/
theorem repair_eq_unlines (options : RepairOptions) (e : Endpoint) (text : Text)
    (h : trimLines (repairedLines options e (fencelessLines text)) ≠ []) :
    repair options e text =
      Text.unlines (trimLines (repairedLines options e (fencelessLines text))) := by
  rw [repair, Text.unlines_eq_join_append h]

/-- Repairing a scenario a second time changes nothing.  The lines of the text may hold anything
    but a carriage return at their end, which would be lost on the way through the written text;
    what is inserted has to stay on one line. -/
theorem repair_repair {options : RepairOptions} {e : Endpoint} {text : Text}
    (htext : ∀ line ∈ text.lines, line.getLast? ≠ some '\r') (hpath : '\n' ∉ e.path)
    (hmethod : '\n' ∉ e.method) (hhost : ∀ host ∈ e.host, '\n' ∉ host)
    (hstep : options.stepIndent.isBlank = true) (hstepFeed : '\n' ∉ options.stepIndent)
    (hcontentType : '\n' ∉ options.contentType) :
    repair options e (repair options e text) = repair options e text := by
  have hsettled := (settled_repairedLines hhost hpath hstep (fencelessLines text)).trimLines
  have hreadable : ∀ line ∈ trimLines (repairedLines options e (fencelessLines text)),
      Readable line := by
    intro line hline
    exact readable_of_mem_repairedLines hpath hmethod hhost hstep hstepFeed hcontentType
      (readable_of_mem_fencelessLines htext) line (mem_of_mem_trimLines hline)
  have hne := hsettled.ne_nil
  have htrimmed := trimLines_trimLines (repairedLines options e (fencelessLines text))
  rw [repair_eq_unlines options e text hne]
  generalize trimLines (repairedLines options e (fencelessLines text)) = lines
    at hsettled hreadable hne htrimmed ⊢
  have hread : fencelessLines (Text.unlines lines) = lines := by
    rw [fencelessLines, Text.lines_unlines (fun line hline => (hreadable line hline).feed)
      (fun line hline => (hreadable line hline).carriage)]
    rw [List.filter_eq_self]
    intro line hline
    simpa using (hreadable line hline).fence
  rw [repair, hread, hsettled.repairedLines_eq, htrimmed, Text.unlines_eq_join_append hne]

/-- A text in a code fence whose only endpoint line is hidden in a docstring, and a request body
    that holds the mark of a docstring. -/
theorem repair_repair_hidden_endpoint :
    let e : Endpoint := ⟨"/users".toList, " post".toList, some "api.test/".toList,
      some (.object [("note".toList, .string docstringMark)])⟩
    let text := "\x60\x60\x60\nScenario: s\n\"\"\"\nGiven url '/hidden'\n\"\"\"\nThen status 200\n\n".toList
    repair .standard e (repair .standard e text) = repair .standard e text :=
  repair_repair (by decide) (by decide) (by decide) (by decide) (by decide) (by decide) (by decide)

end ScenarioLint.Scenario
