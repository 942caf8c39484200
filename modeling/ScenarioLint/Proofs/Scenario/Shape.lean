import ScenarioLint.Proofs.Scenario.Output
import ScenarioLint.Proofs.Scenario.Recognition

/-!
The shape of a repaired scenario.

All that a repair looks for is found in the text that it writes, and it puts in nothing that it has
found in the text it was given: what has been found stays to be found while lines are put in.
-/

namespace ScenarioLint.Scenario

/-- The value of a line that needs no qualification has a scheme, if it is one word and the host is
    known. -/
theorem hasScheme_of_qualifyLine_eq {e : Endpoint} {line : Text} {parts : EndpointLine}
    (hbase : e.baseUrl.isSome = true) (hparts : endpointLine? line = some parts)
    (hqualified : qualifyLine e line = line) (hne : (unquote parts.value).2 ≠ [])
    (hvisible : ∀ c ∈ (unquote parts.value).2, isSpace c = false) :
    hasScheme (unquote parts.value).2 = true := by
  obtain ⟨base, hbase⟩ := Option.isSome_iff_exists.mp hbase
  obtain ⟨hquote, hvalue⟩ := unquote_spec parts.value
  by_cases hsame : e.qualify (unquote parts.value).2 = (unquote parts.value).2
  · rw [← hsame]
    exact Endpoint.hasScheme_qualify hbase _
  · exfalso
    have hword : ((unquote parts.value).2.isEmpty || (unquote parts.value).2.any isSpace) =
        false := by
      rw [Bool.or_eq_false_iff, Bool.eq_false_iff, ne_eq, List.isEmpty_iff, List.any_eq_false]
      exact ⟨hne, fun c hc => Bool.eq_false_iff.mp (hvisible c hc)⟩
    rw [qualifyLine, hparts] at hqualified
    dsimp only at hqualified
    rw [hword, if_neg Bool.false_ne_true, if_neg hsame] at hqualified
    -- both the old and the new value end visibly, so they are the same
    obtain ⟨_, hlast⟩ := ends_of_qualified hquote hne hvisible hsame
    obtain ⟨rest, hline, _, _, htrim, _⟩ := endpointLine?_eq_some_iff.mp hparts
    rw [← hqualified, List.append_assoc, List.append_assoc, List.append_cancel_left_eq,
      ← List.append_assoc] at hline
    rw [← hline, Text.trimEnd_of_getLast hlast] at htrim
    have hagain := htrim.symm.trans hvalue
    exact hsame (List.append_cancel_left (List.append_cancel_right hagain))

section Written

variable {lines : List Text} {inside : Bool}

theorem insideAfter_map_dropReturn (inside : Bool) (lines : List Text) :
    Role.insideAfter inside (lines.map Text.dropReturn) = Role.insideAfter inside lines := by
  refine (Role.scanFrom_eq_of_marks ?_ inside).2
  rw [List.map_map]
  exact List.map_congr_left fun line _ => (countsAs_dropReturn line).mark

theorem textLines_map_dropReturn (inside : Bool) (lines : List Text) :
    textLines inside (lines.map Text.dropReturn) =
      (textLines inside lines).map Text.dropReturn := by
  induction lines generalizing inside with
  | nil => rfl
  | cons line rest ih =>
    rw [List.map_cons, textLines_cons, textLines_cons, (countsAs_dropReturn line).mark, ih,
      List.map_append]
    split <;> rfl

theorem marked_map_dropReturn (inside : Bool) (lines : List Text) :
    marked inside (lines.map Text.dropReturn) = marked inside lines := by
  induction lines generalizing inside with
  | nil => rfl
  | cons line rest ih =>
    rw [List.map_cons, marked_cons, marked_cons, (countsAs_dropReturn line).mark,
      (countsAs_dropReturn line).keyword, ih]

/-- What is found outside docstrings is found there without the carriage returns. -/
theorem found_map_dropReturn {test : Text → Bool}
    (htest : ∀ line : Text, test line.dropReturn = test line)
    (h : ∃ line ∈ textLines inside lines, test line = true) :
    ∃ line ∈ textLines inside (lines.map Text.dropReturn), test line = true := by
  obtain ⟨line, hline, hfound⟩ := h
  rw [textLines_map_dropReturn]
  exact ⟨_, List.mem_map_of_mem hline, by rw [htest, hfound]⟩

theorem hasBodyBlock_map_dropReturn (h : hasBodyBlock lines = true) :
    hasBodyBlock (lines.map Text.dropReturn) = true := by
  rw [hasBodyBlock_eq, Bool.or_eq_true, isSome_findText?_iff] at h ⊢
  rw [marked_map_dropReturn]
  exact h.imp_left (found_map_dropReturn fun line => (countsAs_dropReturn line).request)

end Written

section Presence

variable {options : RepairOptions} {e : Endpoint} {indent : Text} {lines : List Text}
  {endpointAt : Nat}

/-- A line leads with the same keyword when its value is qualified, and belongs to no docstring. -/
theorem keyword_qualifyLine (hhost : ∀ host ∈ e.host, '\n' ∉ host) {line : Text}
    (hline : (endpointLine? line).isSome = true) : hasMark (qualifyLine e line) = false ∧
      ∀ role, keywordIn role (qualifyLine e line) = keywordIn role line := by
  refine ⟨(plain_of_endpointLine (isSome_endpointLine?_qualifyLine hhost hline)).1, fun role => ?_⟩
  rw [keywordIn, keywordIn]
  split
  · exact leading?_qualifyLine hhost hline
  · rfl

/-- Naming the endpoint hides no line that is found by something else. -/
theorem found_withEndpoint {test : Text → Bool} (hindent : indent.isBlank = true)
    (hhost : ∀ host ∈ e.host, '\n' ∉ host)
    (htest : ∀ line, (endpointLine? line).isSome = true → test line = false)
    (h : ∃ line ∈ textLines false lines, test line = true) :
    ∃ line ∈ textLines false (withEndpoint e indent lines).1, test line = true := by
  obtain ⟨line, hline, hfound⟩ := h
  refine ⟨line, ?_, hfound⟩
  obtain ⟨front, old, back, rfl, houtside, hmark, hendpoint, _, heq⟩ | ⟨_, heq⟩ :=
    withEndpoint_cases e indent lines
  · rw [heq, textLines_append_cons back houtside (keyword_qualifyLine hhost hendpoint).1, List.mem_append,
      List.mem_cons]
    rw [textLines_append_cons back houtside hmark, List.mem_append, List.mem_cons] at hline
    refine hline.imp_right (Or.imp_left fun heq => ?_)
    rw [heq, htest old hendpoint] at hfound
    cases hfound
  · rw [heq]
    exact mem_textLines_insertAt (outside_under_header lines).2
      (harmless_endpointLineOf hindent).closed (.inl hline)

/-- Naming the endpoint hides no request block. -/
theorem hasBodyBlock_withEndpoint (hindent : indent.isBlank = true)
    (hhost : ∀ host ∈ e.host, '\n' ∉ host) (h : hasBodyBlock lines = true) :
    hasBodyBlock (withEndpoint e indent lines).1 = true := by
  obtain ⟨front, old, back, hlines, _, hmark, hendpoint, _, heq⟩ | ⟨_, heq⟩ :=
    withEndpoint_cases e indent lines
  · rw [hasBodyBlock_eq, Bool.or_eq_true, isSome_findText?_iff] at h ⊢
    refine h.imp (found_withEndpoint hindent hhost fun line hline =>
      (not_other_of_endpointLine hline).2.1) fun hopens => ?_
    obtain ⟨hnewMark, hkeyword⟩ := keyword_qualifyLine hhost hendpoint
    have hsame : marked false (front ++ qualifyLine e old :: back) =
        marked false (front ++ old :: back) := by
      rw [marked_append, marked_append, marked_cons, marked_cons, hnewMark, hmark, hkeyword]
    rw [heq, hsame, ← hlines]
    exact hopens
  · rw [heq]
    exact hasBodyBlock_insertAt_setup (hasMark_endpointLineOf hindent)
      (keywordIn_endpointLineOf hindent) rfl (outside_under_header lines).2 h

/-- No line outside docstrings is lost when a header is put in. -/
theorem mem_textLines_withHeader (hindent : indent.isBlank = true)
    (h : EndpointAt e lines endpointAt) (options : RepairOptions) {line : Text}
    (hline : line ∈ textLines false lines) :
    line ∈ textLines false (withHeader options indent endpointAt lines).1 := by
  obtain heq | heq := fst_withHeader_cases options indent endpointAt lines
  · rwa [heq]
  · rw [heq]
    exact mem_textLines_insertAt h.outside (harmless_headerLineOf hindent).closed (.inl hline)

theorem hasBodyBlock_withHeader (hindent : indent.isBlank = true)
    (h : EndpointAt e lines endpointAt) (options : RepairOptions)
    (hblock : hasBodyBlock lines = true) :
    hasBodyBlock (withHeader options indent endpointAt lines).1 = true := by
  obtain heq | heq := fst_withHeader_cases options indent endpointAt lines
  · rwa [heq]
  · rw [heq]
    exact hasBodyBlock_insertAt_setup (hasMark_headerLineOf hindent)
      (keywordIn_headerLineOf hindent) rfl h.outside hblock

/-- No line outside docstrings is lost when a request block is put in. -/
theorem mem_textLines_withRequest (hindent : indent.isBlank = true)
    (h : EndpointAt e lines endpointAt) (options : RepairOptions) {line : Text}
    (hline : line ∈ textLines false lines) :
    line ∈ textLines false (withRequest options e indent endpointAt lines) := by
  rw [withRequest]
  cases e.body? with
  | none => exact hline
  | some body =>
    have hheaded := mem_textLines_withHeader hindent h options hline
    obtain ⟨_, _, _, houtside⟩ := withHeader_spec hindent h options
    dsimp only
    split
    · exact hheaded
    · exact mem_textLines_insertAt houtside (insideAfter_requestBlock hindent body) (.inl hheaded)

end Presence

/-- The blocks that lines lack: those of which neither the line nor, in place of a request block, any
    other body block is found. -/
def lackingBlocks (options : RepairOptions) (e : Endpoint) (lines : List Text) :
    List (List Text) :=
  let indent := stepIndentOf options lines
  unlessFound (fun line => (endpointLine? line).isSome) lines [endpointLineOf e indent] ++
    ((match e.body? with
      | none => []
      | some body =>
        unlessFound isContentTypeHeader lines [headerLineOf options indent] ++
          if hasBodyBlock lines then [] else [requestBlock indent body]) ++
      executionBlocks e indent lines)

section Lacking

variable {options : RepairOptions} {e : Endpoint} {indent : Text} {lines others : List Text}

theorem unlessFound_sublist_of_found {test : Text → Bool} (block : List Text)
    (h : (∃ line ∈ textLines false lines, test line = true) →
      ∃ line ∈ textLines false others, test line = true) :
    (unlessFound test others block).Sublist (unlessFound test lines block) := by
  rw [← isSome_findText?_iff, ← isSome_findText?_iff] at h
  rw [unlessFound, unlessFound]
  split
  · exact List.nil_sublist _
  · rename_i hmissing
    rw [if_neg fun hfound => hmissing (h hfound)]

/-- Only what the lines lack is put in, although each step of a repair looks at what the step before
    has left. -/
theorem insertedBlocks_sublist_lackingBlocks (hpath : '\n' ∉ e.path)
    (hhost : ∀ host ∈ e.host, '\n' ∉ host) (hstep : options.stepIndent.isBlank = true)
    (lines : List Text) :
    (insertedBlocks options e lines).Sublist (lackingBlocks options e lines) := by
  have hindent := isBlank_stepIndentOf hstep lines
  rw [insertedBlocks, lackingBlocks]
  generalize stepIndentOf options lines = indent at hindent ⊢
  have hendpoint := endpointAt_withEndpoint hindent hhost hpath lines
  have hheader : (∃ line ∈ textLines false lines, isContentTypeHeader line = true) →
      ∃ line ∈ textLines false (withEndpoint e indent lines).1, isContentTypeHeader line = true :=
    found_withEndpoint hindent hhost fun line hline => (not_other_of_endpointLine hline).1
  have hblock : hasBodyBlock lines = true → hasBodyBlock (withEndpoint e indent lines).1 = true :=
    hasBodyBlock_withEndpoint hindent hhost
  have hexecution : (∃ line ∈ textLines false lines, isExecutionLine line = true) →
      ∃ line ∈ textLines false (withEndpoint e indent lines).1, isExecutionLine line = true :=
    found_withEndpoint hindent hhost fun line hline => (not_other_of_endpointLine hline).2.2
  dsimp only
  generalize withEndpoint e indent lines = found at hendpoint hheader hblock hexecution ⊢
  refine (List.Sublist.refl _).append (List.Sublist.append ?_ ?_)
  · rw [requestBlocks]
    cases e.body? with
    | none => exact .refl _
    | some body =>
      refine (unlessFound_sublist_of_found _ hheader).append ?_
      split
      · exact List.nil_sublist _
      · rename_i hmissing
        have hlacks : ¬ hasBodyBlock lines = true := fun hpresent =>
          hmissing (hasBodyBlock_withHeader hindent hendpoint options (hblock hpresent))
        rw [if_neg hlacks]
  · rw [executionBlocks, executionBlocks]
    split
    · exact .refl _
    · refine unlessFound_sublist_of_found _ fun hpresent => ?_
      obtain ⟨line, hline, hfound⟩ := hexecution hpresent
      exact ⟨line, mem_textLines_withRequest hindent hendpoint options hline, hfound⟩

end Lacking

/-- The lines of a written repair. -/
theorem lines_repair {options : RepairOptions} {e : Endpoint} (hpath : '\n' ∉ e.path)
    (hmethod : '\n' ∉ e.method) (hhost : ∀ host ∈ e.host, '\n' ∉ host)
    (hstep : options.stepIndent.isBlank = true) (hstepFeed : '\n' ∉ options.stepIndent)
    (hcontentType : '\n' ∉ options.contentType) (text : Text) :
    (repair options e text).lines =
      (trimLines (repairedLines options e (fencelessLines text))).map Text.dropReturn := by
  have hne := (settled_repairedLines hhost hpath hstep (fencelessLines text)).trimLines.ne_nil
  have hstays : ∀ line ∈ trimLines (repairedLines options e (fencelessLines text)), Stays line :=
    fun line hline => stays_of_mem_repairedLines hpath hmethod hhost hstep hstepFeed hcontentType
      (fun line hline => stays_of_mem_fencelessLines hline) line (mem_of_mem_trimLines hline)
  rw [repair_eq_unlines options e text hne]
  exact Text.lines_unlines_of_feed fun line hline => (hstays line hline).feed

/-- In the text that a repair writes, the first line outside docstrings that names the endpoint has a
    value with a scheme, if it is one word and the host is known, and all that a request needs is to
    be found.  Besides the lines of the text, without those of code fences and with at most that
    value qualified, it consists of blocks that the text lacked, each put in at most once. -/
theorem shape_of_repair {options : RepairOptions} {e : Endpoint} (hpath : '\n' ∉ e.path)
    (hmethod : '\n' ∉ e.method) (hhost : ∀ host ∈ e.host, '\n' ∉ host)
    (hstep : options.stepIndent.isBlank = true) (hstepFeed : '\n' ∉ options.stepIndent)
    (hcontentType : '\n' ∉ options.contentType) (text : Text) :
    let lines := fencelessLines text
    let output := (repair options e text).lines
    (∃ front line back parts, output = front ++ line :: back ∧
      Role.insideAfter false front = false ∧ hasMark line = false ∧
      endpointLine? line = some parts ∧
      (∀ other ∈ textLines false front, endpointLine? other = none) ∧
      (e.baseUrl.isSome = true → (unquote parts.value).2 ≠ [] →
        (∀ c ∈ (unquote parts.value).2, isSpace c = false) →
        hasScheme (unquote parts.value).2 = true)) ∧
    (e.body? ≠ none → (∃ line ∈ textLines false output, isContentTypeHeader line = true) ∧
      hasBodyBlock output = true) ∧
    (e.method.trim ≠ [] → ∃ line ∈ textLines false output, isExecutionLine line = true) ∧
    ∃ kept blocks front written back, Requalified e lines kept ∧
      blocks.Subperm (lackingBlocks options e lines) ∧
      Woven blocks kept (front ++ written ++ back) ∧
      (∀ line ∈ front ++ back, line.isBlank = true) ∧ output = written.map Text.dropReturn := by
  intro lines output
  have houtput : output = (trimLines (repairedLines options e lines)).map Text.dropReturn :=
    lines_repair hpath hmethod hhost hstep hstepFeed hcontentType text
  obtain ⟨⟨endpointAt, front, line, back, hsplit, _, houtside, hmark, hendpoint, hqualified,
    hother⟩, hheader, hblock, hexecution⟩ := (settled_repairedLines hhost hpath hstep lines).trimLines
  rw [houtput]
  refine ⟨?_, fun hbody => ⟨?_, hasBodyBlock_map_dropReturn (hblock hbody)⟩, fun hne => ?_, ?_⟩
  · obtain ⟨parts, hparts⟩ := Option.isSome_iff_exists.mp hendpoint
    refine ⟨front.map Text.dropReturn, line.dropReturn, back.map Text.dropReturn, parts,
      by rw [hsplit, List.map_append, List.map_cons], ?_, ?_, ?_, ?_, ?_⟩
    · rw [insideAfter_map_dropReturn, houtside]
    · rw [(countsAs_dropReturn line).mark, hmark]
    · rw [(countsAs_dropReturn line).endpoint, hparts]
    · rw [textLines_map_dropReturn, List.forall_mem_map]
      intro other hmem
      rw [(countsAs_dropReturn other).endpoint]
      simpa using hother other hmem
    · exact fun hbase => hasScheme_of_qualifyLine_eq hbase hparts hqualified
  · exact found_map_dropReturn (fun line => (countsAs_dropReturn line).header) (hheader hbody)
  · have hmethodNe : e.methodUpper ≠ [] := by
      rw [Endpoint.methodUpper, methodName, Text.toUpper, ne_eq, List.map_eq_nil_iff]
      exact hne
    exact found_map_dropReturn (fun line => (countsAs_dropReturn line).execution)
      (hexecution hmethodNe)
  · obtain ⟨kept, blocks, hkept, hperm, hwoven⟩ := woven_insertedBlocks hpath hhost hstep lines
    obtain ⟨blank, blankToo, htrimmed, hblank⟩ :=
      exists_append_trimLines (repairedLines options e lines)
    rw [htrimmed] at hwoven
    have hlacking := insertedBlocks_sublist_lackingBlocks hpath hhost hstep lines
    exact ⟨kept, blocks, blank, _, blankToo, hkept, hperm.subperm.trans hlacking.subperm, hwoven,
      hblank, rfl⟩

/-- A scenario whose docstring, which stands under an assertion, quotes a header and an execution
    line: neither these nor the docstring make up for what a request with a body needs. -/
theorem shape_of_repair_quoted :
    let e : Endpoint := ⟨"/users".toList, "post".toList, some "api.test".toList,
      some (.object [("name".toList, .string "a".toList)])⟩
    let text := ("Scenario: s\n Given url '/users'\n Then the reply is\n \"\"\"\n" ++
      " And header Content-Type = x\n When method GET\n \"\"\"\n").toList
    let lines := fencelessLines text
    let output := (repair .standard e text).lines
    (∃ front line back parts, output = front ++ line :: back ∧
      Role.insideAfter false front = false ∧ hasMark line = false ∧
      endpointLine? line = some parts ∧
      (∀ other ∈ textLines false front, endpointLine? other = none) ∧
      ((unquote parts.value).2 ≠ [] → (∀ c ∈ (unquote parts.value).2, isSpace c = false) →
        hasScheme (unquote parts.value).2 = true)) ∧
    ((∃ line ∈ textLines false output, isContentTypeHeader line = true) ∧
      hasBodyBlock output = true) ∧
    (∃ line ∈ textLines false output, isExecutionLine line = true) ∧
    (lackingBlocks .standard e lines).length = 3 ∧
    ∃ kept blocks front written back, Requalified e lines kept ∧
      blocks.Subperm (lackingBlocks .standard e lines) ∧
      Woven blocks kept (front ++ written ++ back) ∧
      (∀ line ∈ front ++ back, line.isBlank = true) ∧ output = written.map Text.dropReturn := by
  intro e text lines output
  obtain ⟨⟨front, line, back, parts, hsplit, houtside, hmark, hparts, hother, hscheme⟩, hrequest,
    hexecution, hinserted⟩ :=
    @shape_of_repair .standard e (by decide) (by decide) (by decide) (by decide) (by decide)
      (by decide) text
  exact ⟨⟨front, line, back, parts, hsplit, houtside, hmark, hparts, hother, hscheme (by decide)⟩,
    hrequest (by decide), hexecution (by decide), by decide +kernel, hinserted⟩

end ScenarioLint.Scenario
