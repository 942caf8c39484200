import ScenarioLint.Proofs.Json.Pretty
import ScenarioLint.Proofs.Scenario.Docstring
import ScenarioLint.Proofs.Scenario.Qualified

/-!
The lines that a repair inserts.  Each of them is recognised as what it was inserted for, and a
request block opens one docstring and closes it again.
-/

namespace ScenarioLint.Scenario

theorem trimStart_of_isBlank {line : Text} (h : line.isBlank = true) : line.trimStart = [] := by
  rw [Text.isBlank_iff] at h
  rw [Text.trimStart, List.dropWhile_eq_nil_iff]
  exact h

theorem hasMark_of_isBlank {line : Text} (h : line.isBlank = true) : hasMark line = false := by
  rw [hasMark, trimStart_of_isBlank h]
  rfl

theorem keywordIn_of_isBlank {line : Text} (h : line.isBlank = true) (role : Role) :
    keywordIn role line = none := by
  rw [keywordIn, Keyword.detect, trimStart_of_isBlank h]
  split <;> rfl

theorem endpointLine?_of_isBlank {line : Text} (h : line.isBlank = true) :
    endpointLine? line = none := by
  rw [endpointLine?, trimStart_of_isBlank h]
  rfl

theorem not_isBlank_of_endpointLine {line : Text} (h : (endpointLine? line).isSome = true) :
    line.isBlank = false := by
  rw [Bool.eq_false_iff]
  intro hblank
  rw [endpointLine?_of_isBlank hblank] at h
  cases h

theorem isExecutionLine_of_isBlank {line : Text} (h : line.isBlank = true) :
    isExecutionLine line = false := by
  rw [isExecutionLine, trimStart_of_isBlank h]
  rfl

theorem isRequestStep_of_isBlank {line : Text} (h : line.isBlank = true) :
    isRequestStep line = false := by
  rw [isRequestStep, afterSetup?, trimStart_of_isBlank h]
  rfl

theorem isContentTypeHeader_of_isBlank {line : Text} (h : line.isBlank = true) :
    isContentTypeHeader line = false := by
  rw [isContentTypeHeader, afterSetup?, trimStart_of_isBlank h]
  rfl

/-- The line that names the endpoint if no line did. -/
def endpointLineOf (e : Endpoint) (indent : Text) : Text :=
  indent ++ "Given endpoint \"".toList ++ e.fullUrl ++ ['"']

/-- The line that sets the content type if no line did. -/
def headerLineOf (options : RepairOptions) (indent : Text) : Text :=
  indent ++ "And header Content-Type = '".toList ++ options.contentType ++ ['\'']

/-- The line that sends the request if no line did. -/
def executionLineOf (e : Endpoint) (indent : Text) : Text :=
  indent ++ "When method ".toList ++ e.methodUpper

section Recognised

variable {options : RepairOptions} {e : Endpoint} {indent : Text}

theorem isSpace_toUpper {c : Char} (h : isSpace c = false) : isSpace c.toUpper = false := by
  rcases Text.toUpper_eq_self_or c with hsame | hvisible
  · rwa [hsame]
  · exact hvisible

/-- A method name starts with no white space. -/
theorem isSpace_head_methodUpper {c : Char} (h : e.methodUpper.head? = some c) :
    isSpace c = false := by
  rw [Endpoint.methodUpper, methodName, Text.toUpper, List.head?_map, Option.map_eq_some_iff] at h
  obtain ⟨d, hd, rfl⟩ := h
  apply isSpace_toUpper
  obtain ⟨ws, hws, _⟩ := Text.exists_trimEnd_append e.method.trimStart
  apply Text.head?_trimStart
  rw [hws, List.head?_append, ← Text.trim, hd]
  rfl

theorem isSpace_getLast_methodUpper {c : Char} (h : e.methodUpper.getLast? = some c) :
    isSpace c = false := by
  rw [Endpoint.methodUpper, methodName, Text.toUpper, List.getLast?_map,
    Option.map_eq_some_iff] at h
  obtain ⟨d, hd, rfl⟩ := h
  exact isSpace_toUpper (Text.getLast?_trimEnd hd)

/-- The name of a method holds no white space that the method did not hold. -/
theorem not_mem_methodUpper {c : Char} (hc : isSpace c = true) (h : c ∉ e.method) :
    c ∉ e.methodUpper := by
  rw [Endpoint.methodUpper, methodName, Text.toUpper, List.mem_map]
  rintro ⟨d, hd, hupper⟩
  rcases Text.toUpper_eq_self_or d with hsame | hvisible
  · rw [hsame] at hupper
    exact h (hupper ▸ Text.mem_of_mem_trim hd)
  · rw [hupper, hc] at hvisible
    cases hvisible

theorem endpointLine?_endpointLineOf (hindent : indent.isBlank = true) (hfeed : '\n' ∉ e.fullUrl) :
    endpointLine? (endpointLineOf e indent) =
      some ⟨indent ++ "Given endpoint ".toList, ['"'] ++ e.fullUrl ++ ['"']⟩ := by
  have hlast : ∀ c, (['"'] ++ e.fullUrl ++ ['"']).getLast? = some c → isSpace c = false := by
    intro c hc
    rw [List.getLast?_concat] at hc
    exact Option.some.inj hc ▸ rfl
  refine endpointLine?_eq_some_iff.mpr ⟨['"'] ++ e.fullUrl ++ ['"'], ?_, ?_, ?_,
    (Text.trimEnd_of_getLast hlast).symm, by simp, by simpa using hfeed⟩
  · simp [endpointLineOf]
  · exact ⟨indent, "Given".toList, [' '], "endpoint".toList, [' '], rfl, hindent,
      ⟨_, List.mem_cons_self, rfl⟩, by decide, by decide, ⟨_, List.mem_of_getLast? rfl, rfl⟩,
      by decide, by decide⟩
  · intro c hc
    exact Option.some.inj hc ▸ rfl

theorem qualifyLine_endpointLineOf (hindent : indent.isBlank = true) (hfeed : '\n' ∉ e.fullUrl) :
    qualifyLine e (endpointLineOf e indent) = endpointLineOf e indent := by
  have hunquote : unquote (['"'] ++ e.fullUrl ++ ['"']) = (['"'], e.fullUrl) :=
    unquote_append (.inr (.inl rfl)) (by simp)
  have hqualified : e.qualify e.fullUrl = e.fullUrl := e.qualify_qualify_eq e.path
  simp only [qualifyLine, endpointLine?_endpointLineOf hindent hfeed, hunquote, hqualified,
    if_true, ite_self]

theorem isContentTypeHeader_headerLineOf (hindent : indent.isBlank = true) :
    isContentTypeHeader (headerLineOf options indent) = true := by
  have htrim : (headerLineOf options indent).trimStart =
      "And header Content-Type = '".toList ++ (options.contentType ++ ['\'']) := by
    rw [headerLineOf, List.append_assoc, List.append_assoc]
    apply Text.trimStart_append_of_head hindent
    intro c hc
    exact Option.some.inj hc ▸ rfl
  rw [isContentTypeHeader, afterSetup?, htrim]
  rfl

theorem trimStart_executionLineOf (hindent : indent.isBlank = true) :
    (executionLineOf e indent).trimStart = "When method ".toList ++ e.methodUpper := by
  rw [executionLineOf, List.append_assoc]
  apply Text.trimStart_append_of_head hindent
  intro c hc
  exact Option.some.inj hc ▸ rfl

theorem isExecutionLine_executionLineOf (hindent : indent.isBlank = true)
    (hmethod : e.methodUpper ≠ []) : isExecutionLine (executionLineOf e indent) = true := by
  have hgap : afterGap? (' ' :: e.methodUpper) = some e.methodUpper :=
    afterGap?_eq_some_iff.mpr ⟨[' '], rfl, by simp, rfl, fun _ => isSpace_head_methodUpper⟩
  have hread : isExecutionLine (executionLineOf e indent) =
      (afterGap? (' ' :: e.methodUpper)).any fun t => !t.isEmpty := by
    rw [isExecutionLine, trimStart_executionLineOf hindent]
    rfl
  rw [hread, hgap]
  simpa using hmethod

theorem hasMark_executionLineOf (hindent : indent.isBlank = true) :
    hasMark (executionLineOf e indent) = false := by
  rw [hasMark, trimStart_executionLineOf hindent]
  rfl

theorem keywordIn_executionLineOf (hindent : indent.isBlank = true) :
    keywordIn .text (executionLineOf e indent) = some .when := by
  rw [keywordIn, if_pos rfl, Keyword.detect, trimStart_executionLineOf hindent]
  rfl

theorem hasMark_headerLineOf (hindent : indent.isBlank = true) :
    hasMark (headerLineOf options indent) = false := by
  rw [headerLineOf, List.append_assoc, List.append_assoc]
  exact hasMark_of_startsVisibly hindent ⟨_, rfl, by decide⟩

theorem hasMark_endpointLineOf (hindent : indent.isBlank = true) :
    hasMark (endpointLineOf e indent) = false := by
  rw [endpointLineOf, List.append_assoc, List.append_assoc]
  exact hasMark_of_startsVisibly hindent ⟨_, rfl, by decide⟩

theorem keywordIn_headerLineOf (hindent : indent.isBlank = true) :
    keywordIn .text (headerLineOf options indent) = some .and := by
  rw [headerLineOf, List.append_assoc, List.append_assoc]
  exact Keyword.leading?_append hindent _

theorem keywordIn_endpointLineOf (hindent : indent.isBlank = true) :
    keywordIn .text (endpointLineOf e indent) = some .given := by
  rw [endpointLineOf, List.append_assoc, List.append_assoc]
  exact Keyword.leading?_append hindent _

private theorem trimStart_requestStep (hindent : indent.isBlank = true) :
    (indent ++ "And request".toList).trimStart = "And request".toList := by
  apply Text.trimStart_append_of_head hindent
  intro c hc
  exact Option.some.inj hc ▸ rfl

theorem isRequestStep_indent (hindent : indent.isBlank = true) :
    isRequestStep (indent ++ "And request".toList) = true := by
  rw [isRequestStep, afterSetup?, trimStart_requestStep hindent]
  rfl

theorem hasMark_requestStep (hindent : indent.isBlank = true) :
    hasMark (indent ++ "And request".toList) = false := by
  rw [hasMark, trimStart_requestStep hindent]
  rfl

/-- No line of an example can be taken for the mark of a docstring, however it is indented. -/
theorem hasMark_line_pretty (hindent : indent.isBlank = true) {body : Json.Value} {line : Text}
    (h : line ∈ body.pretty.lines) : hasMark (indent ++ line) = false := by
  obtain ⟨_, _, hquotes⟩ := Json.Value.line_spec h
  rw [hasMark, Text.trimStart_append_of_isBlank hindent, Bool.eq_false_iff, ne_eq,
    List.isPrefixOf_iff_prefix]
  exact hquotes

theorem hasMark_indent_docstringMark (hindent : indent.isBlank = true) :
    hasMark (indent ++ docstringMark) = true := by
  rw [hasMark, Text.trimStart_append_of_head hindent]
  · rfl
  · intro c hc
    exact Option.some.inj hc ▸ rfl

theorem insideAfter_of_unmarked {inside : Bool} {lines : List Text}
    (h : ∀ line ∈ lines, hasMark line = false) : Role.insideAfter inside lines = inside := by
  induction lines with
  | nil => rfl
  | cons line rest ih =>
    rw [Role.insideAfter_cons, h line List.mem_cons_self, Bool.bne_false]
    exact ih fun other hother => h other (List.mem_cons_of_mem _ hother)

theorem hasMark_lines_pretty (hindent : indent.isBlank = true) (body : Json.Value) :
    ∀ line ∈ body.pretty.lines.map (indent ++ ·), hasMark line = false :=
  List.forall_mem_map.mpr fun _ hline => hasMark_line_pretty hindent hline

/-- A request block leaves no docstring open behind it. -/
theorem insideAfter_requestBlock (hindent : indent.isBlank = true) (body : Json.Value) :
    Role.insideAfter false (requestBlock indent body) = false := by
  rw [requestBlock, Role.insideAfter_append, Role.insideAfter_append, Role.insideAfter_cons,
    Role.insideAfter_cons, Role.insideAfter_nil,
    insideAfter_of_unmarked (hasMark_lines_pretty hindent body),
    Role.insideAfter_cons, Role.insideAfter_nil, hasMark_requestStep hindent,
    hasMark_indent_docstringMark hindent]
  rfl

theorem requestStep_mem_textLines (hindent : indent.isBlank = true) (body : Json.Value) :
    indent ++ "And request".toList ∈ textLines false (requestBlock indent body) := by
  rw [requestBlock, List.append_assoc, List.cons_append, textLines_cons,
    if_pos ⟨rfl, hasMark_requestStep hindent⟩]
  exact List.mem_cons_self

end Recognised

end ScenarioLint.Scenario
