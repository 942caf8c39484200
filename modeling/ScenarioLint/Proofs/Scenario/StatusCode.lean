import ScenarioLint.Proofs.Scenario.Assertion
import ScenarioLint.Proofs.Scenario.StatusPhrase

/-!
The status codes that a scenario asserts.  A repair puts in no status line and takes none away,
wherever it puts its lines, because it leaves every docstring as it was.
-/

namespace ScenarioLint.Scenario

open Check (core filterMap_textLines_core)

/-- The codes of the status lines outside docstrings. -/
def statusCodes (lines : List Text) : List Nat :=
  (textLines false lines).filterMap statusCode?

section Insertion

variable {lines block : List Text} {i : Nat}

/-- Lines without a status that leave no docstring open, put where none is open. -/
theorem statusCodes_insertAt (hat : Role.insideAfter false (lines.take i) = false)
    (hclosed : Role.insideAfter false block = false) (hblock : statusCodes block = []) :
    statusCodes (insertAt lines i block) = statusCodes lines := by
  rw [statusCodes] at hblock
  rw [statusCodes, statusCodes, textLines_insertAt hat hclosed, textLines_take_append_drop hat,
    List.filterMap_append, List.filterMap_append, List.filterMap_append, hblock, List.append_nil]

theorem statusCodes_singleton {line : Text} (h : statusCode? line = none) :
    statusCodes [line] = [] := by
  rw [statusCodes, List.filterMap_eq_nil_iff]
  intro other hother
  rw [List.mem_singleton.mp (mem_of_mem_textLines hother), h]

theorem statusCodes_core (lines : List Text) : statusCodes (core lines) = statusCodes lines :=
  filterMap_textLines_core (fun _ => statusCode?_of_leading?) statusCode?_trim false lines

end Insertion

section Inserted

variable {options : RepairOptions} {e : Endpoint} {indent : Text}

theorem statusCode?_append (hindent : indent.isBlank = true) (t : Text) :
    statusCode? (indent ++ t) = statusCode? t := by
  rw [← statusCode?_trim, Text.trim_append_left hindent, statusCode?_trim]

theorem statusCodes_headerLineOf (hindent : indent.isBlank = true) :
    statusCodes [headerLineOf options indent] = [] := by
  have hline : headerLineOf options indent = indent ++
      ("And header Content-Type = '".toList ++ (options.contentType ++ ['\''])) := by
    simp [headerLineOf]
  apply statusCodes_singleton
  rw [hline, statusCode?_append hindent]
  rfl

theorem statusCodes_executionLineOf (hindent : indent.isBlank = true) :
    statusCodes [executionLineOf e indent] = [] := by
  have hline : executionLineOf e indent = indent ++ ("When method ".toList ++ e.methodUpper) := by
    simp [executionLineOf]
  apply statusCodes_singleton
  rw [hline, statusCode?_append hindent]
  rfl

theorem statusCodes_requestBlock (hindent : indent.isBlank = true) (body : Json.Value) :
    statusCodes (requestBlock indent body) = [] := by
  have hstep : statusCode? (indent ++ "And request".toList) = none := by
    rw [statusCode?_append hindent]
    rfl
  rw [statusCodes, textLines_requestBlock hindent, List.filterMap_cons_none hstep,
    List.filterMap_nil]

end Inserted

section Steps

variable {options : RepairOptions} {e : Endpoint} {indent : Text} {lines : List Text}
  {endpointAt : Nat}

/-- Whichever line names the endpoint, it asserts no status before and after it is qualified. -/
theorem statusCodes_withEndpoint (hindent : indent.isBlank = true) (hpath : '\n' ∉ e.path)
    (hhost : ∀ host ∈ e.host, '\n' ∉ host) :
    statusCodes (withEndpoint e indent lines).1 = statusCodes lines := by
  obtain ⟨front, line, back, rfl, houtside, hmark, hendpoint, _, heq⟩ | ⟨_, heq⟩ :=
    withEndpoint_cases e indent lines
  · have hqualified := isSome_endpointLine?_qualifyLine hhost hendpoint
    have hnewMark := (plain_of_endpointLine hqualified).1
    have hcode := statusCode?_of_endpointLine hendpoint
    have hnewCode := statusCode?_of_endpointLine hqualified
    rw [heq, statusCodes, statusCodes, textLines_append_cons back houtside hmark,
      textLines_append_cons back houtside hnewMark, List.filterMap_append, List.filterMap_append,
      List.filterMap_cons_none hcode, List.filterMap_cons_none hnewCode]
  · have hurl : '\n' ∉ e.fullUrl := Endpoint.not_mem_qualify (by decide) hhost hpath
    have hnamed : (endpointLine? (endpointLineOf e indent)).isSome = true :=
      Option.isSome_of_eq_some (endpointLine?_endpointLineOf hindent hurl)
    rw [heq]
    exact statusCodes_insertAt (outside_under_header lines).2
      (harmless_endpointLineOf hindent).closed
      (statusCodes_singleton (statusCode?_of_endpointLine hnamed))

theorem statusCodes_withRequest (hindent : indent.isBlank = true)
    (h : EndpointAt e lines endpointAt) (options : RepairOptions) :
    statusCodes (withRequest options e indent endpointAt lines) = statusCodes lines := by
  rw [withRequest]
  cases e.body? with
  | none => rfl
  | some body =>
    obtain ⟨_, _, _, houtside⟩ := withHeader_spec hindent h options
    have hheader : statusCodes (withHeader options indent endpointAt lines).1 =
        statusCodes lines := by
      obtain heq | heq := fst_withHeader_cases options indent endpointAt lines
      · rw [heq]
      · rw [heq]
        exact statusCodes_insertAt h.outside (harmless_headerLineOf hindent).closed
          (statusCodes_headerLineOf hindent)
    dsimp only
    split
    · exact hheader
    · rw [statusCodes_insertAt houtside (insideAfter_requestBlock hindent body)
        (statusCodes_requestBlock hindent body), hheader]

theorem statusCodes_withExecution (hindent : indent.isBlank = true)
    (h : EndpointAt e lines endpointAt) :
    statusCodes (withExecution e indent endpointAt lines) = statusCodes lines := by
  rw [withExecution]
  split
  · rfl
  · refine statusCodes_insertAt ?_ (harmless_executionLineOf hindent).closed
      (statusCodes_executionLineOf hindent)
    cases hlast : lastSetupLine? endpointAt lines with
    | none => exact h.outside
    | some i => exact outside_of_lastSetupLine? hlast

theorem statusCodes_repairedLines (hpath : '\n' ∉ e.path) (hhost : ∀ host ∈ e.host, '\n' ∉ host)
    (hstep : options.stepIndent.isBlank = true) :
    statusCodes (repairedLines options e lines) = statusCodes lines := by
  have hindent := isBlank_stepIndentOf hstep lines
  rw [repairedLines]
  generalize stepIndentOf options lines = indent at hindent ⊢
  have hendpoint := endpointAt_withEndpoint hindent hhost hpath lines
  have hrequested := requested_withRequest hindent hendpoint options
  dsimp only
  rw [statusCodes_withExecution hindent hrequested.endpoint,
    statusCodes_withRequest hindent hendpoint, statusCodes_withEndpoint hindent hpath hhost]

end Steps

/-- A repaired scenario asserts the status codes that it asserted before. -/
theorem statusCodes_repair {options : RepairOptions} {e : Endpoint} {text : Text}
    (hpath : '\n' ∉ e.path) (hmethod : '\n' ∉ e.method) (hhost : ∀ host ∈ e.host, '\n' ∉ host)
    (hstep : options.stepIndent.isBlank = true) (hcontentType : '\n' ∉ options.contentType) :
    statusCodes (repair options e text).lines = statusCodes text.lines :=
  calc statusCodes (repair options e text).lines
      = statusCodes (repairedLines options e (fencelessLines text)) := by
        rw [← statusCodes_core, core_lines_repair hpath hmethod hhost hstep hcontentType,
          statusCodes_core]
    _ = statusCodes (fencelessLines text) := statusCodes_repairedLines hpath hhost hstep
    _ = statusCodes text.lines := by
        rw [← statusCodes_core, core_fencelessLines, statusCodes_core]

end ScenarioLint.Scenario
