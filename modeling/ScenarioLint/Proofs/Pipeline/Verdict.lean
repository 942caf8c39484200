import ScenarioLint.Proofs.Check.Message
import ScenarioLint.Proofs.Check.Status
import ScenarioLint.Proofs.Pipeline.Fault
import ScenarioLint.Proofs.Settings.Matrix

/-!
What a run says about the status of a scenario.  The repair in front of the checks changes nothing
about it, so the verdict can be told from the text as it was generated.
-/

namespace ScenarioLint

namespace Policy

theorem allowedCodes_ofRecord (policy : Policy) (r : Record) :
    policy.allowedCodes (Context.ofRecord r).method (Context.ofRecord r).kind =
      policy.allowedCodes r.endpoint.method r.kind := by
  have hname : methodName (Context.ofRecord r).method = methodName r.endpoint.method :=
    methodName_methodName r.endpoint.method
  rw [allowedCodes, StatusMatrix.allowed, hname]
  rfl

theorem admits_ofRecord_iff {policy : Policy} {r : Record} {code : Nat} :
    policy.Admits (Context.ofRecord r).method (Context.ofRecord r).kind code ↔
      policy.Admits r.endpoint.method r.kind code := by
  rw [Admits, allowedCodes_ofRecord, Admits]

end Policy

namespace Check

theorem countP_status_vocabulary (policy : Policy) (text : Text) (context : Context) :
    (vocabulary policy text context).countP (·.category = .status) = 0 := by
  rw [List.countP_eq_zero]
  intro issue hissue
  simp [(concerns_of_mem_vocabulary hissue).category]

theorem countP_status_grammar (text : Text) (context : Context) :
    (grammar text context).countP (·.category = .status) = 0 := by
  rw [List.countP_eq_zero]
  intro issue hissue
  simp [(concerns_of_mem_grammar hissue).category]

end Check

namespace Pipeline

open Check (StatusAssertion statusAssertion?)
open Scenario (statusCodes)

theorem countP_status_builtinIssues (policy : Policy) (options : PipelineOptions) (text : Text)
    (context : Context) :
    (builtinIssues policy options text context).countP (·.category = .status) =
      if ∃ code ∈ (statusCodes text.lines).head?, policy.Admits context.method context.kind code
      then 0 else 1 := by
  have hgrammar : (if options.grammar then Check.grammar text context else []).countP
      (·.category = .status) = 0 := by
    split
    · exact Check.countP_status_grammar text context
    · rfl
  rw [builtinIssues, List.countP_append, List.countP_append, Check.countP_status_vocabulary,
    hgrammar, Check.countP_status, Nat.zero_add, Nat.add_zero]

/-- Verdicts about the status survive the repair.  The repaired text asserts the code that the text
    asserted before, if any, and a run reports one issue about the status of the scenario unless the
    first status line outside docstrings of the text as it was generated asserts a code that the
    status matrix admits.  The checks that were added do not report on the status. -/
theorem status_verdict_of_run (policy : Policy) {options : PipelineOptions}
    (hstep : options.repair.stepIndent.isBlank = true)
    (hcontentType : '\n' ∉ options.repair.contentType) {checks : List ScenarioCheck}
    (hchecks : ∀ c ∈ checks, ∀ r context, ∀ issue ∈ c.issues r context, issue.category ≠ .status)
    {r : Record} (hpath : '\n' ∉ r.endpoint.path) (hmethod : '\n' ∉ r.endpoint.method)
    (hhost : ∀ host ∈ r.endpoint.host, '\n' ∉ host) :
    (statusAssertion? (Scenario.repair options.repair r.endpoint r.rawText)).map
        StatusAssertion.code = (statusAssertion? r.rawText).map StatusAssertion.code ∧
      ∀ (records : List Record) (i : Nat), records[i]? = some r →
        ∃ outcome, ((assemble policy checks (some options)).run records).2.scenarios[i]? =
            some outcome ∧
          outcome.issues.countP (·.category = .status) =
            if ∃ code ∈ (statusCodes r.rawText.lines).head?,
              policy.Admits r.endpoint.method r.kind code then 0 else 1 := by
  have hcodes : statusCodes (Scenario.repair options.repair r.endpoint r.rawText).lines =
      statusCodes r.rawText.lines :=
    Scenario.statusCodes_repair hpath hmethod hhost hstep hcontentType
  refine ⟨?_, fun records i hr => ⟨_, getElem?_scenarios_assemble hr checks, ?_⟩⟩
  · rw [Check.map_code_statusAssertion?, Check.map_code_statusAssertion?, hcodes]
  · have hadded : (checks.flatMap (·.issues (r.repaired options.repair) (.ofRecord r))).countP
        (·.category = .status) = 0 := by
      rw [List.countP_eq_zero]
      intro issue hissue
      obtain ⟨c, hc, hmem⟩ := List.mem_flatMap.mp hissue
      simpa using hchecks c hc _ _ issue hmem
    have htext : (r.repaired options.repair).text =
        Scenario.repair options.repair r.endpoint r.rawText :=
      rfl
    dsimp only
    rw [List.countP_append, hadded, Nat.add_zero, countP_status_builtinIssues, htext, hcodes]
    simp only [Policy.admits_ofRecord_iff]

/-- A scenario in a code fence with a status line in a docstring in front of the one that counts, and
    with a docstring behind it that is never closed.  Its code is one for a success, so it gets no
    issue as a case of success and one as a case of failure. -/
theorem status_verdict_of_run_open_docstring :
    let check : ScenarioCheck := ⟨"custom".toList, fun _ _ => .error .unknown⟩
    let e : Endpoint := ⟨"/users".toList, " post".toList, some "api.test".toList,
      some (.object [("name".toList, .string "a".toList)])⟩
    let text : Text := ("\x60\x60\x60\nScenario: s\nAnd url '/users'\n\"\"\"\nThen status 500\n" ++
      "\"\"\"\r\nthen STATUS 201 \n\"\"\"\nopen").toList
    let records : List Record := [⟨e, .happy, text, none⟩, ⟨e, .error, text, none⟩]
    let policy := Policy.ofRulebooks [] []
    let report := ((assemble policy [check] (some .standard)).run records).2
    (statusAssertion? (Scenario.repair .standard e text)).map StatusAssertion.code =
        (statusAssertion? text).map StatusAssertion.code ∧
      ∃ success failure, report.scenarios[0]? = some success ∧
        report.scenarios[1]? = some failure ∧
        success.issues.countP (·.category = .status) = 0 ∧
        failure.issues.countP (·.category = .status) = 1 := by
  intro check e text records policy report
  have hchecks : ∀ c ∈ [check], ∀ r context, ∀ issue ∈ c.issues r context,
      issue.category ≠ .status := by
    intro c hc r context issue hissue
    rw [List.mem_singleton.mp hc, ScenarioCheck.issues, List.mem_singleton] at hissue
    rw [hissue]
    show Category.internal ≠ .status
    decide
  have hstep : PipelineOptions.standard.repair.stepIndent.isBlank = true := rfl
  have hpath : '\n' ∉ e.path := by decide
  have hmethod : '\n' ∉ e.method := by decide
  have hhost : ∀ host ∈ e.host, '\n' ∉ host := by decide
  have hverdict (kind : ScenarioKind) := status_verdict_of_run (r := ⟨e, kind, text, none⟩) policy
    hstep (by decide) hchecks hpath hmethod hhost
  obtain ⟨hcode, hhappy⟩ := hverdict .happy
  obtain ⟨success, hsuccess, hnone⟩ := hhappy records 0 rfl
  obtain ⟨failure, hfailure, hone⟩ := (hverdict .error).2 records 1 rfl
  refine ⟨hcode, success, failure, hsuccess, hfailure, ?_, ?_⟩
  · rw [hnone, if_pos (by decide +kernel)]
  · rw [hone, if_neg (by decide +kernel)]

end Pipeline

end ScenarioLint
