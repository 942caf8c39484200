import ScenarioLint.Check.Status
import ScenarioLint.Proofs.Scenario.StatusCode

/-!
The status check: it reports at most one issue, and which one depends only on the first status line
outside docstrings.
-/

namespace ScenarioLint

/-- The status matrix leaves the method unconstrained for the kind or allows the code. -/
def Policy.Admits (policy : Policy) (method : Text) (kind : ScenarioKind) (code : Nat) : Prop :=
  policy.allowedCodes method kind = [] ∨
    ∃ allowed ∈ policy.allowedCodes method kind, allowed.toNat = code

instance (policy : Policy) (method : Text) (kind : ScenarioKind) (code : Nat) :
    Decidable (policy.Admits method kind code) :=
  inferInstanceAs (Decidable (_ ∨ _))

namespace Check

open Scenario (Role statusCode? statusCodes)

theorem map_code_firstStatus? (number : Nat) (marked : List (Role × Text)) :
    (firstStatus? number marked).map StatusAssertion.code =
      ((marked.filterMap fun (role, line) => if role = .text then some line else none).filterMap
        statusCode?).head? := by
  induction marked generalizing number with
  | nil => rfl
  | cons first rest ih =>
    obtain ⟨role, line⟩ := first
    rw [firstStatus?, List.filterMap_cons]
    by_cases hrole : role = .text
    · rw [if_pos hrole]
      cases hcode : statusCode? line with
      | none => simp [hrole, hcode, ih]
      | some code => simp [hrole, hcode]
    · simp [hrole, ih]

/-- The first status line outside docstrings counts. -/
theorem map_code_statusAssertion? (text : Text) :
    (statusAssertion? text).map StatusAssertion.code = (statusCodes text.lines).head? :=
  map_code_firstStatus? 1 _

/-- The status check reports one issue, unless the code that counts is admitted. -/
theorem countP_status (policy : Policy) (text : Text) (context : Context) :
    (status policy text context).countP (·.category = .status) =
      if ∃ code ∈ (statusCodes text.lines).head?, policy.Admits context.method context.kind code
      then 0 else 1 := by
  rw [← map_code_statusAssertion?, status]
  cases statusAssertion? text with
  | none => simp [noStatusIssue]
  | some found =>
    have hadmits : (((policy.allowedCodes context.method context.kind).isEmpty ||
        (policy.allowedCodes context.method context.kind).any (·.toNat = found.code)) = true) ↔
        policy.Admits context.method context.kind found.code := by
      simp [Policy.Admits]
    by_cases hok : policy.Admits context.method context.kind found.code
    · simp [hadmits.mpr hok, hok]
    · simp [hadmits, hok, unexpectedStatusIssue]

end Check

end ScenarioLint
