import ScenarioLint.Proofs.Check.Vocabulary

/-!
The check of the vocabulary under two policies, one of which asks no less than the other.

Which blocks a scan goes through does not depend on the policy, so the two scans can be compared line
by line: whatever is wrong with a line under the lax policy is wrong with it under the strict one.
-/

namespace ScenarioLint

/-- A policy, both of whose rulebooks have patterns, asks no less than another: the other one has all
    of its patterns, each in the same rulebook, and allows all of its keywords. -/
structure Policy.IsStricter (strict lax : Policy) : Prop where
  steps_ne_nil : strict.steps ≠ []
  assertions_ne_nil : strict.assertions ≠ []
  steps_subset : strict.steps ⊆ lax.steps
  assertions_subset : strict.assertions ⊆ lax.assertions
  allows : ∀ keyword, strict.allows keyword = true → lax.allows keyword = true

namespace Check

open Scenario (Role)
open Template (Pattern)

variable {strict lax : Policy}

/-- Taking patterns away from a rulebook lists no further line, as long as some patterns stay. -/
theorem Unlisted.of_subset {few many : List Pattern} {line : Text} (h : Unlisted many line)
    (hne : few ≠ []) (hsubset : few ⊆ many) : Unlisted few line :=
  ⟨hne, fun p hp => h.2 p (hsubset hp)⟩

/-- Whatever is wrong with a line under the lax policy is wrong with it under the strict one. -/
theorem Offends.of_isStricter (h : strict.IsStricter lax) {inAssertions : Prop} {line : Text}
    (hoffends : Offends lax inAssertions line) : Offends strict inAssertions line := by
  have hsteps : Unlisted lax.steps line → Unlisted strict.steps line :=
    fun hline => hline.of_subset h.steps_ne_nil h.steps_subset
  have hassertions : Unlisted lax.assertions line → Unlisted strict.assertions line :=
    fun hline => hline.of_subset h.assertions_ne_nil h.assertions_subset
  cases hoffends with
  | noKeyword hkeyword => exact .noKeyword hkeyword
  | @disallowed keyword hkeyword hdisallowed =>
    have hstrict : strict.allows keyword = false := by
      rw [Bool.eq_false_iff] at hdisallowed ⊢
      exact fun hallows => hdisallowed (h.allows keyword hallows)
    exact .disallowed hkeyword hstrict
  | step hkeyword hstep hline => exact .step hkeyword hstep (hsteps hline)
  | assertion hkeyword hline => exact .assertion hkeyword (hassertions hline)
  | continuedStep hkeyword hblock hline => exact .continuedStep hkeyword hblock (hsteps hline)
  | continuedAssertion hkeyword hblock hline =>
    exact .continuedAssertion hkeyword hblock (hassertions hline)

/-- One step of the two scans, which stand in the same block: the line has a problem for the strict
    policy if it has one for the lax policy. -/
theorem isSome_problem?_of_isStricter (h : strict.IsStricter lax) {block : Block} {role : Role}
    {line : Text} (hlax : (problem? lax block role line).isSome = true) :
    (problem? strict block role line).isSome = true := by
  obtain ⟨hrole, hblank, hoffends⟩ := isSome_problem?_iff.mp hlax
  exact isSome_problem?_iff.mpr ⟨hrole, hblank, hoffends.of_isStricter h⟩

/-- From the same place in the same block on, the strict policy reports every line that the lax one
    reports. -/
theorem line_vocabularyFrom_sublist (h : strict.IsStricter lax) (context : Context) (number : Nat)
    (block : Block) (marked : List (Role × Text)) :
    ((vocabularyFrom lax context number block marked).map Issue.line).Sublist
      ((vocabularyFrom strict context number block marked).map Issue.line) := by
  induction marked generalizing number block with
  | nil => exact List.nil_sublist _
  | cons first rest ih =>
    obtain ⟨role, line⟩ := first
    rw [vocabularyFrom_cons, vocabularyFrom_cons, List.map_append, List.map_append]
    -- the block behind the line is the same for both policies
    refine List.Sublist.append ?_ (ih _ _)
    cases hlax : problem? lax block role line with
    | none => exact List.nil_sublist _
    | some problem =>
      obtain ⟨other, hstrict⟩ := Option.isSome_iff_exists.mp
        (isSome_problem?_of_isStricter h (Option.isSome_of_eq_some hlax))
      rw [hstrict]
      exact List.Sublist.refl _

/-- A stricter policy reports, in their order, all lines that the laxer one reports. -/
theorem line_vocabulary_sublist (h : strict.IsStricter lax) (text : Text) (context : Context) :
    ((vocabulary lax text context).map Issue.line).Sublist
      ((vocabulary strict text context).map Issue.line) :=
  line_vocabularyFrom_sublist h context 1 .steps _

/-- Under fewer patterns and fewer keywords, a line that stands in neither rulebook is reported with two
    others that the laxer policy lets pass. -/
theorem line_vocabulary_sublist_fewer :
    ∃ strict lax : Policy,
      strict = Policy.compile (some "Given x".toList) (some "status <value>".toList)
        ⟨[.given, .then, .and], .standard, .standard⟩ ∧
      lax = Policy.ofRulebooks "Given x\nmethod GET".toList "status <value>\nbody <value>".toList ∧
      strict.IsStricter lax ∧
      ∃ text context,
        (vocabulary lax text context).map Issue.line = [some 4] ∧
        (vocabulary strict text context).map Issue.line = [some 2, some 4, some 5] ∧
        ((vocabulary lax text context).map Issue.line).Sublist
          ((vocabulary strict text context).map Issue.line) := by
  let strict := Policy.compile (some "Given x".toList) (some "status <value>".toList)
    ⟨[.given, .then, .and], .standard, .standard⟩
  let lax := Policy.ofRulebooks "Given x\nmethod GET".toList "status <value>\nbody <value>".toList
  let text := "Given x\nWhen method GET\nThen status 200\nAnd x\nAnd body a".toList
  have hstricter : strict.IsStricter lax :=
    { steps_ne_nil := by decide +kernel
      assertions_ne_nil := by decide +kernel
      steps_subset := by decide +kernel
      assertions_subset := by decide +kernel
      allows := by
        intro keyword _
        cases keyword <;> rfl }
  exact ⟨strict, lax, rfl, rfl, hstricter, text, ⟨"GET".toList, "/p".toList, .happy⟩,
    by decide +kernel, by decide +kernel, line_vocabulary_sublist hstricter text _⟩

end Check

end ScenarioLint
