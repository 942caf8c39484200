import ScenarioLint.Check.Vocabulary
import ScenarioLint.Proofs.Keyword
import ScenarioLint.Proofs.Scenario.Docstring
import ScenarioLint.Proofs.Scenario.Inserted

/-!
The blocks in which the lines of a scenario stand, and the lines that assert something there.  Which
lines assert does not depend on lines that neither lead with a keyword nor mark a docstring, nor on
white space at the ends of lines.
-/

namespace ScenarioLint.Check

open Scenario (Role hasMark hasMark_trim textLines)

namespace Block

/-- The block behind a line. -/
def behind (block : Block) (line : Text) : Block :=
  (Keyword.leading? line).elim block block.after

/-- The block behind lines. -/
def behindAll (block : Block) (lines : List Text) : Block :=
  lines.foldl behind block

/-- A line asserts if its keyword opens a block of assertions or continues one. -/
def asserts (block : Block) (line : Text) : Bool :=
  (Keyword.leading? line).any fun keyword => block.after keyword = .assertions

theorem behindAll_append (block : Block) (front back : List Text) :
    block.behindAll (front ++ back) = (block.behindAll front).behindAll back :=
  List.foldl_append

/-- Only an assertion leads out of the setup. -/
theorem behind_steps {line : Text} (h : Keyword.leading? line ≠ some .then) :
    steps.behind line = steps := by
  rw [behind]
  cases hkeyword : Keyword.leading? line with
  | none => rfl
  | some keyword =>
    cases keyword with
    | «then» => exact absurd hkeyword h
    | _ => rfl

theorem behindAll_steps {lines : List Text}
    (h : ∀ line ∈ lines, Keyword.leading? line ≠ some .then) : steps.behindAll lines = steps := by
  induction lines with
  | nil => rfl
  | cons line rest ih =>
    rw [behindAll, List.foldl_cons, behind_steps (h line List.mem_cons_self)]
    exact ih fun other hother => h other (List.mem_cons_of_mem _ hother)

theorem asserts_steps {line : Text} (h : Keyword.leading? line ≠ some .then) :
    steps.asserts line = false := by
  rw [asserts]
  cases hkeyword : Keyword.leading? line with
  | none => rfl
  | some keyword =>
    cases keyword with
    | «then» => exact absurd hkeyword h
    | _ => rfl

/-- Behind a line with a keyword that asserts nothing, the setup goes on. -/
theorem behind_of_not_asserts {block : Block} {line : Text}
    (hkeyword : (Keyword.leading? line).isSome = true) (h : block.asserts line = false) :
    block.behind line = steps := by
  obtain ⟨keyword, hkeyword⟩ := Option.isSome_iff_exists.mp hkeyword
  rw [asserts, hkeyword, Option.any_some, decide_eq_false_iff_not] at h
  rw [behind, hkeyword, Option.elim_some]
  cases hafter : block.after keyword with
  | steps => rfl
  | assertions => exact absurd hafter h

theorem behind_trim (block : Block) (line : Text) : block.behind line.trim = block.behind line := by
  rw [behind, behind, Keyword.leading?_trim]

theorem asserts_trim (block : Block) (line : Text) :
    block.asserts line.trim = block.asserts line := by
  rw [asserts, asserts, Keyword.leading?_trim]

end Block

theorem fst_classify (policy : Policy) (block : Block) (line : Text) :
    (classify policy block line).1 = block.behind line := by
  rw [classify, Block.behind, Keyword.leading?]
  cases Keyword.detect line <;> rfl

/-- Lines, each with the block in front of it. -/
def withBlocks (block : Block) : List Text → List (Block × Text)
  | [] => []
  | line :: rest => (block, line) :: withBlocks (block.behind line) rest

/-- The trimmed lines that assert something among lines outside docstrings. -/
def assertionsFrom (block : Block) (lines : List Text) : List Text :=
  ((withBlocks block lines).filter fun (block, line) => block.asserts line).map
    fun (_, line) => line.trim

/-- The trimmed lines of a scenario that assert something. -/
def assertions (lines : List Text) : List Text :=
  assertionsFrom .steps (textLines false lines)

theorem withBlocks_append (block : Block) (front back : List Text) :
    withBlocks block (front ++ back) =
      withBlocks block front ++ withBlocks (block.behindAll front) back := by
  induction front generalizing block with
  | nil => rfl
  | cons line rest ih => rw [List.cons_append, withBlocks, withBlocks, ih]; rfl

theorem mem_of_mem_withBlocks {block : Block} {lines : List Text} {found : Block × Text}
    (h : found ∈ withBlocks block lines) : found.2 ∈ lines := by
  induction lines generalizing block with
  | nil => cases h
  | cons line rest ih =>
    rw [withBlocks, List.mem_cons] at h
    rcases h with rfl | h
    · exact List.mem_cons_self
    · exact List.mem_cons_of_mem _ (ih h)

theorem assertionsFrom_cons (block : Block) (line : Text) (rest : List Text) :
    assertionsFrom block (line :: rest) =
      (if block.asserts line then [line.trim] else []) ++
        assertionsFrom (block.behind line) rest := by
  rw [assertionsFrom, withBlocks, List.filter_cons]
  dsimp only
  split <;> rfl

theorem assertionsFrom_append (block : Block) (front back : List Text) :
    assertionsFrom block (front ++ back) =
      assertionsFrom block front ++ assertionsFrom (block.behindAll front) back := by
  rw [assertionsFrom, withBlocks_append, List.filter_append, List.map_append]
  rfl

/-- The line neither leads with a keyword nor marks a docstring. -/
def isIdle (line : Text) : Bool :=
  !hasMark line && (Keyword.leading? line).isNone

/-- The trimmed lines that are not idle. -/
def core (lines : List Text) : List Text :=
  (lines.filter fun line => !isIdle line).map Text.trim

theorem core_append (front back : List Text) : core (front ++ back) = core front ++ core back := by
  rw [core, List.filter_append, List.map_append]
  rfl

theorem core_cons (line : Text) (rest : List Text) : core (line :: rest) = core [line] ++ core rest :=
  core_append [line] rest

/-- Nothing but the core of lines decides which of them assert. -/
theorem assertionsFrom_core (block : Block) (inside : Bool) (lines : List Text) :
    assertionsFrom block (textLines inside (core lines)) =
      assertionsFrom block (textLines inside lines) := by
  induction lines generalizing block inside with
  | nil => rfl
  | cons line rest ih =>
    by_cases hidle : isIdle line = true
    · have hcore : core (line :: rest) = core rest := by
        simp [core, hidle]
      rw [isIdle, Bool.and_eq_true, Bool.not_eq_true', Option.isNone_iff_eq_none] at hidle
      obtain ⟨hmark, hkeyword⟩ := hidle
      rw [hcore, ih, Scenario.textLines_cons, hmark, Bool.bne_false, assertionsFrom_append]
      cases inside with
      | true => rfl
      | false => simp [assertionsFrom, withBlocks, Block.behindAll, Block.asserts, Block.behind,
          hkeyword]
    · have hcore : core (line :: rest) = line.trim :: core rest := by
        simp [core, hidle]
      rw [hcore, Scenario.textLines_cons, Scenario.textLines_cons, hasMark_trim,
        assertionsFrom_append, assertionsFrom_append, ih]
      split
      · simp only [assertionsFrom_cons, Block.behindAll, List.foldl_cons, List.foldl_nil,
          Block.behind_trim, Block.asserts_trim, Text.trim_trim]
      · rfl

/-- Nothing but the core of lines decides what a reader finds that passes over lines without a keyword
    and over white space at the ends of lines. -/
theorem filterMap_textLines_core {α : Type} {f : Text → Option α}
    (hidle : ∀ line, Keyword.leading? line = none → f line = none)
    (htrim : ∀ line, f line.trim = f line) (inside : Bool) (lines : List Text) :
    (textLines inside (core lines)).filterMap f = (textLines inside lines).filterMap f := by
  induction lines generalizing inside with
  | nil => rfl
  | cons line rest ih =>
    rw [core_cons, Scenario.textLines_cons, List.filterMap_append]
    by_cases hline : isIdle line = true
    · have hcore : core [line] = [] := by
        simp [core, hline]
      rw [isIdle, Bool.and_eq_true, Bool.not_eq_true', Option.isNone_iff_eq_none] at hline
      obtain ⟨hmark, hkeyword⟩ := hline
      rw [hcore, List.nil_append, ih, hmark, Bool.bne_false]
      split <;> simp [hidle line hkeyword]
    · have hcore : core [line] = [line.trim] := by
        simp [core, hline]
      rw [hcore, List.singleton_append, Scenario.textLines_cons, List.filterMap_append, ih,
        hasMark_trim]
      split <;> simp [List.filterMap_cons, htrim]

theorem core_singleton_eq {line other : Text} (h : line.trim = other.trim) :
    core [line] = core [other] := by
  have hidle : isIdle line = isIdle other := by
    rw [isIdle, isIdle, ← hasMark_trim, ← Keyword.leading?_trim, h, hasMark_trim,
      Keyword.leading?_trim]
  rw [core, core, List.filter_singleton, List.filter_singleton, hidle]
  cases isIdle other with
  | true => rfl
  | false => exact congrArg (fun t => [t]) h

theorem assertions_eq_of_core {lines others : List Text} (h : core lines = core others) :
    assertions lines = assertions others := by
  rw [assertions, ← assertionsFrom_core, h, assertionsFrom_core]
  rfl

end ScenarioLint.Check
