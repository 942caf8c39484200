import ScenarioLint.Issue
import ScenarioLint.Policy.Basic
import ScenarioLint.Scenario.Docstring

/-!
Checking the lines of a scenario against the keywords and the rulebooks of a policy.

A line that starts with `And` continues the block that it stands in: behind an assertion it has to
read as an assertion, and otherwise as a step.
-/

namespace ScenarioLint.Check

open Scenario (Role)

inductive Block where
  /-- Setup and actions. -/
  | steps
  /-- Assertions. -/
  | assertions
  deriving DecidableEq, Repr

inductive Problem where
  | noKeyword
  | disallowed (keyword : Keyword)
  | unknownStep
  | unknownAssertion
  | unknownContinuation (block : Block)
  deriving DecidableEq, Repr

namespace Problem

def message : Problem → Text
  | noKeyword => "Non-Gherkin line".toList
  | disallowed keyword => "Disallowed keyword '".toList ++ keyword.word ++ ['\'']
  | unknownStep => "Step not in rulebook".toList
  | unknownAssertion => "Assertion not in rulebook".toList
  | unknownContinuation .assertions =>
    "'And' in assertion block must match an assertion template".toList
  | unknownContinuation .steps => "'And' in step block must match a step template".toList

end Problem

def Block.after (block : Block) : Keyword → Block
  | .feature | .background | .scenario | .given | .when => steps
  | .then => assertions
  | .and => block

/-- No pattern of a rulebook that has patterns accepts the line. -/
def unmatched (patterns : List Template.Pattern) (line : Text) : Bool :=
  !patterns.isEmpty && !patterns.any (·.accepts line)

def templateProblem? (policy : Policy) (block : Block) (line : Text) : Keyword → Option Problem
  | .feature | .background | .scenario => none
  | .given | .when => if unmatched policy.steps line then some .unknownStep else none
  | .then => if unmatched policy.assertions line then some .unknownAssertion else none
  | .and =>
    match block with
    | .assertions =>
      if unmatched policy.assertions line then some (.unknownContinuation block) else none
    | .steps => if unmatched policy.steps line then some (.unknownContinuation block) else none

/-- The block behind a line in a block, and the problem of the line. -/
def classify (policy : Policy) (block : Block) (line : Text) : Block × Option Problem :=
  match Keyword.detect line with
  | none => (block, some .noKeyword)
  | some (keyword, _) =>
    (block.after keyword,
      if policy.allows keyword then templateProblem? policy block line keyword
      else some (.disallowed keyword))

def excerptLength : Nat := 40

/-- The start of a line, with dots if it is longer than a message quotes. -/
def excerpt (line : Text) : Text :=
  if excerptLength < line.length then line.take excerptLength ++ "...".toList else line

def vocabularyIssue (context : Context) (number : Nat) (line : Text) (problem : Problem) : Issue :=
  ⟨.vocabulary, some context, some number,
    problem.message ++ " in scenario (".toList ++ context.text ++ ") at L".toList ++
      Text.ofNat number ++ ": '".toList ++ excerpt line ++ ['\'']⟩

/-- The issues of lines that follow a place in a block. -/
def vocabularyFrom (policy : Policy) (context : Context) (number : Nat) (block : Block) :
    List (Role × Text) → List Issue
  | [] => []
  | (role, line) :: rest =>
    let line := line.trim
    if line.isEmpty || role != .text then vocabularyFrom policy context (number + 1) block rest
    else
      let (next, problem) := classify policy block line
      (problem.map (vocabularyIssue context number line)).toList ++
        vocabularyFrom policy context (number + 1) next rest

/-- The issues of the lines of a scenario, at most one for each line. -/
def vocabulary (policy : Policy) (text : Text) (context : Context) : List Issue :=
  let lines := text.lines
  vocabularyFrom policy context 1 .steps ((Role.scan lines).zip lines)

end ScenarioLint.Check
