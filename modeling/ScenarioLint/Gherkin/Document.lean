import ScenarioLint.Text

/-!
The document of a feature file: a feature with its scenarios, their steps, and the arguments of
steps.

Every node knows the number of the line where its keyword, its mark or its first bar stands.
-/

namespace ScenarioLint.Gherkin

structure Row where
  cells : List Text
  line : Nat
  deriving DecidableEq, Repr

structure Docstring where
  /-- What follows the opening mark. -/
  mediaType : Option Text
  content : Text
  line : Nat
  deriving DecidableEq, Repr

inductive Argument where
  | docstring (d : Docstring)
  | table (rows : List Row)
  deriving DecidableEq, Repr

inductive StepWord where
  | given
  | when
  | then
  | and
  | but
  | star
  deriving DecidableEq, Repr

namespace StepWord

/-- All step words in the order in which they are tried. -/
def all : List StepWord :=
  [given, when, .then, and, but, star]

def word : StepWord → Text
  | given => "Given".toList
  | when => "When".toList
  | .then => "Then".toList
  | and => "And".toList
  | but => "But".toList
  | star => "*".toList

end StepWord

structure Step where
  word : StepWord
  text : Text
  line : Nat
  argument : Option Argument
  deriving DecidableEq, Repr

structure Examples where
  tags : List Text
  name : Text
  line : Nat
  rows : List Row
  deriving DecidableEq, Repr

inductive ScenarioWord where
  | outline
  | scenario
  | example
  deriving DecidableEq, Repr

namespace ScenarioWord

def all : List ScenarioWord :=
  [outline, scenario, .example]

def word : ScenarioWord → Text
  | outline => "Scenario Outline".toList
  | scenario => "Scenario".toList
  | .example => "Example".toList

end ScenarioWord

structure Scenario where
  tags : List Text
  word : ScenarioWord
  name : Text
  line : Nat
  steps : List Step
  examples : List Examples
  deriving DecidableEq, Repr

/-- The setup that the scenarios of a feature share. -/
structure Background where
  name : Text
  line : Nat
  steps : List Step
  deriving DecidableEq, Repr

structure Feature where
  tags : List Text
  name : Text
  description : List Text
  line : Nat
  background : Option Background
  scenarios : List Scenario
  deriving DecidableEq, Repr

/-- A document, which has no feature if it holds comments only. -/
structure Document where
  feature : Option Feature
  deriving DecidableEq, Repr

end ScenarioLint.Gherkin
