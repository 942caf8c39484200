import ScenarioLint.Text

/-!
The commands of the program: compiling rulebooks, and checking a batch of scenarios.
-/

namespace ScenarioLint

structure PolicyFiles where
  steps : Text
  assertions : Text
  settings : Option Text
  deriving DecidableEq, Repr

namespace PolicyFiles

def defaultSteps : Text := "keywords.txt".toList

def defaultAssertions : Text := "assertions.txt".toList

def standard : PolicyFiles :=
  ⟨defaultSteps, defaultAssertions, none⟩

def paths (f : PolicyFiles) : List Text :=
  f.settings.toList ++ [f.steps, f.assertions]

end PolicyFiles

structure CheckRequest where
  batch : Text
  /-- The scenarios are worked on one after the other. -/
  sequential : Bool
  /-- The grammar of the scenarios is not checked. -/
  skipGrammar : Bool
  /-- The file for the batch with its repaired texts. -/
  output : Option Text
  deriving DecidableEq, Repr

inductive Action where
  | compile
  | check (request : CheckRequest)
  deriving DecidableEq, Repr

structure Command where
  files : PolicyFiles
  /-- The result is printed as JSON. -/
  json : Bool
  action : Action
  deriving DecidableEq, Repr

namespace Command

def inputs (c : Command) : List Text :=
  c.files.paths ++
    match c.action with
    | .compile => []
    | .check request => [request.batch]

end Command

end ScenarioLint
