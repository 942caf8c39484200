import ScenarioLint.Settings.Basic

/-!
Changing settings one entry at a time.
-/

namespace ScenarioLint.Settings

inductive Change where
  /-- Sets the status codes that a method allows for a kind. -/
  | allow (method : Text) (kind : ScenarioKind) (codes : List StatusCode)
  /-- Sets the minimum of a kind. -/
  | require (kind : ScenarioKind) (minimum : UInt64)
  /-- Sets the keywords that may lead a line. -/
  | restrict (keywords : List Keyword)
  deriving DecidableEq, Repr

def apply (s : Settings) : Change → Settings
  | .allow method kind codes => { s with matrix := s.matrix.set method kind codes }
  | .require kind minimum => { s with targets := s.targets.set kind minimum }
  | .restrict keywords => { s with keywords := keywords }

def applyAll (s : Settings) (changes : List Change) : Settings :=
  changes.foldl apply s

/-- The settings with neither status codes nor minimums. -/
def unconstrained (s : Settings) : Settings :=
  { s with matrix := .empty, targets := .empty }

end ScenarioLint.Settings
