import ScenarioLint.Text

/-!
Which lines of a scenario belong to docstrings.

A line that starts with three quotes, behind any white space, opens a docstring or closes the one
that is open.  A docstring that is never closed runs to the end.
-/

namespace ScenarioLint.Scenario

def docstringMark : Text := "\"\"\"".toList

/-- The part that a line plays. -/
inductive Role where
  | text
  | opening
  | body
  | closing
  deriving DecidableEq, Repr

def hasMark (line : Text) : Bool :=
  docstringMark.isPrefixOf line.trimStart

namespace Role

def of (inside marked : Bool) : Role :=
  match inside, marked with
  | false, false => text
  | false, true => opening
  | true, false => body
  | true, true => closing

/-- The roles of lines that follow a place inside or outside a docstring. -/
def scanFrom (inside : Bool) : List Text → List Role
  | [] => []
  | line :: rest => of inside (hasMark line) :: scanFrom (inside != hasMark line) rest

def scan (lines : List Text) : List Role :=
  scanFrom false lines

end Role

end ScenarioLint.Scenario
