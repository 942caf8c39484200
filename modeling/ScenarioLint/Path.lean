import ScenarioLint.Text

/-!
Paths of files: their components, names and extensions.
-/

namespace ScenarioLint.Path

/-- The components of a path.  Empty components do not count, and neither does `.` except as the
    first one. -/
def components (path : Text) : List Text :=
  match path.pieces '/' with
  | [] => []
  | first :: rest =>
    (if first.isEmpty then [] else [first]) ++
      rest.filter fun part => !part.isEmpty && part != ['.']

def fileName? (path : Text) : Option Text :=
  match (components path).getLast? with
  | some name => if name = ['.'] || name = ['.', '.'] then none else some name
  | none => none

/-- The text behind the last dot of a file name, if some text stands before that dot. -/
def extension? (path : Text) : Option Text := do
  let name ← fileName? path
  let parts := Text.pieces '.' name
  if parts.length < 2 || (parts.length = 2 && parts.head? = some []) then none
  else parts.getLast?

end ScenarioLint.Path
