import ScenarioLint.Keyword
import ScenarioLint.ScenarioKind

/-!
The settings of a policy: which keywords may lead a line, which status codes a scenario may assert,
and how many scenarios of each kind a batch has to hold.
-/

namespace ScenarioLint

/-- At most one entry for each scenario kind. -/
structure ByKind (α : Type) where
  happy : Option α := none
  error : Option α := none
  edge : Option α := none
  deriving DecidableEq, Repr

namespace ByKind

variable {α : Type}

def empty : ByKind α :=
  ⟨none, none, none⟩

def get? (m : ByKind α) : ScenarioKind → Option α
  | .happy => m.happy
  | .error => m.error
  | .edge => m.edge

def put (m : ByKind α) (kind : ScenarioKind) (a : α) : ByKind α :=
  match kind with
  | .happy => { m with happy := some a }
  | .error => { m with error := some a }
  | .edge => { m with edge := some a }

/-- The entries of both, where those of `other` win. -/
def extend (m other : ByKind α) : ByKind α :=
  ⟨other.happy.or m.happy, other.error.or m.error, other.edge.or m.edge⟩

def toList (m : ByKind α) : List (ScenarioKind × α) :=
  ScenarioKind.all.filterMap fun kind => (m.get? kind).map (kind, ·)

end ByKind

abbrev StatusCode := UInt16

/-- The name under which a method is stored: without white space around it and in ASCII capitals. -/
def methodName (method : Text) : Text :=
  method.trim.toUpper

/-- The status codes that each method allows for each kind of scenario, sorted by method. -/
structure StatusMatrix where
  rows : List (Text × ByKind (List StatusCode))
  deriving DecidableEq, Repr

namespace StatusMatrix

def empty : StatusMatrix :=
  ⟨[]⟩

/-- Changes the row of a key, which starts out without entries. -/
def changeRow (key : Text) (f : ByKind (List StatusCode) → ByKind (List StatusCode)) :
    List (Text × ByKind (List StatusCode)) → List (Text × ByKind (List StatusCode))
  | [] => [(key, f .empty)]
  | (other, row) :: rest =>
    if key = other then (other, f row) :: rest
    else if key < other then (key, f .empty) :: (other, row) :: rest
    else (other, row) :: changeRow key f rest

def set (m : StatusMatrix) (method : Text) (kind : ScenarioKind) (codes : List StatusCode) :
    StatusMatrix :=
  ⟨changeRow (methodName method) (·.put kind codes) m.rows⟩

/-- The codes that a method allows for a kind, of which there are none if it is unconstrained. -/
def allowed (m : StatusMatrix) (method : Text) (kind : ScenarioKind) : List StatusCode :=
  ((m.rows.lookup (methodName method)).bind (·.get? kind)).getD []

def entries (m : StatusMatrix) : List (Text × ScenarioKind × List StatusCode) :=
  m.rows.flatMap fun (method, row) => row.toList.map fun (kind, codes) => (method, kind, codes)

/-- Merges the rows whose keys name the same method.  Where two of them have codes for one kind,
    those of the greater key count. -/
def normalized (m : StatusMatrix) : StatusMatrix :=
  ⟨m.rows.foldl (fun rows (key, row) => changeRow (methodName key) (·.extend row) rows) []⟩

def standard : StatusMatrix :=
  empty
    |>.set "GET".toList .happy [200]
    |>.set "GET".toList .error [400, 404, 500]
    |>.set "GET".toList .edge [200, 400]
    |>.set "POST".toList .happy [201, 200]
    |>.set "POST".toList .error [400, 409, 415, 500]
    |>.set "POST".toList .edge [422, 400]
    |>.set "PUT".toList .happy [200, 204]
    |>.set "PUT".toList .error [400, 404, 409, 500]
    |>.set "PUT".toList .edge [422, 400]
    |>.set "PATCH".toList .happy [200, 204]
    |>.set "PATCH".toList .error [400, 404, 409, 500]
    |>.set "PATCH".toList .edge [422, 400]
    |>.set "DELETE".toList .happy [200, 204]
    |>.set "DELETE".toList .error [400, 404, 500]
    |>.set "DELETE".toList .edge [409, 400]

end StatusMatrix

/-- The least number of scenarios of each kind in a batch. -/
structure ChecklistTargets where
  minimums : ByKind UInt64
  deriving DecidableEq, Repr

namespace ChecklistTargets

def empty : ChecklistTargets :=
  ⟨.empty⟩

def set (t : ChecklistTargets) (kind : ScenarioKind) (minimum : UInt64) : ChecklistTargets :=
  ⟨t.minimums.put kind minimum⟩

def get? (t : ChecklistTargets) (kind : ScenarioKind) : Option UInt64 :=
  t.minimums.get? kind

def entries (t : ChecklistTargets) : List (ScenarioKind × UInt64) :=
  t.minimums.toList

def standard : ChecklistTargets :=
  empty |>.set .happy 3 |>.set .error 3 |>.set .edge 4

end ChecklistTargets

/-- The part of a policy that is not a rulebook. -/
structure Settings where
  keywords : List Keyword
  matrix : StatusMatrix
  targets : ChecklistTargets
  deriving DecidableEq, Repr

namespace Settings

def standard : Settings :=
  ⟨Keyword.all, .standard, .standard⟩

/-- Sorts the keywords without repetition and merges the rows of one method. -/
def normalized (s : Settings) : Settings :=
  { s with
    keywords := Keyword.all.filter (s.keywords.contains ·)
    matrix := s.matrix.normalized }

end Settings

end ScenarioLint
