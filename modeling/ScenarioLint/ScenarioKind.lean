import ScenarioLint.Text

/-!
The intent of a scenario: a valid request, an invalid request, or input at a boundary.
-/

namespace ScenarioLint

inductive ScenarioKind where
  | happy
  | error
  | edge
  deriving DecidableEq, Repr, Inhabited

namespace ScenarioKind

def all : List ScenarioKind :=
  [happy, error, edge]

def name : ScenarioKind → Text
  | happy => "happy".toList
  | error => "error".toList
  | edge => "edge".toList

def rank : ScenarioKind → Nat
  | happy => 0
  | error => 1
  | edge => 2

/-- The kind that a text names, in any case and with any white space around it. -/
def named? (text : Text) : Option ScenarioKind :=
  all.find? fun kind => Text.alike kind.name text.trim

end ScenarioKind

structure UnknownKind where
  name : Text
  deriving DecidableEq, Repr

namespace UnknownKind

def message (e : UnknownKind) : Text :=
  "unknown scenario kind: '".toList ++ e.name ++ "' (expected happy, error or edge)".toList

end UnknownKind

def ScenarioKind.parse (text : Text) : Except UnknownKind ScenarioKind :=
  match ScenarioKind.named? text with
  | some kind => .ok kind
  | none => .error ⟨text⟩

end ScenarioLint
