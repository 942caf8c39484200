import ScenarioLint.Record

/-!
Issues: what the checks report, and their JSON form.
-/

namespace ScenarioLint

open Json (Source Value)

inductive Category where
  | vocabulary
  | status
  | grammar
  | checklist
  | internal
  deriving DecidableEq, Repr

namespace Category

def all : List Category :=
  [vocabulary, status, grammar, checklist, internal]

def name : Category → Text
  | vocabulary => "vocabulary".toList
  | status => "status".toList
  | grammar => "grammar".toList
  | checklist => "checklist".toList
  | internal => "internal".toList

def ofSource? (source : Source) : Option Category :=
  source.variant?.bind fun name => all.find? (·.name = name)

end Category

/-- The scenario that an issue belongs to. -/
structure Context where
  method : Text
  path : Text
  kind : ScenarioKind
  deriving DecidableEq, Repr

namespace Context

def of (method path : Text) (kind : ScenarioKind) : Context :=
  ⟨methodName method, path, kind⟩

def ofRecord (r : Record) : Context :=
  of r.endpoint.method r.endpoint.path r.kind

def endpointText (c : Context) : Text :=
  c.method ++ ' ' :: c.path

def text (c : Context) : Text :=
  c.endpointText ++ ", ".toList ++ c.kind.name

def ofSource? (source : Source) : Option Context := do
  let fields ← source.fields? [["method".toList], ["path".toList], ["kind".toList]]
  match fields with
  | [method, path, kind] =>
    let method ← method.bind Source.text?
    let path ← path.bind Source.text?
    let kind ← kind.bind ScenarioKind.ofSource?
    some ⟨method, path, kind⟩
  | _ => none

def value (c : Context) : Value :=
  .present
    [("method", some (.string c.method)),
     ("path", some (.string c.path)),
     ("kind", some (.string c.kind.name))]

end Context

/-- A message about a scenario, or about a whole batch if it has no context. -/
structure Issue where
  category : Category
  context : Option Context
  /-- The number of the line that the issue is about, counted from one. -/
  line : Option Nat
  message : Text
  deriving DecidableEq, Repr

namespace Issue

def ofSource? (source : Source) : Option Issue := do
  let fields ← source.fields? [["category".toList], ["context".toList], ["line".toList],
    ["message".toList]]
  match fields with
  | [category, context, line, message] =>
    let category ← category.bind Category.ofSource?
    let context ← Source.optional? Context.ofSource? context
    let line ← Source.optional? Source.nat? line
    let message ← message.bind Source.text?
    some ⟨category, context, line, message⟩
  | _ => none

def value (i : Issue) : Value :=
  .present
    [("category", some (.string i.category.name)),
     ("context", i.context.map Context.value),
     ("line", i.line.map Value.count),
     ("message", some (.string i.message))]

def listValue (issues : List Issue) : Value :=
  .array (issues.map value)

end Issue

end ScenarioLint
