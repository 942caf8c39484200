import ScenarioLint.Endpoint
import ScenarioLint.Json.Decode

/-!
Scenario records and their JSON form.
-/

namespace ScenarioLint

open Json (Source Value)

structure Record where
  endpoint : Endpoint
  kind : ScenarioKind
  rawText : Text
  /-- The repaired text, once there is one. -/
  canonicalText : Option Text

/-- The repaired text of a record, or the text as it was generated. -/
def Record.text (r : Record) : Text :=
  r.canonicalText.getD r.rawText

/-- The number of arrays and objects that may lie within one another in a JSON text. -/
def depthLimit : Nat := 127

namespace Endpoint

/-- Decodes an endpoint that lies within `depth` arrays and objects, itself included. -/
def ofSource? (depth : Nat) (source : Source) : Option Endpoint := do
  let fields ← source.fields? [["path".toList], ["method".toList], ["host".toList],
    ["request_body_example".toList, "request_example".toList]]
  match fields with
  | [path, method, host, body] =>
    let path ← path.bind Source.text?
    let method ← method.bind Source.text?
    let host ← Source.optional? Source.text? host
    let body ← Source.optional? (Source.value? (depthLimit - depth)) body
    some ⟨path, method, host, body⟩
  | _ => none

def value (e : Endpoint) : Value :=
  .present
    [("path", some (.string e.path)),
     ("method", some (.string e.method)),
     ("host", e.host.map .string),
     ("request_body_example", e.bodyExample)]

end Endpoint

def ScenarioKind.ofSource? (source : Source) : Option ScenarioKind :=
  source.text?.bind ScenarioKind.named?

namespace Record

def ofSource? (depth : Nat) (source : Source) : Option Record := do
  let fields ← source.fields? [["endpoint".toList], ["kind".toList], ["raw_text".toList],
    ["canonical_text".toList]]
  match fields with
  | [endpoint, kind, rawText, canonicalText] =>
    let endpoint ← endpoint.bind (Endpoint.ofSource? (depth + 1))
    let kind ←
      match kind with
      | none => some .happy
      | some kind => ScenarioKind.ofSource? kind
    let rawText ← rawText.bind Source.text?
    let canonicalText ← Source.optional? Source.text? canonicalText
    some ⟨endpoint, kind, rawText, canonicalText⟩
  | _ => none

def ofText? (t : Text) : Option (List Record) := do
  let source ← (Json.Document.read t).whole?
  source.list? (ofSource? 2)

def value (r : Record) : Value :=
  .present
    [("endpoint", some r.endpoint.value),
     ("kind", some (.string r.kind.name)),
     ("raw_text", some (.string r.rawText)),
     ("canonical_text", r.canonicalText.map .string)]

def listValue (records : List Record) : Value :=
  .array (records.map value)

end Record

end ScenarioLint
