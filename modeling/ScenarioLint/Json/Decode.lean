import ScenarioLint.Json.Source

/-!
Decoding records, names and numbers from a JSON tree.

A record is an object with its fields in any order, or an array with its fields in the declared
order.  An object may have more members than the record has fields, but none of its fields twice.
-/

namespace ScenarioLint.Json.Source

def membersOf (names : List Text) (members : List (Option Text × Source)) : List Source :=
  members.filterMap fun (key, v) => if key.any (names.contains ·) then some v else none

/-- The value of a field, if it is present, or nothing if it is present twice. -/
def field? (members : List (Option Text × Source)) (names : List Text) :
    Option (Option Source) :=
  match membersOf names members with
  | [] => some none
  | [v] => some (some v)
  | _ => none

/-- The values of the fields of a record, each of which goes by some names. -/
def fields? (fields : List (List Text)) : Source → Option (List (Option Source))
  | object members true =>
    if members.all fun (key, _) => key.isSome then fields.mapM (field? members) else none
  | array items true =>
    if items.length ≤ fields.length then
      some (items.map some ++ List.replicate (fields.length - items.length) none)
    else none
  | _ => none

def text? : Source → Option Text
  | string t => some t
  | _ => none

/-- A value that may be absent or null. -/
def optional? {α : Type} (f : Source → Option α) : Option Source → Option (Option α)
  | none => some none
  | some null => some none
  | some v => (f v).map some

/-- The name of a variant without content, alone or as the only key of an object. -/
def variant? : Source → Option Text
  | string t => some t
  | object [(some t, null)] true => some t
  | _ => none

def list? {α : Type} (f : Source → Option α) : Source → Option (List α)
  | array items true => items.mapM f
  | _ => none

/-- A natural number of at most 64 bits. -/
def nat? : Source → Option Nat
  | number n => n.natBelow? UInt64.size
  | _ => none

end ScenarioLint.Json.Source
