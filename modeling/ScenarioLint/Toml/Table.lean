import ScenarioLint.Settings.Node

/-!
The tables of a TOML document while it is being read.

A table comes into being by its header, by the header of a table below it, or by a dotted key.  A
header may name a table of the second sort only, and a dotted key may reach into tables of the last
two sorts only; so no table is defined twice.
-/

namespace ScenarioLint.Toml

open Settings (Node)

/-- How a table came into being. -/
inductive Form where
  /-- By its own header, by an element of a list of tables, or as the document itself. -/
  | header
  /-- By the header of a table below it. -/
  | implied
  /-- By a dotted key. -/
  | dotted
  deriving DecidableEq, Repr

inductive Item where
  /-- A value, to which nothing can be added. -/
  | value (v : Node)
  | table (form : Form) (entries : List (Text × Item))
  /-- A list of tables with a header for each of them. -/
  | tables (elements : List (List (Text × Item)))

/-- The entries of a table in the order in which they were made. -/
abbrev Entries := List (Text × Item)

mutual

def Item.node : Item → Node
  | .value v => v
  | .table _ entries => .table (Item.entryNodes entries) true
  | .tables elements => .list (Item.elementNodes elements) true

def Item.entryNodes : List (Text × Item) → List (Option Text × Node)
  | [] => []
  | (key, item) :: rest => (some key, item.node) :: Item.entryNodes rest

def Item.elementNodes : List (List (Text × Item)) → List Node
  | [] => []
  | entries :: rest => .table (Item.entryNodes entries) true :: Item.elementNodes rest

end

namespace Entries

def replace (es : Entries) (key : Text) (item : Item) : Entries :=
  es.map fun entry => if entry.1 = key then (key, item) else entry

/-- Changes the table at the end of a path.  Tables that the path lacks are made, and of a list of
    tables the path takes the last one. -/
def alter (byDots : Bool) (f : Form → Entries → Option Entries) :
    List Text → Form → Entries → Option Entries
  | [], form, es => f form es
  | key :: path, _, es =>
    match es.lookup key with
    | none =>
      let form := if byDots then .dotted else .implied
      (alter byDots f path form []).map fun below => es ++ [(key, .table form below)]
    | some (.value _) => none
    | some (.table form below) =>
      if byDots && form = .header then none
      else (alter byDots f path form below).map fun below => es.replace key (.table form below)
    | some (.tables elements) =>
      match elements.getLast? with
      | none => none
      | some last =>
        (alter byDots f path .header last).map fun last =>
          es.replace key (.tables (elements.dropLast ++ [last]))

/-- Adds a value under a key of at least one part, the last of which is `key`. -/
def addValue (path : List Text) (key : Text) (v : Node) (form : Form) (es : Entries) :
    Option Entries :=
  alter true (fun form es =>
    if (form = .dotted) = path.isEmpty || (es.lookup key).isSome then none
    else some (es ++ [(key, .value v)])) path form es

def openTable (path : List Text) (key : Text) (es : Entries) : Option Entries :=
  alter false (fun _ es =>
    match es.lookup key with
    | none => some (es ++ [(key, .table .header [])])
    | some (.table .implied below) =>
      some ((es.filter fun entry => entry.1 != key) ++ [(key, .table .header below)])
    | some _ => none) path .header es

def openElement (path : List Text) (key : Text) (es : Entries) : Option Entries :=
  alter false (fun _ es =>
    match es.lookup key with
    | none => some (es ++ [(key, .tables [[]])])
    | some (.tables elements) => some (es.replace key (.tables (elements ++ [[]])))
    | some _ => none) path .header es

end Entries

end ScenarioLint.Toml
