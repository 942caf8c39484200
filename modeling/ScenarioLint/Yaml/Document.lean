import ScenarioLint.Yaml.Event

/-!
Reading a YAML document into a settings tree.

Every reference is replaced by the value that it refers to.  Where the events end too early, the
tree holds a break.  A plain scalar is text unless it is a whole number or nothing at all: no
setting takes a truth value or a number with a fraction, so these need not be told from text.
-/

namespace ScenarioLint.Yaml

open Settings (Node)

/-- A tag of which the name begins with an exclamation mark, without that mark. -/
def ownTag? : Name → Option Text
  | [] => none
  | first :: rest =>
    if first = 0x21 then Text.ofBytes? (if rest.isEmpty then [first] else rest) else none

/-- What a scalar stands for.  Only a plain scalar is a number, or one behind a bar if its tag
    says so. -/
def scalarNode (t : Text) (style : Style) (tag : Option Name) : Node :=
  let v : Node :=
    match style with
    | .plain => plainNode t
    | .literal =>
      if tag = some (nameOf "tag:yaml.org,2002:int".toList) then
        match unsigned? t with
        | some n => .integer n
        | none => .text t
      else .text t
    | .other => .text t
  match tag.bind ownTag? with
  | some name => .tagged name v
  | none => v

/-- An event of a document whose references are known. -/
inductive Item where
  | scalar (t : Text) (v : Node)
  /-- The value that starts at the item that the number stands for. -/
  | jump (id : Nat)
  | listStart
  | listEnd
  | tableStart
  | tableEnd

/-- The items of a document so far, the latest first, with the number of each anchor and the place
    at which the value with a number starts.  The latest entries count. -/
structure Loaded where
  items : List Item
  size : Nat
  anchors : List (Text × Nat)
  starts : List (Nat × Nat)

namespace Loaded

def empty : Loaded :=
  ⟨[], 0, [], []⟩

def push (l : Loaded) (item : Item) : Loaded :=
  { l with items := item :: l.items, size := l.size + 1 }

/-- Adds the start of a value.  The number of its anchor is that of the names of anchors so far, so
    that a name that is used again takes a number that the next new name takes as well. -/
def start (l : Loaded) (anchor : Option Text) (item : Item) : Loaded :=
  match anchor with
  | none => l.push item
  | some name =>
    let id := l.anchors.length
    { l.push item with
      anchors := (name, id) :: l.anchors.filter (·.1 != name)
      starts := (id, l.size) :: l.starts }

/-- Adds events up to a reference to an unknown anchor, and says whether there is none. -/
def events (l : Loaded) : List Event → Loaded × Bool
  | [] => (l, true)
  | .scalar t style p :: rest =>
    (l.start p.anchor (.scalar t (scalarNode t style p.tag))).events rest
  | .reference name :: rest =>
    match l.anchors.lookup name with
    | some id => (l.push (.jump id)).events rest
    | none => (l, false)
  | .listStart anchor :: rest => (l.start anchor .listStart).events rest
  | .listEnd :: rest => (l.push .listEnd).events rest
  | .tableStart anchor :: rest => (l.start anchor .tableStart).events rest
  | .tableEnd :: rest => (l.push .tableEnd).events rest

end Loaded

/-- The items of a document in order, and the places at which its anchored values start. -/
structure Script where
  items : List Item
  starts : List (Nat × Nat)

namespace Script

/-- The items from the start of an anchored value on. -/
def from? (s : Script) (id : Nat) : Option (List Item) :=
  (s.starts.lookup id).map fun start => s.items.drop start

/-- How many references may be followed within one another.  The settings lie no deeper. -/
def maxLinks : Nat := 5

/-- How many references may be followed in all. -/
def maxJumps (s : Script) : Nat :=
  100 * s.items.length

/-- A part of the tree, how many more references may be followed, and the items that are left, of
    which there are none behind a break. -/
structure Composed (α : Type) where
  value : α
  jumps : Nat
  rest : Option (List Item)

/-- Reads a key.  Only a scalar is one. -/
def key (s : Script) (jumps : Nat) : List Item → Composed (Option Text)
  | .scalar t _ :: rest => ⟨some t, jumps, some rest⟩
  | .jump id :: rest =>
    match jumps, s.from? id with
    | jumps + 1, some (.scalar t _ :: _) => ⟨some t, jumps, some rest⟩
    | _, _ => ⟨none, 0, none⟩
  | _ => ⟨none, jumps, none⟩

variable (s : Script)

mutual

def value (links : Nat) : Nat → Nat → List Item → Composed Node
  | 0, jumps, _ => ⟨.broken, jumps, none⟩
  | fuel + 1, jumps, items =>
    match items with
    | .scalar _ v :: rest => ⟨v, jumps, some rest⟩
    | .listStart :: rest => list links fuel jumps rest []
    | .tableStart :: rest => table links fuel jumps rest []
    | .jump id :: rest =>
      match links, jumps, s.from? id with
      | 0, jumps, _ => ⟨.other, jumps, some rest⟩
      | links + 1, jumps + 1, some target =>
        let v := value links fuel jumps target
        { v with rest := v.rest.map fun _ => rest }
      | _, jumps, _ => ⟨.broken, jumps, none⟩
    | _ => ⟨.broken, jumps, none⟩
termination_by structural fuel => fuel

/-- Reads the items of a list after those in `done`, which are in reverse order. -/
def list (links : Nat) : Nat → Nat → List Item → List Node → Composed Node
  | 0, jumps, _, done => ⟨.list done.reverse false, jumps, none⟩
  | fuel + 1, jumps, items, done =>
    match items with
    | .listEnd :: rest => ⟨.list done.reverse true, jumps, some rest⟩
    | items =>
      match value links fuel jumps items with
      | ⟨v, jumps, some rest⟩ => list links fuel jumps rest (v :: done)
      | ⟨v, jumps, none⟩ => ⟨.list (v :: done).reverse false, jumps, none⟩
termination_by structural fuel => fuel

def table (links : Nat) : Nat → Nat → List Item → List (Option Text × Node) → Composed Node
  | 0, jumps, _, done => ⟨.table done.reverse false, jumps, none⟩
  | fuel + 1, jumps, items, done =>
    match items with
    | .tableEnd :: rest => ⟨.table done.reverse true, jumps, some rest⟩
    | items =>
      match s.key jumps items with
      | ⟨key, jumps, none⟩ => ⟨.table ((key, .broken) :: done).reverse false, jumps, none⟩
      | ⟨key, jumps, some rest⟩ =>
        match value links fuel jumps rest with
        | ⟨v, jumps, some rest⟩ => table links fuel jumps rest ((key, v) :: done)
        | ⟨v, jumps, none⟩ => ⟨.table ((key, v) :: done).reverse false, jumps, none⟩
termination_by structural fuel => fuel

end

/-- The tree of a document. -/
def tree : Node :=
  let fuel := (maxLinks + 1) * (2 * s.items.length + 2)
  (s.value maxLinks fuel s.maxJumps s.items).value

end Script

/-- Reads a document: its settings tree, and whether nothing follows it. -/
def read (t : Text) : Node × Bool :=
  let (events, ended) := events (tokens t)
  if ended && events.isEmpty then (.absent, true)
  else
    let (loaded, whole) := Loaded.empty.events events
    (Script.tree ⟨loaded.items.reverse, loaded.starts⟩, ended && whole)

end ScenarioLint.Yaml
