import ScenarioLint.Toml.Scalar
import ScenarioLint.Toml.Table

/-!
Reading a whole TOML document into a settings tree.
-/

namespace ScenarioLint.Toml

open Settings (Node)

/-- Drops white space, comments and line endings between the parts of a list. -/
def skipLines : Nat → Text → Text
  | 0, t => t
  | fuel + 1, t =>
    let rest := skipComment (skipIndent t)
    match newline? rest with
    | some rest => skipLines fuel rest
    | none => rest

mutual

/-- Reads a value that lies within `depth` lists and tables. -/
def value? : Nat → Nat → Text → Option (Node × Text)
  | 0, _, _ => none
  | fuel + 1, depth, t =>
    match t with
    | '[' :: rest => if depth < maxDepth then items? fuel (depth + 1) rest [] else none
    | '\x7b' :: rest =>
      if depth < maxDepth then
        match skipIndent rest with
        | '\x7d' :: rest => some (.table [] true, rest)
        | rest => members? fuel (depth + 1) rest []
      else none
    | t => scalarValue? t

/-- Reads the items of a list, of which `done` have been read, in reverse order, and its closing
    bracket. -/
def items? : Nat → Nat → Text → List Node → Option (Node × Text)
  | 0, _, _, _ => none
  | fuel + 1, depth, t, done =>
    match skipLines t.length t with
    | ']' :: rest => some (.list done.reverse true, rest)
    | t =>
      match value? fuel depth t with
      | none => none
      | some (item, rest) =>
        match skipLines rest.length rest with
        | ',' :: rest => items? fuel depth rest (item :: done)
        | ']' :: rest => some (.list (item :: done).reverse true, rest)
        | _ => none

def members? : Nat → Nat → Text → Entries → Option (Node × Text)
  | 0, _, _, _ => none
  | fuel + 1, depth, t, done =>
    match key? maxDepth t with
    | none => none
    | some (parts, rest) =>
      match parts.getLast?, rest with
      | some key, '=' :: rest =>
        match value? fuel depth (skipIndent rest) with
        | none => none
        | some (v, rest) =>
          match done.addValue parts.dropLast key v .header, skipIndent rest with
          | some done, ',' :: rest => members? fuel depth rest done
          | some done, '\x7d' :: rest => some ((Item.table .header done).node, rest)
          | _, _ => none
      | _, _ => none

end

/-- A document while it is being read: its entries, and the path of the table whose header came
    last. -/
structure Draft where
  root : Entries
  current : List Text

namespace Draft

def header? (d : Draft) (element : Bool) (t : Text) : Option (Draft × Text) := do
  let (parts, rest) ← key? maxDepth t
  let key ← parts.getLast?
  let rest ← expect? ']' rest
  let rest ← if element then expect? ']' rest else some rest
  let root ←
    if element then d.root.openElement parts.dropLast key
    else d.root.openTable parts.dropLast key
  some (⟨root, parts⟩, rest)

def entry? (d : Draft) (t : Text) : Option (Draft × Text) := do
  let (parts, rest) ← key? maxDepth t
  let key ← parts.getLast?
  let rest ← expect? '=' rest
  let (v, rest) ← value? (2 * t.length + 2) 0 (skipIndent rest)
  let root ← Entries.alter false (fun form es => es.addValue parts.dropLast key v form) d.current
    .header d.root
  some ({ d with root := root }, rest)

def lines? : Nat → Draft → Text → Option Draft
  | 0, _, _ => none
  | fuel + 1, d, t => do
    let t := skipIndent t
    let (d, rest) ←
      match t with
      | '[' :: '[' :: rest => d.header? true rest
      | '[' :: rest => d.header? false rest
      | [] => some (d, [])
      | c :: _ => if c = '#' || c = '\n' || c = '\r' then some (d, t) else d.entry? t
    let rest ← endLine? rest
    if rest.isEmpty then some d else lines? fuel d rest

end Draft

/-- The settings tree of a document, or none if the text is no TOML. -/
def read? (t : Text) : Option Node :=
  let t := (Text.after? ['\ufeff'] t).getD t
  (Draft.lines? (t.length + 1) ⟨[], []⟩ t).map fun d => (Item.table .header d.root).node

end ScenarioLint.Toml
