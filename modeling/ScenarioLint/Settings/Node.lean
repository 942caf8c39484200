import ScenarioLint.Json.Source
import ScenarioLint.Settings.Basic
import ScenarioLint.Settings.Format

/-!
What a settings file holds, whatever its format, and the settings that it stands for.

A tree is decoded from front to back, and the first fault counts.  A tree may end in a break, where
the text of the file could not be read any further.
-/

namespace ScenarioLint.Settings

/-- A value in a settings file. -/
inductive Node where
  /-- A key without a value, which stands for an empty list or an empty table. -/
  | absent
  | null
  | text (t : Text)
  | integer (n : Int)
  /-- A value that no setting takes: a truth value, a number with a fraction, a date. -/
  | other
  /-- The items of a list, and whether the list is complete. -/
  | list (items : List Node) (closed : Bool)
  /-- The entries of a table in the order of the text, and whether the table is complete.  A key may
      denote no text. -/
  | table (entries : List (Option Text × Node)) (closed : Bool)
  /-- A value with a tag, which only a keyword heeds. -/
  | tagged (name : Text) (v : Node)
  /-- The text could not be read from here on. -/
  | broken

/-- A value without its tag. -/
def Node.untagged : Node → Node
  | tagged _ v => v
  | v => v

mutual

def Node.ofJson : Json.Source → Node
  | .null => null
  | .bool _ => other
  | .number n =>
    match n.integer? with
    | some k => integer k
    | none => other
  | .string t => text t
  | .unpaired => broken
  | .array items closed => list (Node.ofJsonItems items) closed
  | .object members closed => table (Node.ofJsonMembers members) closed
  | .broken => broken

def Node.ofJsonItems : List Json.Source → List Node
  | [] => []
  | v :: rest => Node.ofJson v :: Node.ofJsonItems rest

def Node.ofJsonMembers : List (Option Text × Json.Source) → List (Option Text × Node)
  | [] => []
  | (key, v) :: rest => (key, Node.ofJson v) :: Node.ofJsonMembers rest

end

/-- Why a tree stands for no settings. -/
inductive Fault where
  | unknownKind (e : UnknownKind)
  /-- Anything else: a value of the wrong type, an unknown or repeated setting, broken text. -/
  | malformed
  deriving DecidableEq, Repr

def decodeList {α : Type} (f : Node → Except Fault α) (node : Node) : Except Fault (List α) :=
  match node.untagged with
  | .absent => .ok []
  | .list items closed => do
    let values ← items.mapM f
    if closed then .ok values else .error .malformed
  | _ => .error .malformed

/-- Goes through the entries of a table, changing a value with each. -/
def decodeTable {α : Type} (f : α → Text → Node → Except Fault α) (start : α) (node : Node) :
    Except Fault α :=
  match node.untagged with
  | .absent => .ok start
  | .table entries closed => do
    let value ← entries.foldlM (fun value entry =>
      match entry with
      | (some key, node) => f value key node
      | (none, _) => .error .malformed) start
    if closed then .ok value else .error .malformed
  | _ => .error .malformed

def decodeCode (node : Node) : Except Fault StatusCode :=
  match node.untagged with
  | .integer n => if 0 ≤ n && n < UInt16.size then .ok (UInt16.ofNat n.toNat) else .error .malformed
  | _ => .error .malformed

def decodeMinimum (node : Node) : Except Fault UInt64 :=
  match node.untagged with
  | .integer n => if 0 ≤ n && n < UInt64.size then .ok (UInt64.ofNat n.toNat) else .error .malformed
  | _ => .error .malformed

def decodeKind (key : Text) : Except Fault ScenarioKind :=
  match ScenarioKind.parse key with
  | .ok kind => .ok kind
  | .error e => .error (.unknownKind e)

def decodeByKind {α : Type} (f : Node → Except Fault α) : Node → Except Fault (ByKind α) :=
  decodeTable (fun done key node => do
    let kind ← decodeKind key
    let value ← f node
    .ok (done.put kind value)) .empty

/-- Decodes a status matrix, keeping the keys of its rows as they are written. -/
def decodeMatrix (node : Node) : Except Fault StatusMatrix := do
  let rows ← decodeTable (fun rows key node => do
    let row ← decodeByKind (decodeList decodeCode) node
    .ok (StatusMatrix.changeRow key (fun _ => row) rows)) [] node
  .ok ⟨rows⟩

def decodeTargets (node : Node) : Except Fault ChecklistTargets := do
  let minimums ← decodeByKind decodeMinimum node
  .ok ⟨minimums⟩

/-- The value that a keyword may carry when it is written as a tag or as the only key of a
    table. -/
def isUnit : Format → Node → Bool
  | .yaml, .absent => true
  | .yaml, .null => true
  | .json, .null => true
  | .toml, .list [] true => true
  | .toml, .table [] true => true
  | _, _ => false

/-- Decodes a keyword, which is its exact spelling, alone, as a tag, or outside YAML as the only key
    of a table. -/
def decodeKeyword (format : Format) : Node → Except Fault Keyword
  | .text t =>
    match Keyword.spelled? t with
    | some keyword => .ok keyword
    | none => .error .malformed
  | .tagged name node =>
    match Keyword.spelled? name with
    | some keyword => if isUnit format node then .ok keyword else .error .malformed
    | none => .error .malformed
  | .table [(some key, node)] true =>
    match Keyword.spelled? key with
    | some keyword =>
      if format != .yaml && isUnit format node then .ok keyword else .error .malformed
    | none => .error .malformed
  | _ => .error .malformed

/-- The settings that have been read, each of which may be read once. -/
structure Draft where
  keywords : Option (List Keyword) := none
  matrix : Option StatusMatrix := none
  targets : Option ChecklistTargets := none

namespace Draft

def names : List Text :=
  ["allowed_keywords".toList, "status_matrix".toList, "checklist_targets".toList]

def complete (p : Draft) : Settings :=
  { keywords := p.keywords.getD Settings.standard.keywords
    matrix := p.matrix.getD Settings.standard.matrix
    targets := p.targets.getD Settings.standard.targets }

def read (format : Format) (p : Draft) (key : Text) (node : Node) : Except Fault Draft :=
  if key = "allowed_keywords".toList && p.keywords.isNone then do
    let keywords ← decodeList (decodeKeyword format) node
    .ok { p with keywords := some keywords }
  else if key = "status_matrix".toList && p.matrix.isNone then do
    let matrix ← decodeMatrix node
    .ok { p with matrix := some matrix }
  else if key = "checklist_targets".toList && p.targets.isNone then do
    let targets ← decodeTargets node
    .ok { p with targets := some targets }
  else .error .malformed

end Draft

/-- Decodes the settings of a file.  In JSON they may also be a list in the order of the
    settings. -/
def decode (format : Format) (node : Node) : Except Fault Settings :=
  match format, node with
  | .json, .list items closed => do
    let draft ← (Draft.names.zip items).foldlM
      (fun (draft : Draft) (key, node) => draft.read format key node) {}
    if closed && items.length ≤ Draft.names.length then .ok draft.complete else .error .malformed
  | _, node => do
    let draft ← decodeTable (Draft.read format) {} node
    .ok draft.complete

end ScenarioLint.Settings
