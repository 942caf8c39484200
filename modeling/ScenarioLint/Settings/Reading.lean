import ScenarioLint.Toml.Document
import ScenarioLint.Yaml.Document

/-!
Reading settings from the text of a file.

A TOML text is read as a whole before it is decoded.  A JSON or YAML text is decoded while it is
read, so of a fault in the text and a fault in the settings the one that comes first counts.
-/

namespace ScenarioLint.Settings

structure InvalidSettings where
  format : Format
  /-- The key that should name a scenario kind, if that is the reason. -/
  unknownKind : Option UnknownKind
  deriving DecidableEq, Repr

namespace InvalidSettings

def message (e : InvalidSettings) : Text :=
  "invalid ".toList ++ e.format.name ++ " policy settings".toList

def ofFault (format : Format) : Fault → InvalidSettings
  | .unknownKind e => ⟨format, some e⟩
  | .malformed => ⟨format, none⟩

end InvalidSettings

/-- The settings tree of a text, and whether nothing else follows it. -/
def readTree (format : Format) (text : Text) : Node × Bool :=
  match format with
  | .json =>
    let document := Json.Document.read text
    (.ofJson document.root, document.ended)
  | .yaml => Yaml.read text
  | .toml =>
    match Toml.read? text with
    | some node => (node, true)
    | none => (.broken, true)

def parse (format : Format) (text : Text) : Except InvalidSettings Settings :=
  let (node, ended) := readTree format text
  match decode format node with
  | .ok settings => if ended then .ok settings.normalized else .error ⟨format, none⟩
  | .error fault => .error (.ofFault format fault)

def matrixValue (matrix : StatusMatrix) : Json.Value :=
  .object (matrix.rows.map fun (method, row) =>
    (method, .object (row.toList.map fun (kind, codes) =>
      (kind.name, .array (codes.map fun code => .count code.toNat)))))

def targetsValue (targets : ChecklistTargets) : Json.Value :=
  .object (targets.entries.map fun (kind, minimum) => (kind.name, .count minimum.toNat))

def value (s : Settings) : Json.Value :=
  .object
    [("allowed_keywords".toList, .array (s.keywords.map fun keyword => .string keyword.word)),
     ("status_matrix".toList, matrixValue s.matrix),
     ("checklist_targets".toList, targetsValue s.targets)]

end ScenarioLint.Settings
