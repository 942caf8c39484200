import ScenarioLint.Path

/-!
The formats of settings files and how a file's name tells its format.
-/

namespace ScenarioLint.Settings

inductive Format where
  | yaml
  | toml
  | json
  deriving DecidableEq, Repr

/-- A file extension that belongs to no format. -/
structure UnsupportedFormat where
  extension : Text
  deriving DecidableEq, Repr

namespace UnsupportedFormat

def message (e : UnsupportedFormat) : Text :=
  "unsupported settings format: '".toList ++ e.extension ++
    "' (expected yaml, yml, toml or json)".toList

end UnsupportedFormat

namespace Format

def name : Format → Text
  | yaml => "yaml".toList
  | toml => "toml".toList
  | json => "json".toList

def named? (name : Text) : Option Format :=
  [yaml, toml, json].find? (·.name = name)

/-- The format of a file, which its extension tells in any case. -/
def ofPath (path : Text) : Except UnsupportedFormat Format :=
  let extension := ((Path.extension? path).getD []).toLower
  if extension = "yaml".toList || extension = "yml".toList then .ok yaml
  else if extension = "toml".toList then .ok toml
  else if extension = "json".toList then .ok json
  else .error ⟨extension⟩

end Format

end ScenarioLint.Settings
