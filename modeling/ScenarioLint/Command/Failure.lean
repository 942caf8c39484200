import ScenarioLint.Directory
import ScenarioLint.Settings.Reading

/-!
Why a command fails.  A rulebook that cannot be read is no failure.
-/

namespace ScenarioLint

open Settings (UnsupportedFormat InvalidSettings)

/-- The failure of a command, with the path of the file that causes it. -/
inductive Failure where
  /-- The name of the settings file tells no format. -/
  | settingsFormat (path : Text) (e : UnsupportedFormat)
  | settingsFile (path : Text) (e : FileError)
  | settings (path : Text) (e : InvalidSettings)
  | batchFile (path : Text) (e : FileError)
  /-- The file of the batch holds no batch. -/
  | batch (path : Text)
  | output (path : Text) (e : FileError)
  deriving DecidableEq, Repr

namespace Failure

inductive Cause where
  | format (e : UnsupportedFormat)
  | settings (e : InvalidSettings)
  | file (e : FileError)
  /-- A text is no JSON, or not of the right form. -/
  | json
  deriving DecidableEq, Repr

def message : Failure → Text
  | settingsFormat path _ => "cannot pick a settings format for ".toList ++ path
  | settingsFile path _ => "failed to read settings ".toList ++ path
  | settings path _ => "invalid settings in ".toList ++ path
  | batchFile path _ => "failed to read batch ".toList ++ path
  | batch path => path ++ " is not a JSON array of scenario records".toList
  | output path _ => "failed to write ".toList ++ path

def cause : Failure → Cause
  | settingsFormat _ e => .format e
  | settingsFile _ e => .file e
  | settings _ e => .settings e
  | batchFile _ e => .file e
  | batch _ => .json
  | output _ e => .file e

/-- The wording of a cause, if it has one of its own. -/
def Cause.message? : Cause → Option Text
  | format e => some e.message
  | settings e => some e.message
  | file e => some e.message
  | json => none

end Failure

end ScenarioLint
