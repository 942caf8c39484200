import ScenarioLint.Command.Basic
import ScenarioLint.Command.Failure
import ScenarioLint.Pipeline
import ScenarioLint.Policy.Summary

/-!
Running a command.

A command reads its files, may write one file, and then prints its result.  It ends clean unless the
report on its batch holds an issue.
-/

namespace ScenarioLint

open Settings (Format)

/-- The settings in a file, or the standard ones if no file is named. -/
def Settings.load (read : Reader) : Option Text → Except Failure Settings
  | none => .ok .standard
  | some path => do
    let format ← (Format.ofPath path).mapError (.settingsFormat path)
    let text ← (read path).mapError (.settingsFile path)
    (Settings.parse format text).mapError (.settings path)

def rulebook? (read : Reader) (path : Text) : Option Text :=
  (read path).toOption

def PolicyFiles.load (read : Reader) (files : PolicyFiles)
    (small : Text → Bool := Template.Pattern.isSmall) : Except Failure Policy := do
  let settings ← Settings.load read files.settings
  return Policy.compile (rulebook? read files.steps) (rulebook? read files.assertions) settings small

def Record.load (read : Reader) (path : Text) : Except Failure (List Record) := do
  let text ← (read path).mapError (.batchFile path)
  match Record.ofText? text with
  | some records => .ok records
  | none => .error (.batch path)

/-- What a command that does not fail leaves behind. -/
structure Completion where
  /-- The path and the text of the file that is written before anything is printed. -/
  file : Option (Text × Text)
  stdout : Text
  clean : Bool
  deriving DecidableEq, Repr

def CheckRequest.options (request : CheckRequest) : PipelineOptions :=
  { PipelineOptions.standard with
    parallel := !request.sequential
    grammar := !request.skipGrammar }

namespace Command

def printed (v : Json.Value) : Text :=
  v.pretty ++ ['\n']

def compiled (json : Bool) (policy : Policy) : Completion :=
  ⟨none, if json then printed policy.summary else policy.text, true⟩

def checked (json : Bool) (request : CheckRequest) (policy : Policy) (records : List Record) :
    Completion :=
  let (records, report) := (Pipeline.assemble policy [] (some request.options)).run records
  ⟨request.output.map fun path => (path, (Record.listValue records).pretty),
    if json then printed report.value else report.text, report.isClean⟩

/-- Runs a command up to the point where it writes. -/
def run (read : Reader) (c : Command) (small : Text → Bool := Template.Pattern.isSmall) :
    Except Failure Completion := do
  let policy ← c.files.load read small
  match c.action with
  | .compile => return compiled c.json policy
  | .check request => return checked c.json request policy (← Record.load read request.batch)

/-- Runs a command in a directory: the directory afterwards, and what is printed. -/
def runIn (d : Directory) (c : Command) (small : Text → Bool := Template.Pattern.isSmall) :
    Except Failure (Directory × Completion) := do
  let done ← c.run d.read small
  match done.file with
  | none => return (d, done)
  | some (path, content) => return (← (d.write path content).mapError (.output path), done)

end Command

end ScenarioLint
