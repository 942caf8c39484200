import ScenarioLint.CommandLine.Program

/-!
The program: reads the files that its command names, writes the file that is left, and prints.
-/

open ScenarioLint

def fileErrorOf : IO.Error → FileError
  | .noFileOrDirectory _ _ _ => .notFound
  | .inappropriateType _ code _ =>
    if code = 21 || code = -21 then .isDirectory else .notDirectory
  | e => .refused e.toString.toList

def readFile (path : Text) : IO (Except FileError Text) := do
  match ← (IO.FS.readBinFile (String.ofList path)).toBaseIO with
  | .error e => return .error (fileErrorOf e)
  | .ok bytes =>
    match Text.ofBytes? bytes.toList with
    | some t => return .ok t
    | none => return .error .notText

def readFiles (paths : List Text) : IO Reader := do
  let contents ← paths.mapM fun path => do return (path, ← readFile path)
  return fun path => (contents.lookup path).getD (.error .notFound)

def writeResult (done : Completion) : IO (Except Failure Completion) := do
  match done.file with
  | none => return .ok done
  | some (path, content) =>
    match ← (IO.FS.writeFile (String.ofList path) (String.ofList content)).toBaseIO with
    | .ok _ => return .ok done
    | .error e => return .error (.output path (fileErrorOf e))

def runCommand (command : Command) : IO (Except Failure Completion) := do
  match command.run (← readFiles command.inputs) with
  | .error e => return .error e
  | .ok done => writeResult done

def failureLine (e : Failure) : String :=
  String.ofList ("error: ".toList ++ Text.join ": ".toList (e.message :: e.cause.message?.toList))

def variableText (name : String) : IO (Option Text) := do
  return (← IO.getEnv name).map String.toList

/-- Prints how the program ends, and gives its exit code. -/
def finish (ending : CommandLine.Ending) : IO UInt32 := do
  IO.print (String.ofList ending.stdout)
  return ending.exitCode.toUInt32

def main (args : List String) : IO UInt32 := do
  let environment : CommandLine.Environment :=
    ⟨← variableText "CUSTOM_KEYWORDS_FILE", ← variableText "CUSTOM_ASSERTIONS_FILE"⟩
  match CommandLine.read environment (args.map String.toList) with
  | .error refusal =>
    let ending := CommandLine.Ending.ofRefusal refusal
    if ending.exitCode != 0 then IO.eprint (String.ofList CommandLine.usageText)
    finish ending
  | .ok command =>
    let result ← runCommand command
    if let .error e := result then IO.eprintln (failureLine e)
    finish (.ofResult result)
