import ScenarioLint.Command.Run
import ScenarioLint.CommandLine.Reading

/-!
The program as a whole: from its arguments to its exit code.
-/

namespace ScenarioLint.CommandLine

structure Ending where
  exitCode : UInt8
  stdout : Text
  deriving DecidableEq, Repr

def versionText : Text := "rulebook-lint 0.1.0\n".toList

def usageText : Text :=
  Text.unlines
    ["Compile rulebooks and check generated Gherkin scenarios against them".toList,
     [],
     "Usage: rulebook-lint [--log-format text|json] <command> [options]".toList,
     [],
     "Commands:".toList,
     "  compile  Compile the rulebooks and print the policy".toList,
     "  check    Check a batch of scenario records".toList,
     "  help     Print this message".toList,
     [],
     "Options of both commands:".toList,
     "  --steps <file>       Step rulebook, one template per line".toList,
     "  --assertions <file>  Assertion rulebook, one template per line".toList,
     "  --policy <file>      Policy settings file (.yaml, .toml or .json)".toList,
     "  --json               Output as JSON".toList,
     [],
     "Options of check:".toList,
     "  --batch <file>       JSON array of scenario records".toList,
     "  --sequential         Process scenarios one at a time".toList,
     "  --skip-grammar       Do not check the grammar".toList,
     "  --output <file>      Write the batch with canonical text to this file".toList]

def Ending.ofRefusal : Refusal → Ending
  | .help => ⟨0, usageText⟩
  | .version => ⟨0, versionText⟩
  | _ => ⟨2, []⟩

def Ending.ofResult : Except Failure Completion → Ending
  | .ok done => ⟨if done.clean then 0 else 1, done.stdout⟩
  | .error _ => ⟨2, []⟩

/-- Runs the program in a directory: the directory afterwards, and the ending.  The patterns of a
    policy are those of which `small` accepts the source. -/
def run (environment : Environment) (d : Directory) (args : List Text)
    (small : Text → Bool := Template.Pattern.isSmall) : Directory × Ending :=
  match read environment args with
  | .error refusal => (d, .ofRefusal refusal)
  | .ok command =>
    match command.runIn d small with
    | .ok (after, done) => (after, .ofResult (.ok done))
    | .error failure => (d, .ofResult (.error failure))

end ScenarioLint.CommandLine
