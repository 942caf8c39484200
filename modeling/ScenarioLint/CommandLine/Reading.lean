import ScenarioLint.Command.Basic
import ScenarioLint.CommandLine.Argument

/-!
Reading the arguments of the program.

Options in front of the command and behind it are collected apart, and those behind it are settled
first.  The value of an option is looked at only when the next option is read, or at the end, so
that an unknown option counts before a bad value in front of it.
-/

namespace ScenarioLint.CommandLine

/-- Why arguments make no command to run. -/
inductive Refusal where
  | help
  | version
  /-- There are no arguments at all. -/
  | nothing
  | noCommand
  | unknownCommand
  | unknownArgument
  /-- An option lacks its value, or does not take the value that it is given. -/
  | invalidValue
  | needlessValue
  | repeated
  | missingOption
  deriving DecidableEq, Repr

/-- The options that have been read at one place. -/
structure Collected where
  given : List (Opt × Text)
  /-- The option read last if it takes a value, and the value once it has been read. -/
  pending : Option (Opt × Option Text)
  deriving DecidableEq, Repr

namespace Collected

def empty : Collected :=
  ⟨[], none⟩

def value? (s : Collected) (opt : Opt) : Option Text :=
  s.given.lookup opt

def has (s : Collected) (opt : Opt) : Bool :=
  (s.value? opt).isSome

def add (s : Collected) (opt : Opt) (value : Text) : Except Refusal Collected :=
  if s.has opt then .error .repeated
  else if opt.takesValue && !opt.accepts value then .error .invalidValue
  else .ok ⟨s.given ++ [(opt, value)], none⟩

/-- Adds the option read last. -/
def settle (s : Collected) : Except Refusal Collected :=
  match s.pending with
  | none => .ok s
  | some (_, none) => .error .invalidValue
  | some (opt, some value) => s.add opt value

/-- The option that the next argument is the value of. -/
def awaiting? (s : Collected) : Option Opt :=
  match s.pending with
  | some (opt, none) => some opt
  | _ => none

def addFlag (s : Collected) (opt : Opt) : Except Refusal Collected := do
  let s ← s.settle
  match opt with
  | .help => .error .help
  | .version => .error .version
  | opt => s.add opt []

def addLong (s : Collected) (opt : Opt) (value : Option Text) : Except Refusal Collected :=
  if opt.takesValue then do
    let s ← s.settle
    match value with
    | some value => s.add opt value
    | none => .ok { s with pending := some (opt, none) }
  else if value.isSome then .error .needlessValue
  else s.addFlag opt

end Collected

/-- What follows the word for help: at most the name of one command. -/
def helpOn : List Text → Refusal
  | [] => .help
  | [name] => if (Verb.named? name).isSome || name = helpWord then .help else .unknownCommand
  | _ => .unknownCommand

def stray (scope : Scope) (separated : Bool) (t : Text) : Refusal :=
  match scope with
  | .program =>
    if separated && ((Verb.named? t).isSome || t = helpWord) then .unknownArgument
    else .unknownCommand
  | .command _ => .unknownArgument

structure Scanned where
  options : Collected
  command : Option (Verb × List Text)
  deriving DecidableEq, Repr

/-- Reads arguments up to a command, after the options that have been read at the place and, if
    `separated`, the separator. -/
def scan (scope : Scope) (separated : Bool) (s : Collected) :
    List Text → Except Refusal Scanned
  | [] => .ok ⟨s, none⟩
  | arg :: rest =>
    if separated then .error (stray scope separated arg)
    else
      match Argument.ofText arg with
      | .separator => scan scope true s rest
      | .long name value =>
        match scope.named? name with
        | none => .error .unknownArgument
        | some opt => do scan scope false (← s.addLong opt value) rest
      | .short letter =>
        match scope.lettered? letter with
        | none => .error .unknownArgument
        | some opt => do scan scope false (← s.addFlag opt) rest
      | .plain t =>
        match s.awaiting? with
        | some opt => scan scope false { s with pending := some (opt, some t) } rest
        | none =>
          match scope with
          | .command _ => .error (stray scope separated t)
          | .program =>
            if t = helpWord then .error (helpOn rest)
            else
              match Verb.named? t with
              | some verb => .ok ⟨s, some (verb, rest)⟩
              | none => .error (stray scope separated t)

/-- Variables of the environment that name rulebooks. -/
structure Environment where
  /-- The value of `CUSTOM_KEYWORDS_FILE`. -/
  steps : Option Text
  /-- The value of `CUSTOM_ASSERTIONS_FILE`. -/
  assertions : Option Text
  deriving DecidableEq, Repr

/-- The path of a rulebook: the one that is given, or that of the environment, or the usual one. -/
def rulebookPath (s : Collected) (opt : Opt) (inherited : Option Text) (usual : Text) :
    Except Refusal Text :=
  match s.value? opt, inherited with
  | some path, _ => .ok path
  | none, some path => if opt.accepts path then .ok path else .error .invalidValue
  | none, none => .ok usual

def policyFiles (environment : Environment) (s : Collected) : Except Refusal PolicyFiles := do
  let steps ← rulebookPath s .steps environment.steps PolicyFiles.defaultSteps
  let assertions ← rulebookPath s .assertions environment.assertions PolicyFiles.defaultAssertions
  return ⟨steps, assertions, s.value? .policy⟩

def command (environment : Environment) (s : Collected) (verb : Verb) :
    Except Refusal Command := do
  let files ← policyFiles environment s
  match verb with
  | .compile => return ⟨files, s.has .json, .compile⟩
  | .check =>
    match s.value? .batch with
    | none => .error .missingOption
    | some batch =>
      return ⟨files, s.has .json,
        .check ⟨batch, s.has .sequential, s.has .skipGrammar, s.value? .output⟩⟩

def readCommand (environment : Environment) (verb : Verb) (args : List Text) :
    Except Refusal Command := do
  let scanned ← scan (.command verb) false .empty args
  let options ← scanned.options.settle
  command environment options verb

def read (environment : Environment) (args : List Text) : Except Refusal Command := do
  let scanned ← scan .program false .empty args
  match scanned.command with
  | some (verb, rest) =>
    let command ← readCommand environment verb rest
    let _ ← scanned.options.settle
    return command
  | none =>
    let options ← scanned.options.settle
    .error (if options.given.isEmpty then .nothing else .noCommand)

end ScenarioLint.CommandLine
