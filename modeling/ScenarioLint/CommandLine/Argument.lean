import ScenarioLint.Text

/-!
The arguments of the program: its commands, their options, and the forms in which they are written.
-/

namespace ScenarioLint.CommandLine

inductive Verb where
  | compile
  | check
  deriving DecidableEq, Repr

namespace Verb

def name : Verb → Text
  | compile => "compile".toList
  | check => "check".toList

def named? (t : Text) : Option Verb :=
  [compile, check].find? (·.name = t)

end Verb

/-- The word that asks for help in the place of a command. -/
def helpWord : Text := "help".toList

inductive Opt where
  | logFormat
  | steps
  | assertions
  | policy
  | batch
  | output
  | json
  | sequential
  | skipGrammar
  | help
  | version
  deriving DecidableEq, Repr

namespace Opt

/-- The name of an option, as it is written behind two dashes. -/
def word : Opt → Text
  | logFormat => "log-format".toList
  | steps => "steps".toList
  | assertions => "assertions".toList
  | policy => "policy".toList
  | batch => "batch".toList
  | output => "output".toList
  | json => "json".toList
  | sequential => "sequential".toList
  | skipGrammar => "skip-grammar".toList
  | help => "help".toList
  | version => "version".toList

/-- The letter of an option, as it is written behind one dash. -/
def letter? : Opt → Option Char
  | help => some 'h'
  | version => some 'V'
  | _ => none

def takesValue : Opt → Bool
  | logFormat | steps | assertions | policy | batch | output => true
  | json | sequential | skipGrammar | help | version => false

/-- The values of an option: names of log formats, or paths, which are not empty. -/
def accepts : Opt → Text → Bool
  | logFormat, value => value = "text".toList || value = "json".toList
  | _, value => !value.isEmpty

end Opt

inductive Scope where
  /-- In front of the command. -/
  | program
  /-- Behind a command. -/
  | command (verb : Verb)
  deriving DecidableEq, Repr

namespace Scope

def shared : List Opt :=
  [.logFormat, .steps, .assertions, .policy, .json, .help]

def options : Scope → List Opt
  | program => [.logFormat, .help, .version]
  | command .compile => shared
  | command .check => shared ++ [.batch, .sequential, .skipGrammar, .output]

def named? (scope : Scope) (name : Text) : Option Opt :=
  scope.options.find? (·.word = name)

def lettered? (scope : Scope) (letter : Char) : Option Opt :=
  scope.options.find? (·.letter? = some letter)

end Scope

inductive Argument where
  /-- Two dashes alone, behind which no argument is an option. -/
  | separator
  /-- An option by its name, and what is written behind an equals sign. -/
  | long (name : Text) (value : Option Text)
  | short (letter : Char)
  | plain (t : Text)
  deriving DecidableEq, Repr

def Argument.ofText : Text → Argument
  | ['-', '-'] => separator
  | '-' :: '-' :: t =>
    match Text.splitOnce ['='] t with
    | some (name, value) => long name (some value)
    | none => long t none
  | '-' :: letter :: _ => short letter
  | t => plain t

end ScenarioLint.CommandLine
