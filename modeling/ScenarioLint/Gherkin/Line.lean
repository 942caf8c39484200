import ScenarioLint.Gherkin.Document

/-!
The lines of a feature file, and what a single line can be.

A line with a carriage return anywhere but at its end cannot be read, and nothing matches it.
Spaces and tabs indent a line.
-/

namespace ScenarioLint.Gherkin

/-- A line without its ending, unless it cannot be read. -/
abbrev Line := Option Text

namespace Line

/-- Reads the text between two line feeds. -/
def ofRaw (raw : Text) : Line :=
  let body := raw.dropReturn
  if body.contains '\r' then none else some body

/-- The lines of a text.  A last line needs no line feed. -/
def all (text : Text) : List Line :=
  let parts := text.pieces '\n'
  (if parts.getLast? = some [] then parts.dropLast else parts).map ofRaw

def indent (t : Text) : Text :=
  t.takeWhile isIndent

def body (t : Text) : Text :=
  t.dropWhile isIndent

/-- The line is indentation only, or a comment. -/
def isIgnorable : Line → Bool
  | none => false
  | some t =>
    match body t with
    | [] => true
    | c :: _ => c == '#'

def tags? : Line → Option (List Text)
  | none => none
  | some t => if (body t).head? = some '@' then some (body t).words else none

def header? (keyword : Text) : Line → Option Text
  | none => none
  | some t => (Text.after? (keyword ++ [':']) (body t)).map Text.trim

def step? : Line → Option (StepWord × Text)
  | none => none
  | some t =>
    StepWord.all.findSome? fun word =>
      (Text.after? (word.word ++ [' ']) (body t)).map fun rest => (word, rest.trim)

/-- Starts of lines that are no description. -/
def structural : List Text :=
  ["Feature:", "Background:", "Scenario:", "Scenario Outline:", "Example:", "Examples:", "Given ",
    "When ", "Then ", "And ", "But ", "* ", "@", "#", "|", "\"\"\"", "\x60\x60\x60"].map
    String.toList

def description? : Line → Option Text
  | none => none
  | some t =>
    let text := t.trim
    if text.isEmpty || structural.any (·.isPrefixOf text) then none else some text

def docstringMarks : List Text :=
  ["\"\"\"".toList, "\x60\x60\x60".toList]

/-- A line that opens a docstring: its indentation, its mark and what follows the mark. -/
structure Opening where
  indent : Text
  mark : Text
  rest : Text
  deriving DecidableEq, Repr

def opening? : Line → Option Opening
  | none => none
  | some t =>
    docstringMarks.findSome? fun mark =>
      (Text.after? mark (body t)).map fun rest => ⟨indent t, mark, rest⟩

/-- What stands behind the first bar of a table row. -/
def row? : Line → Option Text
  | none => none
  | some t => Text.after? ['|'] (body t)

end Line

end ScenarioLint.Gherkin
