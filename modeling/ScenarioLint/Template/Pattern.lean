import ScenarioLint.Keyword
import ScenarioLint.Regex.Reader
import ScenarioLint.Regex.Search
import ScenarioLint.Template.Line
import ScenarioLint.Template.Segment

/-!
Compiling a line of a rulebook into an anchored pattern.

A template that starts with a keyword is matched behind that keyword in any case, every other one
behind a keyword of its rulebook's group.  Literal text is matched character by character, except
that any white space matches where the template has some.
-/

namespace ScenarioLint.Template

inductive Rulebook where
  /-- Setup and actions. -/
  | step
  /-- Observations. -/
  | assertion
  deriving DecidableEq, Repr

namespace Rulebook

def name : Rulebook → Text
  | step => "step".toList
  | assertion => "assertion".toList

/-- The keywords that may lead a line for a template written without one. -/
def keywords : Rulebook → List Keyword
  | step => [.given, .when, .then, .and]
  | assertion => [.then, .and]

end Rulebook

/-- Characters that mean something in a pattern unless a backslash stands before them. -/
def isSpecial (c : Char) : Bool :=
  "\\.+*?()|[]\x7b\x7d^$#&-~".toList.contains c

def escape (c : Char) : Text :=
  if isSpecial c then ['\\', c] else [c]

/-- The pattern text for literal text.  White space, of which a cleaned-up line has no two
    characters in a row, becomes `\s+`. -/
def renderLiteral (t : Text) : Text :=
  t.flatMap fun c => if isSpace c then "\\s+".toList else escape c

def Segment.render : Segment → Text
  | .literal t => renderLiteral t
  | .placeholder p => p.fragment

def renderBody (body : Text) : Text :=
  (Segment.ofTemplate body).flatMap Segment.render

def renderKeywords (keywords : List Keyword) : Text :=
  "(?i:".toList ++ Text.join ['|'] (keywords.map Keyword.word) ++ [')']

def render (rulebook : Rulebook) (template : Text) : Text :=
  let lead :=
    match Keyword.detect template with
    | some (keyword, rest) => renderKeywords [keyword] ++ renderBody rest
    | none => renderKeywords rulebook.keywords ++ "\\s+".toList ++ renderBody template
  "^\\s*".toList ++ lead ++ "\\s*$".toList

structure InvalidPattern where
  template : Text
  deriving DecidableEq, Repr

/-- The pattern of a template. -/
structure Pattern where
  template : Text
  source : Text
  regex : Regex
  deriving DecidableEq, Repr

namespace Pattern

/-- Whether the engine takes a pattern with this source, where nothing else is said.  The engine
    refuses a pattern that takes up more than 10 MiB once it is compiled, and how much it takes up is
    not modelled.  It takes up less with a source of under 10000 bytes and more with one of over
    100000 bytes; what is said of sources in between is an assumption. -/
def isSmall (source : Text) : Bool :=
  source.byteSize < 50000

/-- Compiles one line of a rulebook, or gives nothing for a line without a template.  The engine
    takes the sources that `small` accepts. -/
def compile (rulebook : Rulebook) (raw : Text) (small : Text → Bool := isSmall) :
    Except InvalidPattern (Option Pattern) :=
  let template := normalizeLine raw
  if isSkippable template then .ok none
  else
    let source := render rulebook template
    if small source then
      match Regex.read? source with
      | some regex => .ok (some ⟨template, source, regex⟩)
      | none => .error ⟨template⟩
    else .error ⟨template⟩

/-- The pattern describes the line without the white space around it. -/
def accepts (p : Pattern) (line : Text) : Bool :=
  p.regex.accepts line.trim

end Pattern

def pattern? (rulebook : Rulebook) (small : Text → Bool) (raw : Text) : Option Pattern :=
  match Pattern.compile rulebook raw small with
  | .ok p => p
  | .error _ => none

/-- The patterns of a rulebook.  A line that does not compile is left out. -/
def patterns (rulebook : Rulebook) (text : Text) (small : Text → Bool := Pattern.isSmall) :
    List Pattern :=
  text.lines.filterMap (pattern? rulebook small)

def firstMatch? (patterns : List Pattern) (line : Text) : Option Pattern :=
  patterns.find? (·.accepts line)

end ScenarioLint.Template
