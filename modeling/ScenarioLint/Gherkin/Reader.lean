import ScenarioLint.Gherkin.Reply

/-!
Reading a feature file.

A document is a feature between lines that do not count.  A feature has a background and
scenarios, a scenario has steps and examples, and a step may have a docstring or a table under it.
Blank lines and comments do not count except inside docstrings and between the rows of a table,
and tags stand above the header that they belong to.
-/

namespace ScenarioLint.Gherkin

namespace Place

def tags (p : Place) : Reply (List Text) :=
  (p.many fun p => (p.take Line.tags?).bind fun tags next => .done tags next.skipIgnorable).map
    List.flatten

def header {α : Type} (p : Place) (keywords : List (α × Text)) : Reply (α × Text) :=
  p.take fun line => keywords.findSome? fun (a, keyword) => (Line.header? keyword line).map (a, ·)

def description (p : Place) : Reply (List Text) :=
  (p.many fun p => p.take fun line =>
    match Line.description? line with
    | some text => some [text]
    | none => if Line.isIgnorable line then some [] else none).map List.flatten

/-- Reads behind lines that do not count. -/
def behindIgnorable {α : Type} (read : Place → Reply α) (p : Place) : Reply α :=
  read p.skipIgnorable

/-- Removes the indentation of a docstring's opening line from a line inside it.  A line that
    lacks it loses all white space in front. -/
def unindent (indent line : Text) : Text :=
  (Text.after? indent line).getD line.trimStart

def docstringBody (start : Nat) (o : Line.Opening) : Nat → List Line → Reply (List Text)
  | _, [] => .stop ⟨start, "unterminated docstring (no closing ".toList ++ o.mark ++ [')']⟩
  | _, none :: _ => .pass
  | n, some t :: rest =>
    if t.trim = o.mark then .done [] ⟨n + 1, rest⟩
    else (docstringBody start o (n + 1) rest).map (unindent o.indent t :: ·)

def docstring (p : Place) : Reply Docstring :=
  (p.take Line.opening?).bind fun o next =>
    (docstringBody p.line o next.line next.rest).map fun body =>
      let mediaType := o.rest.trim
      ⟨if mediaType.isEmpty then none else some mediaType, Text.join ['\n'] body, p.line⟩

def row (p : Place) : Reply Row :=
  (p.take Line.row?).bind fun text next =>
    let text := text.trimEnd
    if text.getLast? = some '|' then
      .done ⟨(Text.pieces '|' text.dropLast).map Text.trim, p.line⟩ next
    else .stop ⟨p.line, "table row must end with '|'".toList⟩

def rowOfWidth (width : Nat) (p : Place) : Reply Row :=
  p.row.bind fun row next =>
    if row.cells.length = width then .done row next
    else .stop ⟨p.line, "inconsistent cell count: expected ".toList ++ Text.ofNat width ++
      ", found ".toList ++ Text.ofNat row.cells.length⟩

/-- Reads a table of at least one row. -/
def table (p : Place) : Reply (List Row) :=
  p.row.bind fun first next => (next.many (rowOfWidth first.cells.length)).map (first :: ·)

def argument (p : Place) : Reply Argument :=
  (p.docstring.map .docstring).orElse (p.table.map .table)

def step (p : Place) : Reply Step :=
  (p.take Line.step?).bind fun (word, text) next =>
    ((next.behindIgnorable argument).optional next).map fun argument =>
      ⟨word, text, p.line, argument⟩

def steps (p : Place) : Reply (List Step) :=
  p.many (behindIgnorable step)

def examples (p : Place) : Reply Examples :=
  p.tags.bind fun tags atHeader =>
    (atHeader.header [((), "Examples".toList)]).bind fun (_, name) next =>
      next.description.bind fun _ next =>
        (next.table.orElse
          (.stop ⟨next.line, "expected a table under 'Examples:'".toList⟩)).map fun rows =>
            ⟨tags, name, atHeader.line, rows⟩

def scenario (p : Place) : Reply Scenario :=
  p.tags.bind fun tags atHeader =>
    (atHeader.header (ScenarioWord.all.map fun word => (word, word.word))).bind
      fun (word, name) next =>
      next.description.bind fun _ next =>
        next.steps.bind fun steps next =>
          (next.many (behindIgnorable examples)).map fun examples =>
            ⟨tags, word, name, atHeader.line, steps, examples⟩

def background (p : Place) : Reply Background :=
  (p.header [((), "Background".toList)]).bind fun (_, name) next =>
    next.description.bind fun _ next =>
      next.steps.map fun steps => ⟨name, p.line, steps⟩

def feature (p : Place) : Reply Feature :=
  p.tags.bind fun tags atHeader =>
    (atHeader.header [((), "Feature".toList)]).bind fun (_, name) next =>
      next.description.bind fun description next =>
        ((next.behindIgnorable background).optional next).bind fun background next =>
          (next.many (behindIgnorable scenario)).map fun scenarios =>
            ⟨tags, name, description, atHeader.line, background, scenarios⟩

def document (p : Place) : Except ParseError Document :=
  let p := p.skipIgnorable
  match p.feature.optional p with
  | .stop e => .error e
  | .pass => .error ⟨p.line, "malformed line".toList⟩
  | .done feature next =>
    let next := next.skipIgnorable
    match next.rest with
    | [] => .ok ⟨feature⟩
    | none :: _ => .error ⟨next.line, "malformed line".toList⟩
    | some t :: _ =>
      let found := t.trim ++ ['\'']
      match feature with
      | some _ => .error ⟨next.line, "unexpected line '".toList ++ found⟩
      | none => .error ⟨next.line, "expected 'Feature:' header, found '".toList ++ found⟩

end Place

def parse (text : Text) : Except ParseError Document :=
  Place.document ⟨1, Line.all text⟩

end ScenarioLint.Gherkin
