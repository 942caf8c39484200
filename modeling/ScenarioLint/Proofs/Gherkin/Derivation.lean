import ScenarioLint.Proofs.Gherkin.Written

/-!
How documents are read off lines.

The grammar is a relation between lines, each with its use, and the document that they give.  It
covers every file that can be read, also the ones that nobody would write: lines of a docstring that
lack its indentation, words of tags at any distance, rows with white space behind the last bar.
-/

namespace ScenarioLint.Gherkin

/-- What a line of a feature file is used as. -/
inductive Kind where
  /-- A blank line or a comment that does not count. -/
  | filler
  | description
  /-- A line inside a docstring. -/
  | content
  /-- The closing mark of a docstring. -/
  | closing
  /-- A line that counts for what it starts with. -/
  | lead (lead : Lead)
  deriving DecidableEq, Repr

/-- A line and its use. -/
abbrev Token := Kind × Text

/-- A line with a lead behind its indentation and `more` behind the lead. -/
def Lead.Opens (lead : Lead) (ind more line : Text) : Prop :=
  IsIndentation ind ∧ line = ind ++ (lead.text ++ more)

/-- A line with a text behind its lead. -/
def Lead.Derived (lead : Lead) (text : Text) (token : Token) : Prop :=
  ∃ ind more line, lead.Opens ind more line ∧ text = more.trim ∧ token = (.lead lead, line)

/-- Blank lines and comments. -/
def Fillers (tokens : List Token) : Prop :=
  ∀ token ∈ tokens, token.1 = .filler ∧ IsFiller token.2

/-- A line with a text that starts like nothing else in a feature file. -/
def IsDescriptionLine (line : Text) : Prop :=
  line.trim ≠ [] ∧ ∀ start ∈ Line.structural, ¬ start <+: line.trim

/-- A line that cannot be taken for a part of the description above it. -/
def StartsPlainly (tokens : List Token) : Prop :=
  ∀ token ∈ tokens.head?, ¬ IsFiller token.2 ∧ ¬ IsDescriptionLine token.2

/-- The tags above a header are the words of the lines that start with a tag. -/
inductive TagsDerived : List Token → List Text → Prop
  | nil : TagsDerived [] []
  | cons {ind more line : Text} {fillers tokens : List Token} {tags : List Text}
      (hline : Lead.tag.Opens ind more line) (hfillers : Fillers fillers)
      (hmore : TagsDerived tokens tags) :
      TagsDerived ((.lead .tag, line) :: (fillers ++ tokens)) (line.words ++ tags)

/-- The texts of a description are its lines without the white space around them. -/
inductive DescriptionDerived : List Token → List Text → Prop
  | nil : DescriptionDerived [] []
  | filler {line : Text} {tokens : List Token} {texts : List Text} (hline : IsFiller line)
      (hmore : DescriptionDerived tokens texts) :
      DescriptionDerived ((.filler, line) :: tokens) texts
  | text {line : Text} {tokens : List Token} {texts : List Text} (hline : IsDescriptionLine line)
      (hmore : DescriptionDerived tokens texts) :
      DescriptionDerived ((.description, line) :: tokens) (line.trim :: texts)

/-- Several nodes of one sort, one directly behind the other. -/
inductive Series {α : Type} (Derived : Nat → List Token → α → Prop) :
    (n : Nat) → (tokens : List Token) → (nodes : List α) → Prop
  | nil {n : Nat} : Series Derived n [] []
  | cons {n : Nat} {tokens more : List Token} {node : α} {nodes : List α}
      (hnode : Derived n tokens node) (hmore : Series Derived (n + tokens.length) more nodes) :
      Series Derived n (tokens ++ more) (node :: nodes)

/-- A node behind blank lines and comments. -/
def BehindFillers {α : Type} (Derived : Nat → List Token → α → Prop) (n : Nat)
    (tokens : List Token) (node : α) : Prop :=
  ∃ fillers rest, Fillers fillers ∧ Derived (n + fillers.length) rest node ∧
    tokens = fillers ++ rest

/-- The cells of a row are what stands between the bars of its line. -/
def Row.Derived (n : Nat) (tokens : List Token) (row : Row) : Prop :=
  ∃ ind inner trail line : Text, Lead.bar.Opens ind (inner ++ '|' :: trail) line ∧
    trail.isBlank = true ∧ row = ⟨(inner.pieces '|').map Text.trim, n⟩ ∧
    tokens = [(.lead .bar, line)]

/-- A table has rows, all of one width. -/
def IsTable (rows : List Row) : Prop :=
  rows ≠ [] ∧ ∀ row ∈ rows, ∀ other ∈ rows, row.cells.length = other.cells.length

instance (rows : List Row) : Decidable (IsTable rows) :=
  inferInstanceAs (Decidable (_ ∧ _))

def TableDerived (n : Nat) (tokens : List Token) (rows : List Row) : Prop :=
  IsTable rows ∧ Series Row.Derived n tokens rows

/-- A line inside a docstring, and what is left of it without the indentation of the docstring.  A
    line that lacks it loses all white space in front. -/
inductive Unindented (ind : Text) : (line left : Text) → Prop
  | removed (left : Text) : Unindented ind (ind ++ left) left
  | lacking {line : Text} (h : ¬ ind <+: line) : Unindented ind line line.trimStart

/-- The content of a docstring is what stands between its marks. -/
def Docstring.Derived (n : Nat) (tokens : List Token) (d : Docstring) : Prop :=
  ∃ lead ind more opening body content closing, (lead = .quotes ∨ lead = .backticks) ∧
    lead.Opens ind more opening ∧ (∀ line ∈ body, line.trim ≠ lead.text) ∧
    closing.trim = lead.text ∧ List.Forall₂ (Unindented ind) body content ∧
    d = ⟨if more.trim = [] then none else some more.trim, Text.join ['\n'] content, n⟩ ∧
    tokens = (.lead lead, opening) :: (body.map (Kind.content, ·) ++ [(.closing, closing)])

def Argument.Derived (n : Nat) (tokens : List Token) : Argument → Prop
  | docstring d => d.Derived n tokens
  | table rows => TableDerived n tokens rows

def Step.Derived (n : Nat) (tokens : List Token) (s : Step) : Prop :=
  ∃ token under, (Lead.step s.word).Derived s.text token ∧ s.line = n ∧
    Series (BehindFillers Argument.Derived) (n + 1) under s.argument.toList ∧
    tokens = token :: under

def Examples.Derived (n : Nat) (tokens : List Token) (e : Examples) : Prop :=
  ∃ tags token description texts table, TagsDerived tags e.tags ∧
    Lead.examples.Derived e.name token ∧ e.line = n + tags.length ∧
    DescriptionDerived description texts ∧
    TableDerived (n + tags.length + 1 + description.length) table e.rows ∧
    tokens = tags ++ token :: (description ++ table)

def Scenario.Derived (n : Nat) (tokens : List Token) (s : Scenario) : Prop :=
  ∃ tags token description texts steps examples, TagsDerived tags s.tags ∧
    (Lead.scenario s.word).Derived s.name token ∧ s.line = n + tags.length ∧
    DescriptionDerived description texts ∧ StartsPlainly (steps ++ examples) ∧
    Series (BehindFillers Step.Derived) (n + tags.length + 1 + description.length) steps s.steps ∧
    Series (BehindFillers Examples.Derived)
      (n + tags.length + 1 + description.length + steps.length) examples s.examples ∧
    tokens = tags ++ token :: (description ++ (steps ++ examples))

def Background.Derived (n : Nat) (tokens : List Token) (b : Background) : Prop :=
  ∃ token description texts steps, Lead.background.Derived b.name token ∧ b.line = n ∧
    DescriptionDerived description texts ∧ StartsPlainly steps ∧
    Series (BehindFillers Step.Derived) (n + 1 + description.length) steps b.steps ∧
    tokens = token :: (description ++ steps)

def Feature.Derived (n : Nat) (tokens : List Token) (f : Feature) : Prop :=
  ∃ tags token description background scenarios, TagsDerived tags f.tags ∧
    Lead.feature.Derived f.name token ∧ f.line = n + tags.length ∧
    DescriptionDerived description f.description ∧ StartsPlainly (background ++ scenarios) ∧
    Series (BehindFillers Background.Derived) (n + tags.length + 1 + description.length)
      background f.background.toList ∧
    Series (BehindFillers Scenario.Derived)
      (n + tags.length + 1 + description.length + background.length) scenarios f.scenarios ∧
    tokens = tags ++ token :: (description ++ (background ++ scenarios))

/-- The lines of a document are those of its feature, if it has one, and lines that do not count. -/
def Document.Derived (tokens : List Token) (doc : Document) : Prop :=
  ∃ body trailing, Series (BehindFillers Feature.Derived) 1 body doc.feature.toList ∧
    Fillers trailing ∧ tokens = body ++ trailing

end ScenarioLint.Gherkin
