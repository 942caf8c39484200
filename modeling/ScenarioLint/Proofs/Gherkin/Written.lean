import ScenarioLint.Gherkin.Document
import ScenarioLint.Proofs.Gherkin.Lead

/-!
How documents are written.

The grammar is a relation between the lines of a file and the document that they write, with the
number of the first line where nodes know their lines.  Indentation, white space around texts, blank
lines and comments are left to the writer wherever the grammar leaves them open.
-/

namespace ScenarioLint.Gherkin

/-- A text without white space around it that fits on one line. -/
def Plain (t : Text) : Prop :=
  t.trim = t ∧ '\n' ∉ t ∧ '\r' ∉ t

instance (t : Text) : Decidable (Plain t) :=
  inferInstanceAs (Decidable (_ ∧ _))

/-- A text that can stand on a line of a description. -/
def IsDescription (t : Text) : Prop :=
  Plain t ∧ t ≠ [] ∧ ∀ start ∈ Line.structural, ¬ start <+: t

instance (t : Text) : Decidable (IsDescription t) :=
  inferInstanceAs (Decidable (_ ∧ _))

/-- Words of which the first one marks them as tags. -/
def TagsWellFormed (tags : List Text) : Prop :=
  (∀ tag ∈ tags, tag ≠ [] ∧ ∀ c ∈ tag, isSpace c = false) ∧
    ∀ first ∈ tags.head?, first.head? = some '@'

instance (tags : List Text) : Decidable (TagsWellFormed tags) :=
  inferInstanceAs (Decidable (_ ∧ _))

def Row.WellFormed (row : Row) : Prop :=
  row.cells ≠ [] ∧ ∀ cell ∈ row.cells, Plain cell ∧ '|' ∉ cell

instance (row : Row) : Decidable row.WellFormed :=
  inferInstanceAs (Decidable (_ ∧ _))

/-- A table has rows, all of one width. -/
def TableWellFormed (rows : List Row) : Prop :=
  rows ≠ [] ∧ (∀ row ∈ rows, row.WellFormed) ∧
    ∀ row ∈ rows, ∀ other ∈ rows, row.cells.length = other.cells.length

instance (rows : List Row) : Decidable (TableWellFormed rows) :=
  inferInstanceAs (Decidable (_ ∧ _))

def Docstring.WellFormed (d : Docstring) : Prop :=
  (∀ mediaType ∈ d.mediaType, Plain mediaType) ∧ '\r' ∉ d.content

instance (d : Docstring) : Decidable d.WellFormed :=
  inferInstanceAs (Decidable (_ ∧ _))

def Argument.WellFormed : Argument → Prop
  | docstring d => d.WellFormed
  | table rows => TableWellFormed rows

instance : (argument : Argument) → Decidable argument.WellFormed
  | .docstring d => inferInstanceAs (Decidable d.WellFormed)
  | .table rows => inferInstanceAs (Decidable (TableWellFormed rows))

def Step.WellFormed (s : Step) : Prop :=
  Plain s.text ∧ s.text ≠ [] ∧ ∀ argument ∈ s.argument, argument.WellFormed

instance (s : Step) : Decidable s.WellFormed :=
  inferInstanceAs (Decidable (_ ∧ _))

def Examples.WellFormed (e : Examples) : Prop :=
  TagsWellFormed e.tags ∧ Plain e.name ∧ TableWellFormed e.rows

instance (e : Examples) : Decidable e.WellFormed :=
  inferInstanceAs (Decidable (_ ∧ _))

def Scenario.WellFormed (s : Scenario) : Prop :=
  TagsWellFormed s.tags ∧ Plain s.name ∧ (∀ step ∈ s.steps, step.WellFormed) ∧
    ∀ examples ∈ s.examples, examples.WellFormed

instance (s : Scenario) : Decidable s.WellFormed :=
  inferInstanceAs (Decidable (_ ∧ _))

def Background.WellFormed (b : Background) : Prop :=
  Plain b.name ∧ ∀ step ∈ b.steps, step.WellFormed

instance (b : Background) : Decidable b.WellFormed :=
  inferInstanceAs (Decidable (_ ∧ _))

def Feature.WellFormed (f : Feature) : Prop :=
  TagsWellFormed f.tags ∧ Plain f.name ∧ (∀ text ∈ f.description, IsDescription text) ∧
    (∀ background ∈ f.background, background.WellFormed) ∧
    ∀ scenario ∈ f.scenarios, scenario.WellFormed

instance (f : Feature) : Decidable f.WellFormed :=
  inferInstanceAs (Decidable (_ ∧ _))

/-- The texts of a document can be told apart from the grammar around them. -/
def Document.WellFormed (doc : Document) : Prop :=
  ∀ feature ∈ doc.feature, feature.WellFormed

instance (doc : Document) : Decidable doc.WellFormed :=
  inferInstanceAs (Decidable (∀ feature ∈ doc.feature, feature.WellFormed))

/-- A blank line, or a comment. -/
def IsFiller (line : Text) : Prop :=
  ∃ ind more, IsIndentation ind ∧ line = ind ++ more ∧ (more = [] ∨ more.head? = some '#')

/-- A line with a lead and a text, perhaps with white space around the text. -/
def LeadWritten (ind : Text) (lead : Lead) (text line : Text) : Prop :=
  ∃ pad trail : Text, IsIndentation ind ∧ pad.isBlank = true ∧ trail.isBlank = true ∧
    line = ind ++ (lead.text ++ (pad ++ (text ++ trail)))

/-- The lines that write the tags above a header, of which each starts with a tag. -/
inductive TagsWritten : (lines tags : List Text) → Prop
  | nil : TagsWritten [] []
  | cons {ind first : Text} {tags fillers lines more : List Text} (hind : IsIndentation ind)
      (hfirst : first.head? = some '@') (hfillers : ∀ line ∈ fillers, IsFiller line)
      (hmore : TagsWritten lines more) :
      TagsWritten ((ind ++ Text.join [' '] (first :: tags)) :: (fillers ++ lines))
        (first :: tags ++ more)

/-- The lines that write the description under a header. -/
inductive DescriptionWritten : (lines texts : List Text) → Prop
  | nil : DescriptionWritten [] []
  | filler {line : Text} {lines texts : List Text} (hline : IsFiller line)
      (hmore : DescriptionWritten lines texts) : DescriptionWritten (line :: lines) texts
  | text {pad text trail : Text} {lines texts : List Text} (hpad : pad.isBlank = true)
      (htext : IsDescription text) (htrail : trail.isBlank = true)
      (hmore : DescriptionWritten lines texts) :
      DescriptionWritten ((pad ++ (text ++ trail)) :: lines) (text :: texts)

/-- The line that writes a row, with white space around the cells as the writer likes. -/
def Row.Written (row : Row) (line : Text) : Prop :=
  ∃ (ind : Text) (padded : List Text) (trail : Text), IsIndentation ind ∧ trail.isBlank = true ∧
    List.Forall₂ (fun cell written => ∃ front back : Text, front.isBlank = true ∧
      back.isBlank = true ∧ written = front ++ (cell ++ back)) row.cells padded ∧
    line = ind ++ ('|' :: (Text.join ['|'] padded ++ '|' :: trail))

/-- The lines that write a table, from line `n` on. -/
inductive TableWritten : (n : Nat) → (lines : List Text) → (rows : List Row) → Prop
  | nil {n : Nat} : TableWritten n [] []
  | cons {n : Nat} {line : Text} {lines : List Text} {row : Row} {rows : List Row}
      (hrow : row.Written line) (hline : row.line = n) (hmore : TableWritten (n + 1) lines rows) :
      TableWritten n (line :: lines) (row :: rows)

/-- The lines that write a docstring.  Its content is indented like its opening line and holds no
    line that would close it. -/
def Docstring.Written (n : Nat) (lines : List Text) (d : Docstring) : Prop :=
  ∃ ind lead opening body closingInd closing, (lead = .quotes ∨ lead = .backticks) ∧
    LeadWritten ind lead (d.mediaType.getD []) opening ∧ d.line = n ∧
    Text.join ['\n'] body = d.content ∧ (∀ line ∈ body, '\n' ∉ line ∧ line.trim ≠ lead.text) ∧
    LeadWritten closingInd lead [] closing ∧
    lines = opening :: (body.map (ind ++ ·) ++ [closing])

def Argument.Written (n : Nat) (lines : List Text) : Argument → Prop
  | docstring d => d.Written n lines
  | table rows => TableWritten n lines rows

/-- The lines that write a step and what belongs to it. -/
def Step.Written (n : Nat) (lines : List Text) (s : Step) : Prop :=
  ∃ ind line under, LeadWritten ind (.step s.word) s.text line ∧ s.line = n ∧
    lines = line :: under ∧
    match s.argument with
    | none => under = []
    | some argument => ∃ fillers block, (∀ line ∈ fillers, IsFiller line) ∧
        argument.Written (n + 1 + fillers.length) block ∧ under = fillers ++ block

/-- The lines that write several nodes of one sort, with blank lines and comments in front. -/
inductive SeriesWritten {α : Type} (Written : Nat → List Text → α → Prop) :
    (n : Nat) → (lines : List Text) → (nodes : List α) → Prop
  | nil {n : Nat} : SeriesWritten Written n [] []
  | cons {n : Nat} {fillers lines more : List Text} {node : α} {nodes : List α}
      (hfillers : ∀ line ∈ fillers, IsFiller line) (hnode : Written (n + fillers.length) lines node)
      (hmore : SeriesWritten Written (n + fillers.length + lines.length) more nodes) :
      SeriesWritten Written n (fillers ++ (lines ++ more)) (node :: nodes)

theorem SeriesWritten.singleton {α : Type} {Written : Nat → List Text → α → Prop} {n : Nat}
    {lines : List Text} {node : α} (h : Written n lines node) :
    SeriesWritten Written n lines [node] := by
  have hfillers : ∀ line ∈ ([] : List Text), IsFiller line := by simp
  have hseries := SeriesWritten.cons hfillers h .nil
  rwa [List.append_nil, List.nil_append] at hseries

/-- The lines that write a table of examples with its header. -/
def Examples.Written (n : Nat) (lines : List Text) (e : Examples) : Prop :=
  ∃ tags ind header description texts table, TagsWritten tags e.tags ∧
    LeadWritten ind .examples e.name header ∧ e.line = n + tags.length ∧
    DescriptionWritten description texts ∧
    TableWritten (n + tags.length + 1 + description.length) table e.rows ∧
    lines = tags ++ (header :: (description ++ table))

/-- The lines that write a scenario. -/
def Scenario.Written (n : Nat) (lines : List Text) (s : Scenario) : Prop :=
  ∃ tags ind header description texts steps examples, TagsWritten tags s.tags ∧
    LeadWritten ind (.scenario s.word) s.name header ∧ s.line = n + tags.length ∧
    DescriptionWritten description texts ∧
    SeriesWritten Step.Written (n + tags.length + 1 + description.length) steps s.steps ∧
    SeriesWritten Examples.Written (n + tags.length + 1 + description.length + steps.length)
      examples s.examples ∧
    lines = tags ++ (header :: (description ++ (steps ++ examples)))

/-- The lines that write a background. -/
def Background.Written (n : Nat) (lines : List Text) (b : Background) : Prop :=
  ∃ ind header description texts steps, LeadWritten ind .background b.name header ∧ b.line = n ∧
    DescriptionWritten description texts ∧
    SeriesWritten Step.Written (n + 1 + description.length) steps b.steps ∧
    lines = header :: (description ++ steps)

/-- The lines that write a feature. -/
def Feature.Written (n : Nat) (lines : List Text) (f : Feature) : Prop :=
  ∃ tags ind header description background scenarios, TagsWritten tags f.tags ∧
    LeadWritten ind .feature f.name header ∧ f.line = n + tags.length ∧
    DescriptionWritten description f.description ∧
    SeriesWritten Background.Written (n + tags.length + 1 + description.length) background
      f.background.toList ∧
    SeriesWritten Scenario.Written
      (n + tags.length + 1 + description.length + background.length) scenarios f.scenarios ∧
    lines = tags ++ (header :: (description ++ (background ++ scenarios)))

/-- The lines that write a document.  None of them holds the ending of a line. -/
def Document.Written (lines : List Text) (doc : Document) : Prop :=
  (∀ line ∈ lines, '\n' ∉ line ∧ '\r' ∉ line) ∧
    ∃ body trailing, SeriesWritten Feature.Written 1 body doc.feature.toList ∧
      (∀ line ∈ trailing, IsFiller line) ∧ lines = body ++ trailing

def Step.docstrings (s : Step) : List Docstring :=
  match s.argument with
  | some (.docstring d) => [d]
  | _ => []

/-- A step that can be recovered from its lines, on which an empty media type and none look the
    same. -/
def Step.Recoverable (s : Step) : Prop :=
  s.WellFormed ∧ ∀ d ∈ s.docstrings, d.mediaType ≠ some []

def Feature.steps (f : Feature) : List Step :=
  (f.background.elim [] Background.steps) ++ f.scenarios.flatMap Scenario.steps

/-- All docstrings of a document. -/
def Document.docstrings (doc : Document) : List Docstring :=
  (doc.feature.elim [] Feature.steps).flatMap Step.docstrings

end ScenarioLint.Gherkin
