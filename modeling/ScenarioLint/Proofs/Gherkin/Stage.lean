import ScenarioLint.Gherkin.Reader
import ScenarioLint.Proofs.Gherkin.Written

/-!
Reading a feature file line by line.

What a line may be depends on the lines in front of it only through a stage, which knows the part of
the document that is being read and what may stand directly under the last line that counted.
-/

namespace ScenarioLint.Gherkin

namespace Line

/-- The lead of a line and what follows it. -/
def lead? : Line → Option (Lead × Text)
  | none => none
  | some t => Lead.all.findSome? fun lead => (Text.after? lead.text (body t)).map (lead, ·)

/-- What follows a lead in a line that has it. -/
def behind? (lead : Lead) (line : Line) : Option Text :=
  (lead? line).bind fun (own, more) => if lead = own then some more else none

theorem lead?_eq_some_iff {t more : Text} {lead : Lead} :
    lead? (some t) = some (lead, more) ↔ body t = lead.text ++ more := by
  constructor
  · intro h
    obtain ⟨own, _, hown⟩ := List.exists_of_findSome?_eq_some h
    obtain ⟨rest, hrest, heq⟩ := Option.map_eq_some_iff.mp hown
    cases heq
    exact Text.after?_eq_some_iff.mp hrest
  · intro h
    have hsome : (lead? (some t)).isSome = true := by
      rw [lead?, List.findSome?_isSome_iff]
      exact ⟨lead, lead.mem_all, by rw [h, Lead.after?_text, if_pos rfl]; rfl⟩
    obtain ⟨⟨own, rest⟩, hfound⟩ := Option.isSome_iff_exists.mp hsome
    obtain ⟨other, _, hother⟩ := List.exists_of_findSome?_eq_some hfound
    rw [h, Lead.after?_text] at hother
    split at hother
    · rename_i hsame
      cases hother
      rw [hfound, ← hsame]
    · cases hother

/-- A reader that looks for one lead finds what the line has behind it. -/
theorem after?_body (lead : Lead) (t : Text) :
    Text.after? lead.text (body t) = behind? lead (some t) := by
  rw [behind?]
  cases hlead : lead? (some t) with
  | none =>
    rw [Option.bind_none, Option.eq_none_iff_forall_not_mem]
    intro more hmore
    rw [lead?_eq_some_iff.mpr (Text.after?_eq_some_iff.mp hmore)] at hlead
    cases hlead
  | some found =>
    obtain ⟨own, more⟩ := found
    rw [lead?_eq_some_iff.mp hlead, Lead.after?_text]
    rfl

theorem lead?_of_behind? {lead : Lead} {line : Line} {more : Text}
    (h : behind? lead line = some more) : lead? line = some (lead, more) := by
  obtain ⟨⟨own, rest⟩, hlead, hown⟩ := Option.bind_eq_some_iff.mp h
  dsimp only at hown
  split at hown
  · rename_i hsame
    cases hown
    rw [hlead, hsame]
  · cases hown

theorem behind?_of_lead? {line : Line} {lead : Lead} {more : Text}
    (h : lead? line = some (lead, more)) (other : Lead) :
    behind? other line = if other = lead then some more else none := by
  rw [behind?, h]
  rfl

theorem header?_eq {keyword : Text} {lead : Lead} (hkeyword : keyword ++ [':'] = lead.text)
    (line : Line) : header? keyword line = (behind? lead line).map Text.trim := by
  cases line with
  | none => rfl
  | some t => rw [header?, hkeyword, after?_body]

theorem row?_eq (line : Line) : row? line = behind? .bar line := by
  cases line with
  | none => rfl
  | some t => exact after?_body .bar t

theorem isSome_tags?_eq (line : Line) : (tags? line).isSome = (behind? .tag line).isSome := by
  cases line with
  | none => rfl
  | some t =>
    have hstart : (body t).head? = some '@' ↔ ∃ more, body t = Lead.tag.text ++ more :=
      List.head?_eq_some_iff
    rw [tags?, ← after?_body, Bool.eq_iff_iff, Option.isSome_ite, hstart,
      Option.isSome_iff_exists]
    simp only [Text.after?_eq_some_iff]

/-- A line is a step if it has the lead of one. -/
theorem step?_eq_some_iff {line : Line} {word : StepWord} {text : Text} :
    step? line = some (word, text) ↔ ∃ more, lead? line = some (.step word, more) ∧
      more.trim = text := by
  cases line with
  | none => simp [step?, lead?]
  | some t =>
    have hafter : ∀ other : StepWord, Text.after? (other.word ++ [' ']) (body t) =
        behind? (.step other) (some t) := fun other => after?_body (.step other) t
    simp only [step?, hafter]
    constructor
    · intro h
      obtain ⟨other, _, hother⟩ := List.exists_of_findSome?_eq_some h
      obtain ⟨more, hmore, heq⟩ := Option.map_eq_some_iff.mp hother
      cases heq
      exact ⟨more, lead?_of_behind? hmore, rfl⟩
    · rintro ⟨more, hlead, rfl⟩
      simp only [behind?_of_lead? hlead]
      cases word <;> rfl

theorem opening?_eq_some_iff {t : Text} {o : Opening} : opening? (some t) = some o ↔
    ∃ lead, (lead = .quotes ∨ lead = .backticks) ∧ lead? (some t) = some (lead, o.rest) ∧
      o.indent = indent t ∧ o.mark = lead.text := by
  have hafter : ∀ lead : Lead, Text.after? lead.text (body t) = behind? lead (some t) :=
    fun lead => after?_body lead t
  constructor
  · intro h
    obtain ⟨mark, hmark, hown⟩ := List.exists_of_findSome?_eq_some h
    obtain ⟨more, hmore, rfl⟩ := Option.map_eq_some_iff.mp hown
    simp only [docstringMarks, List.mem_cons, List.not_mem_nil, or_false] at hmark
    rcases hmark with rfl | rfl
    · exact ⟨.quotes, .inl rfl, lead?_of_behind? (hafter .quotes ▸ hmore), rfl, rfl⟩
    · exact ⟨.backticks, .inr rfl, lead?_of_behind? (hafter .backticks ▸ hmore), rfl, rfl⟩
  · rintro ⟨lead, hquotes, hlead, hindent, hmark⟩
    have hbehind := fun other => behind?_of_lead? hlead other
    have hopen : o = ⟨indent t, lead.text, o.rest⟩ := by
      rw [← hindent, ← hmark]
    rw [hopen]
    have hboth : docstringMarks = [Lead.quotes.text, Lead.backticks.text] := rfl
    rcases hquotes with rfl | rfl
    · simp only [opening?, hboth, List.findSome?_cons, hafter, hbehind]
      rfl
    · simp only [opening?, hboth, List.findSome?_cons, hafter, hbehind]
      rfl

/-- The number of cells of a table row. -/
def width? (line : Line) : Option Nat :=
  (row? line).bind fun text =>
    let text := text.trimEnd
    if text.getLast? = some '|' then some (Text.pieces '|' text.dropLast).length else none

end Line

/-- The part of a document that a line stands in. -/
inductive Within where
  /-- In front of the feature. -/
  | top
  /-- Under the header of the feature. -/
  | feature
  | background
  | scenario
  | examples
  deriving DecidableEq, Repr

inductive Stage where
  /-- Nothing may stand under the last line. -/
  | between (w : Within)
  /-- The header that tags belong to has to follow. -/
  | tagged (w : Within)
  /-- A description may stand under a header. -/
  | header (w : Within)
  /-- A docstring or a table may stand under a step. -/
  | step (w : Within)
  /-- A docstring is open, and these lines of it have been read. -/
  | docstring (w : Within) (o : Line.Opening) (body : List Text)
  /-- A row of this many cells may stand under a row. -/
  | table (w : Within) (width : Nat)
  deriving DecidableEq, Repr

/-- Tags may stand in front of a line with the lead. -/
def Lead.isTaggable : Lead → Bool
  | tag | feature | scenario _ | examples => true
  | _ => false

namespace Within

def hasSteps : Within → Bool
  | background | scenario => true
  | top | feature | examples => false

def hasExamples : Within → Bool
  | scenario | examples => true
  | top | feature | background => false

/-- What a line with a lead opens. -/
def opens (w : Within) : Lead → Option Stage
  | .tag => some (.tagged w)
  | .feature => if w = top then some (.header feature) else none
  | .background => if w = feature then some (.header background) else none
  | .scenario _ => if w = top then none else some (.header scenario)
  | .examples => if w.hasExamples then some (.header examples) else none
  | .step _ => if w.hasSteps then some (.step w) else none
  | .quotes | .backticks | .bar => none

/-- What a line opens where nothing stands under the last one. -/
def opensLine (w : Within) (line : Line) : Option Stage :=
  line.lead?.bind fun (lead, _) => w.opens lead

end Within

namespace Stage

/-- The stage behind a line. -/
def next (line : Line) : Stage → Option Stage
  | between w => if line.isIgnorable then some (between w) else w.opensLine line
  | tagged w =>
    if line.isIgnorable then some (tagged w)
    else line.lead?.bind fun (lead, _) => if lead.isTaggable then w.opens lead else none
  | header w =>
    if line.isIgnorable || line.description?.isSome then some (header w)
    else if w = .examples then line.width?.map (table w)
    else w.opensLine line
  | step w =>
    if line.isIgnorable then some (step w)
    else (line.opening?.map (docstring w · [])).or ((line.width?.map (table w)).or
      (w.opensLine line))
  | docstring w o body =>
    match line with
    | none => none
    | some t =>
      if t.trim = o.mark then some (between w)
      else some (docstring w o (body ++ [Place.unindent o.indent t]))
  | table w width =>
    if line.width? = some width then some (table w width)
    else if line.isIgnorable then some (between w)
    else w.opensLine line

/-- The docstring that ends with the line that has the number. -/
def ended? (number : Nat) (line : Line) : Stage → Option Docstring
  | docstring _ o body =>
    match line with
    | none => none
    | some t =>
      if t.trim = o.mark then
        some ⟨if o.rest.trim.isEmpty then none else some o.rest.trim, Text.join ['\n'] body,
          number - (body.length + 1)⟩
      else none
  | _ => none

/-- The document may end. -/
def isFinal : Stage → Bool
  | between _ | step _ | table _ _ => true
  | header w => w != .examples
  | tagged _ | docstring _ _ _ => false

/-- The stage behind lines. -/
def run (lines : List Line) (σ : Stage) : Option Stage :=
  lines.foldlM (fun σ line => σ.next line) σ

end Stage

/-- The docstrings of a document whose remaining lines can be read in a stage, if they can.  The
    first of them has the given number. -/
def walk (number : Nat) (σ : Stage) : List Line → Option (List Docstring)
  | [] => if σ.isFinal then some [] else none
  | line :: rest =>
    (σ.next line).bind fun τ => (walk (number + 1) τ rest).map ((σ.ended? number line).toList ++ ·)

end ScenarioLint.Gherkin
