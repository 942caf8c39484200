import Mathlib.Data.List.Forall2
import Mathlib.Data.Option.Basic
import ScenarioLint.Proofs.Gherkin.Completeness

/-!
A plain way to write documents: no line is indented, none is blank and none is a comment.

The lines on which its nodes stand follow from the document, so that every document whose texts can
be told apart from the grammar has one text that is read back as the same document.
-/

namespace ScenarioLint.Gherkin

section Numbering

variable {α : Type} (render : α → List Text) (number : Nat → α → α)

/-- Nodes with the numbers of their lines if they are written one behind the other. -/
def numberAll : Nat → List α → List α
  | _, [] => []
  | n, node :: more => number n node :: numberAll (n + (render node).length) more

variable {render number}

theorem forall_mem_numberAll {P : α → Prop} {nodes : List α}
    (h : ∀ node ∈ nodes, ∀ n, P (number n node)) (n : Nat) :
    ∀ node ∈ numberAll render number n nodes, P node := by
  induction nodes generalizing n with
  | nil => exact nofun
  | cons node more ih =>
    obtain ⟨hnode, hmore⟩ := List.forall_mem_cons.mp h
    exact List.forall_mem_cons.mpr ⟨hnode n, ih hmore _⟩

theorem seriesWritten_numberAll {Written : Nat → List Text → α → Prop} {nodes : List α}
    (h : ∀ node ∈ nodes, ∀ n, Written n (render node) (number n node)) (n : Nat) :
    SeriesWritten Written n (nodes.flatMap render) (numberAll render number n nodes) := by
  induction nodes generalizing n with
  | nil => exact .nil
  | cons node more ih =>
    obtain ⟨hnode, hmore⟩ := List.forall_mem_cons.mp h
    have hfillers : ∀ line ∈ ([] : List Text), IsFiller line := by simp
    exact .cons hfillers (hnode n) (ih hmore _)

end Numbering

/-- A text that fits on one line. -/
def IsLine (t : Text) : Prop :=
  '\n' ∉ t ∧ '\r' ∉ t

instance (t : Text) : Decidable (IsLine t) :=
  inferInstanceAs (Decidable (_ ∧ _))

section IsLine

variable {t u : Text}

theorem isLine_append_iff : IsLine (t ++ u) ↔ IsLine t ∧ IsLine u := by
  simp only [IsLine, List.mem_append, not_or]
  tauto

theorem isLine_of_visible (h : ∀ c ∈ t, isSpace c = false) : IsLine t := by
  constructor
  · intro hfeed
    cases h _ hfeed
  · intro hreturn
    cases h _ hreturn

theorem isLine_join {mark : Text} {ts : List Text} (hmark : IsLine mark)
    (hts : ∀ t ∈ ts, IsLine t) : IsLine (Text.join mark ts) := by
  induction ts with
  | nil => exact ⟨nofun, nofun⟩
  | cons t more ih =>
    obtain ⟨ht, hmore⟩ := List.forall_mem_cons.mp hts
    cases more with
    | nil => simpa [Text.join] using ht
    | cons next more =>
      rw [Text.join_cons_cons]
      exact isLine_append_iff.mpr ⟨ht, isLine_append_iff.mpr ⟨hmark, ih hmore⟩⟩

theorem isLine_of_mem_pieces {content piece : Text} (hreturn : '\r' ∉ content)
    (h : piece ∈ Text.pieces '\n' content) : IsLine piece := by
  refine ⟨Text.not_mem_of_mem_pieces h, fun hmem => hreturn ?_⟩
  obtain ⟨pre, post, rfl, _, _⟩ := Text.exists_of_mem_pieces h
  exact List.mem_append_left _ (List.mem_append_right _ hmem)

end IsLine

namespace Lead

/-- What stands between a lead and the text behind it. -/
def gap : Lead → Text
  | feature | background | scenario _ | examples => [' ']
  | _ => []

/-- The line with a lead and a text. -/
def line (lead : Lead) (t : Text) : Text :=
  lead.text ++ (lead.gap ++ t)

theorem leadWritten_line (lead : Lead) (t : Text) : LeadWritten [] lead t (lead.line t) := by
  have hgap : ∀ lead ∈ all, lead.gap.isBlank = true := by decide
  refine ⟨lead.gap, [], nofun, forall_of_all hgap lead, rfl, ?_⟩
  rw [List.append_nil]
  rfl

theorem isLine_line (lead : Lead) {t : Text} (ht : IsLine t) : IsLine (lead.line t) := by
  have hlead : ∀ lead ∈ all, IsLine lead.text ∧ IsLine lead.gap := by decide
  obtain ⟨htext, hgap⟩ := forall_of_all hlead lead
  exact isLine_append_iff.mpr ⟨htext, isLine_append_iff.mpr ⟨hgap, ht⟩⟩

end Lead

/-- All tags on one line, if there are any. -/
def renderTags (tags : List Text) : List Text :=
  if tags.isEmpty then [] else [Text.join [' '] tags]

section Tags

variable {tags : List Text}

theorem tagsWritten_renderTags (h : TagsWellFormed tags) : TagsWritten (renderTags tags) tags := by
  cases tags with
  | nil => exact .nil
  | cons first more =>
    have hind : IsIndentation [] := nofun
    have hfillers : ∀ line ∈ ([] : List Text), IsFiller line := nofun
    have hwritten := @TagsWritten.cons _ _ more _ _ _ hind (h.2 first rfl) hfillers .nil
    rwa [List.append_nil, List.append_nil] at hwritten

theorem isLine_of_mem_renderTags (h : TagsWellFormed tags) :
    ∀ line ∈ renderTags tags, IsLine line := by
  intro line hline
  rw [renderTags] at hline
  split at hline
  · cases hline
  · rw [List.mem_singleton.mp hline]
    exact isLine_join (by decide) fun tag htag => isLine_of_visible (h.1 tag htag).2

end Tags

/-- The line of a row, with a space on both sides of every cell. -/
def Row.render (row : Row) : Text :=
  '|' :: (Text.join ['|'] (row.cells.map fun cell => ' ' :: (cell ++ [' '])) ++ ['|'])

def Row.numbered (n : Nat) (row : Row) : Row :=
  { row with line := n }

def numberTable (n : Nat) (rows : List Row) : List Row :=
  numberAll (fun row => [row.render]) Row.numbered n rows

section Table

variable {row : Row} {rows : List Row}

theorem Row.isLine_render (h : row.WellFormed) : IsLine row.render := by
  have hbar : IsLine ['|'] := by decide
  have hspace : IsLine [' '] := by decide
  refine (@isLine_append_iff ['|'] _).mpr ⟨hbar, ?_⟩
  refine isLine_append_iff.mpr ⟨isLine_join hbar ?_, hbar⟩
  intro padded hpadded
  obtain ⟨cell, hcell, rfl⟩ := List.mem_map.mp hpadded
  refine (@isLine_append_iff [' '] _).mpr ⟨hspace, ?_⟩
  exact isLine_append_iff.mpr ⟨(h.2 cell hcell).1.2, hspace⟩

theorem Row.written_render (n : Nat) (row : Row) : (row.numbered n).Written row.render := by
  refine ⟨[], _, [], nofun, rfl, ?_, rfl⟩
  refine List.forall₂_map_right_iff.mpr (List.forall₂_same.mpr ?_)
  intro cell _
  exact ⟨[' '], [' '], rfl, rfl, rfl⟩

theorem tableWritten_numberTable (n : Nat) (rows : List Row) :
    TableWritten n (rows.map Row.render) (numberTable n rows) := by
  induction rows generalizing n with
  | nil => exact .nil
  | cons row more ih => exact .cons (row.written_render n) rfl (ih (n + 1))

theorem tableWellFormed_numberTable (h : TableWellFormed rows) (n : Nat) :
    TableWellFormed (numberTable n rows) := by
  obtain ⟨hne, hrows, hwidth⟩ := h
  refine ⟨?_, ?_, ?_⟩
  · obtain ⟨row, more, rfl⟩ := List.exists_cons_of_ne_nil hne
    exact List.cons_ne_nil _ _
  · refine forall_mem_numberAll (fun row hrow _ => ?_) n
    exact hrows row hrow
  · refine forall_mem_numberAll (fun row hrow _ => ?_) n
    refine forall_mem_numberAll (fun other hother _ => ?_) n
    exact hwidth row hrow other hother

end Table

namespace Docstring

/-- The mark of three quotes, unless a line of the content would be taken for it. -/
def mark (d : Docstring) : Lead :=
  if ∀ line ∈ Text.pieces '\n' d.content, line.trim ≠ Lead.quotes.text then .quotes else .backticks

/-- No line of the content would close the docstring. -/
def Closable (d : Docstring) : Prop :=
  ∀ line ∈ Text.pieces '\n' d.content, line.trim ≠ d.mark.text

instance (d : Docstring) : Decidable d.Closable :=
  inferInstanceAs (Decidable (∀ line ∈ Text.pieces '\n' d.content, line.trim ≠ d.mark.text))

def render (d : Docstring) : List Text :=
  d.mark.line (d.mediaType.getD []) :: (Text.pieces '\n' d.content ++ [d.mark.line []])

def numbered (n : Nat) (d : Docstring) : Docstring :=
  { d with line := n }

variable {d : Docstring}

theorem written_render (h : d.Closable) (n : Nat) : (d.numbered n).Written n d.render := by
  refine ⟨[], d.mark, _, Text.pieces '\n' d.content, [], _, ?_, d.mark.leadWritten_line _, rfl,
    Text.join_pieces _ _, ?_, d.mark.leadWritten_line [], ?_⟩
  · rw [mark]
    split
    · exact .inl rfl
    · exact .inr rfl
  · exact fun line hline => ⟨Text.not_mem_of_mem_pieces hline, h line hline⟩
  · simp [render, numbered]

theorem isLine_of_mem_render (h : d.WellFormed) : ∀ line ∈ d.render, IsLine line := by
  have hnil : IsLine [] := ⟨nofun, nofun⟩
  have hmediaType : IsLine (d.mediaType.getD []) := by
    cases hd : d.mediaType with
    | none => exact hnil
    | some mediaType => exact (h.1 mediaType hd).2
  refine List.forall_mem_cons.mpr ⟨d.mark.isLine_line hmediaType, ?_⟩
  refine List.forall_mem_append.mpr ⟨fun piece => isLine_of_mem_pieces h.2, ?_⟩
  exact List.forall_mem_singleton.mpr (d.mark.isLine_line hnil)

end Docstring

namespace Argument

def render : Argument → List Text
  | docstring d => d.render
  | table rows => rows.map Row.render

def numbered (n : Nat) : Argument → Argument
  | docstring d => docstring (d.numbered n)
  | table rows => table (numberTable n rows)

end Argument

namespace Step

def render (s : Step) : List Text :=
  (Lead.step s.word).line s.text :: s.argument.elim [] Argument.render

def numbered (n : Nat) (s : Step) : Step :=
  { s with line := n, argument := s.argument.map (Argument.numbered (n + 1)) }

/-- A step with a docstring only if it can be closed. -/
def Closable (s : Step) : Prop :=
  ∀ d ∈ s.docstrings, d.Closable

variable {s : Step}

theorem written_render (h : s.Closable) (n : Nat) : (s.numbered n).Written n s.render := by
  obtain ⟨word, text, line, argument⟩ := s
  refine ⟨[], _, _, Lead.leadWritten_line (.step word) text, rfl, rfl, ?_⟩
  cases argument with
  | none => rfl
  | some argument =>
    refine ⟨[], argument.render, nofun, ?_, rfl⟩
    cases argument with
    | docstring d => exact d.written_render (h d (List.mem_singleton_self d)) (n + 1)
    | table rows => exact tableWritten_numberTable (n + 1) rows

theorem recoverable_numbered (h : s.Recoverable) (n : Nat) : (s.numbered n).Recoverable := by
  obtain ⟨word, text, line, argument⟩ := s
  obtain ⟨⟨htext, hne, hargument⟩, hmedia⟩ := h
  refine ⟨⟨htext, hne, ?_⟩, ?_⟩
  · cases argument with
    | none => exact nofun
    | some argument =>
      rintro _ ⟨⟩
      have hgood := hargument argument rfl
      cases argument with
      | docstring d => exact hgood
      | table rows => exact tableWellFormed_numberTable hgood (n + 1)
  · cases argument with
    | none => exact nofun
    | some argument =>
      cases argument with
      | docstring d =>
        exact List.forall_mem_singleton.mpr (hmedia d (List.mem_singleton_self d))
      | table rows => exact nofun

theorem isLine_of_mem_render (h : s.WellFormed) : ∀ line ∈ s.render, IsLine line := by
  obtain ⟨word, text, line, argument⟩ := s
  obtain ⟨htext, _, hargument⟩ := h
  refine List.forall_mem_cons.mpr ⟨Lead.isLine_line _ htext.2, ?_⟩
  cases argument with
  | none => exact nofun
  | some argument =>
    have hgood := hargument argument rfl
    cases argument with
    | docstring d => exact d.isLine_of_mem_render hgood
    | table rows =>
      exact List.forall_mem_map.mpr fun row hrow => Row.isLine_render (hgood.2.1 row hrow)

end Step

namespace Examples

def render (e : Examples) : List Text :=
  renderTags e.tags ++ (Lead.examples.line e.name :: e.rows.map Row.render)

def numbered (n : Nat) (e : Examples) : Examples :=
  let line := n + (renderTags e.tags).length
  { e with line := line, rows := numberTable (line + 1) e.rows }

variable {e : Examples}

theorem written_render (h : e.WellFormed) (n : Nat) : (e.numbered n).Written n e.render :=
  ⟨_, [], _, [], [], _, tagsWritten_renderTags h.1, Lead.leadWritten_line .examples e.name, rfl,
    .nil, tableWritten_numberTable _ e.rows, rfl⟩

theorem wellFormed_numbered (h : e.WellFormed) (n : Nat) : (e.numbered n).WellFormed :=
  ⟨h.1, h.2.1, tableWellFormed_numberTable h.2.2 _⟩

theorem isLine_of_mem_render (h : e.WellFormed) : ∀ line ∈ e.render, IsLine line := by
  obtain ⟨htags, hname, hrows⟩ := h
  refine List.forall_mem_append.mpr ⟨isLine_of_mem_renderTags htags, ?_⟩
  refine List.forall_mem_cons.mpr ⟨Lead.isLine_line _ hname.2, ?_⟩
  exact List.forall_mem_map.mpr fun row hrow => Row.isLine_render (hrows.2.1 row hrow)

end Examples

namespace Scenario

def render (s : Scenario) : List Text :=
  renderTags s.tags ++ ((Lead.scenario s.word).line s.name ::
    (s.steps.flatMap Step.render ++ s.examples.flatMap Examples.render))

def numbered (n : Nat) (s : Scenario) : Scenario :=
  let line := n + (renderTags s.tags).length
  let behind := line + 1 + (s.steps.flatMap Step.render).length
  { s with
    line := line
    steps := numberAll Step.render Step.numbered (line + 1) s.steps
    examples := numberAll Examples.render Examples.numbered behind s.examples }

variable {s : Scenario}

theorem written_render (h : s.WellFormed) (hsteps : ∀ step ∈ s.steps, step.Closable) (n : Nat) :
    (s.numbered n).Written n s.render := by
  obtain ⟨htags, _, _, hexamples⟩ := h
  have hstepsWritten := seriesWritten_numberAll fun step hstep =>
    Step.written_render (hsteps step hstep)
  have hexamplesWritten := seriesWritten_numberAll fun e he =>
    Examples.written_render (hexamples e he)
  exact ⟨_, [], _, [], [], _, _, tagsWritten_renderTags htags,
    Lead.leadWritten_line (.scenario s.word) s.name, rfl, .nil, hstepsWritten _,
    hexamplesWritten _, rfl⟩

theorem recoverable_numbered (h : s.Recoverable) (n : Nat) : (s.numbered n).Recoverable := by
  obtain ⟨⟨htags, hname, _, hexamples⟩, hsteps⟩ := h
  have hstepsGood : ∀ step ∈ (s.numbered n).steps, step.Recoverable :=
    forall_mem_numberAll (fun step hstep => Step.recoverable_numbered (hsteps step hstep)) _
  refine ⟨⟨htags, hname, fun step hstep => (hstepsGood step hstep).1, ?_⟩, hstepsGood⟩
  exact forall_mem_numberAll (fun e he => Examples.wellFormed_numbered (hexamples e he)) _

theorem isLine_of_mem_render (h : s.WellFormed) : ∀ line ∈ s.render, IsLine line := by
  obtain ⟨htags, hname, hsteps, hexamples⟩ := h
  refine List.forall_mem_append.mpr ⟨isLine_of_mem_renderTags htags, ?_⟩
  refine List.forall_mem_cons.mpr ⟨Lead.isLine_line _ hname.2, ?_⟩
  refine List.forall_mem_append.mpr ⟨?_, ?_⟩
  · refine List.forall_mem_flatMap.mpr fun step hstep => ?_
    exact Step.isLine_of_mem_render (hsteps step hstep)
  · refine List.forall_mem_flatMap.mpr fun e he => ?_
    exact Examples.isLine_of_mem_render (hexamples e he)

end Scenario

namespace Background

def render (b : Background) : List Text :=
  Lead.background.line b.name :: b.steps.flatMap Step.render

def numbered (n : Nat) (b : Background) : Background :=
  { b with line := n, steps := numberAll Step.render Step.numbered (n + 1) b.steps }

variable {b : Background}

theorem written_render (hsteps : ∀ step ∈ b.steps, step.Closable) (n : Nat) :
    (b.numbered n).Written n b.render := by
  have hstepsWritten := seriesWritten_numberAll fun step hstep =>
    Step.written_render (hsteps step hstep)
  exact ⟨[], _, [], [], _, Lead.leadWritten_line .background b.name, rfl, .nil, hstepsWritten _,
    rfl⟩

theorem recoverable_numbered (h : b.Recoverable) (n : Nat) : (b.numbered n).Recoverable := by
  have hstepsGood : ∀ step ∈ (b.numbered n).steps, step.Recoverable :=
    forall_mem_numberAll (fun step hstep => Step.recoverable_numbered (h.2 step hstep)) _
  exact ⟨⟨h.1.1, fun step hstep => (hstepsGood step hstep).1⟩, hstepsGood⟩

theorem isLine_of_mem_render (h : b.WellFormed) : ∀ line ∈ b.render, IsLine line := by
  refine List.forall_mem_cons.mpr ⟨Lead.isLine_line _ h.1.2, ?_⟩
  refine List.forall_mem_flatMap.mpr fun step hstep => ?_
  exact Step.isLine_of_mem_render (h.2 step hstep)

end Background

theorem descriptionWritten_self {texts : List Text} (h : ∀ text ∈ texts, IsDescription text) :
    DescriptionWritten texts texts := by
  induction texts with
  | nil => exact .nil
  | cons text more ih =>
    obtain ⟨htext, hmore⟩ := List.forall_mem_cons.mp h
    have hblank : Text.isBlank [] = true := rfl
    have hwritten := DescriptionWritten.text hblank htext hblank (ih hmore)
    rwa [List.append_nil] at hwritten

namespace Feature

def render (f : Feature) : List Text :=
  renderTags f.tags ++ (Lead.feature.line f.name ::
    (f.description ++ (f.background.toList.flatMap Background.render ++
      f.scenarios.flatMap Scenario.render)))

def numbered (n : Nat) (f : Feature) : Feature :=
  let line := n + (renderTags f.tags).length
  let under := line + 1 + f.description.length
  let behind := under + (f.background.toList.flatMap Background.render).length
  { f with
    line := line
    background := f.background.map (Background.numbered under)
    scenarios := numberAll Scenario.render Scenario.numbered behind f.scenarios }

variable {f : Feature}

theorem forall_mem_steps_iff {P : Step → Prop} : (∀ step ∈ f.steps, P step) ↔
    (∀ b ∈ f.background, ∀ step ∈ b.steps, P step) ∧
      ∀ s ∈ f.scenarios, ∀ step ∈ s.steps, P step := by
  rw [steps, List.forall_mem_append, List.forall_mem_flatMap]
  cases f.background with
  | none => simp
  | some b => simp

theorem written_render (h : f.WellFormed) (hsteps : ∀ step ∈ f.steps, step.Closable) (n : Nat) :
    (f.numbered n).Written n f.render := by
  obtain ⟨htags, _, hdescription, _, hscenarios⟩ := h
  obtain ⟨hunder, hbehind⟩ := forall_mem_steps_iff.mp hsteps
  have hbackground : ∀ m, SeriesWritten Background.Written m
      (f.background.toList.flatMap Background.render)
        (f.background.map (Background.numbered m)).toList := by
    intro m
    cases hb : f.background with
    | none => exact .nil
    | some b =>
      rw [Option.toList_some, List.flatMap_singleton]
      exact .singleton (b.written_render (hunder b hb) m)
  have hscenariosWritten := seriesWritten_numberAll fun s hs =>
    Scenario.written_render (hscenarios s hs) (hbehind s hs)
  exact ⟨_, [], _, f.description, _, _, tagsWritten_renderTags htags,
    Lead.leadWritten_line .feature f.name, rfl, descriptionWritten_self hdescription, hbackground _,
    hscenariosWritten _, rfl⟩

theorem recoverable_numbered (h : f.Recoverable) (n : Nat) : (f.numbered n).Recoverable := by
  obtain ⟨hbackground, hscenarios⟩ := recoverable_of_mem_steps h.1 h.2
  obtain ⟨⟨htags, hname, hdescription, _⟩, _⟩ := h
  have hbackgroundGood : ∀ b ∈ (f.numbered n).background, b.Recoverable := by
    refine Option.forall_mem_map.mpr fun b hb => ?_
    exact Background.recoverable_numbered (hbackground b hb) _
  have hscenariosGood : ∀ s ∈ (f.numbered n).scenarios, s.Recoverable :=
    forall_mem_numberAll (fun s hs => Scenario.recoverable_numbered (hscenarios s hs)) _
  refine ⟨⟨htags, hname, hdescription, fun b hb => (hbackgroundGood b hb).1,
    fun s hs => (hscenariosGood s hs).1⟩, ?_⟩
  refine List.forall_mem_flatMap.mpr (forall_mem_steps_iff.mpr ⟨?_, ?_⟩)
  · exact fun b hb step hstep => ((hbackgroundGood b hb).2 step hstep).2
  · exact fun s hs step hstep => ((hscenariosGood s hs).2 step hstep).2

theorem isLine_of_mem_render (h : f.WellFormed) : ∀ line ∈ f.render, IsLine line := by
  obtain ⟨htags, hname, hdescription, hbackground, hscenarios⟩ := h
  refine List.forall_mem_append.mpr ⟨isLine_of_mem_renderTags htags, ?_⟩
  refine List.forall_mem_cons.mpr ⟨Lead.isLine_line _ hname.2, ?_⟩
  refine List.forall_mem_append.mpr ⟨fun text htext => (hdescription text htext).1.2, ?_⟩
  refine List.forall_mem_append.mpr ⟨?_, ?_⟩
  · refine List.forall_mem_flatMap.mpr fun b hb => ?_
    exact Background.isLine_of_mem_render (hbackground b (Option.mem_toList.mp hb))
  · refine List.forall_mem_flatMap.mpr fun s hs => ?_
    exact Scenario.isLine_of_mem_render (hscenarios s hs)

end Feature

def Document.render (doc : Document) : List Text :=
  doc.feature.elim [] Feature.render

/-- The document with the number of the line of every node if it is rendered. -/
def Document.numbered (doc : Document) : Document :=
  ⟨doc.feature.map (Feature.numbered 1)⟩

variable {doc : Document}

/-- Every well-formed document can be written, if each of its docstrings can be closed. -/
theorem Document.written_render (hgood : doc.WellFormed)
    (hclosable : ∀ d ∈ doc.docstrings, d.Closable) : doc.numbered.Written doc.render := by
  obtain ⟨_ | f⟩ := doc
  · exact ⟨nofun, [], [], .nil, nofun, rfl⟩
  · have hwellFormed : f.WellFormed := hgood f rfl
    have hsteps : ∀ step ∈ f.steps, step.Closable := List.forall_mem_flatMap.mp hclosable
    refine ⟨Feature.isLine_of_mem_render hwellFormed, f.render, [], ?_, nofun, ?_⟩
    · exact .singleton (Feature.written_render hwellFormed hsteps 1)
    · exact (List.append_nil _).symm

/-- What is rendered is read back. -/
theorem parse_render (hgood : doc.WellFormed)
    (hmedia : ∀ d ∈ doc.docstrings, d.mediaType ≠ some [])
    (hclosable : ∀ d ∈ doc.docstrings, d.Closable) :
    parse (Text.unlines doc.render) = .ok doc.numbered := by
  refine parse_unlines_of_recoverable ?_ (Document.written_render hgood hclosable)
  refine Option.forall_mem_map.mpr fun f hf => Feature.recoverable_numbered ⟨hgood f hf, ?_⟩ 1
  rw [Document.docstrings, Option.mem_def.mp hf] at hmedia
  exact hmedia

end ScenarioLint.Gherkin
