import ScenarioLint.Proofs.Gherkin.ExactBlock

/-!
What an accepted file is read as: every line has one use, and the nodes of the document are the lines
that count, one for each and in their order.
-/

namespace ScenarioLint.Gherkin

/-- A node of a document. -/
inductive Node where
  | feature
  | background
  | scenario (word : ScenarioWord)
  | examples
  | step (word : StepWord)
  | docstring
  | row
  deriving DecidableEq, Repr

/-- The node that a line with a lead stands for.  Tags are part of the node below them. -/
def Lead.node? : Lead → Option Node
  | tag => none
  | feature => some .feature
  | background => some .background
  | scenario word => some (.scenario word)
  | examples => some .examples
  | step word => some (.step word)
  | quotes | backticks => some .docstring
  | bar => some .row

/-- The node that a line stands for.  No line inside a docstring stands for one. -/
def Kind.node? : Kind → Option Node
  | lead own => own.node?
  | filler | description | content | closing => none

/-- What a line has to look like for its use. -/
def Kind.Fits : Kind → Text → Prop
  | filler, line => IsFiller line
  | description, line => IsDescriptionLine line
  | content, _ => True
  | closing, line => line.trim ∈ Line.docstringMarks
  | lead own, line => ∃ ind more, own.Opens ind more line

/-- A node with the number of its line. -/
abbrev Mark := Nat × Node

/-- The nodes that lines stand for, where the first line has the number `n`. -/
def marksFrom : (n : Nat) → List Token → List Mark
  | _, [] => []
  | n, token :: rest => (token.1.node?.map (n, ·)).toList ++ marksFrom (n + 1) rest

def Row.marks (row : Row) : List Mark :=
  [(row.line, .row)]

def Argument.marks : Argument → List Mark
  | docstring d => [(d.line, .docstring)]
  | table rows => rows.flatMap Row.marks

def Step.marks (s : Step) : List Mark :=
  (s.line, .step s.word) :: s.argument.toList.flatMap Argument.marks

def Examples.marks (e : Examples) : List Mark :=
  (e.line, .examples) :: e.rows.flatMap Row.marks

def Scenario.marks (s : Scenario) : List Mark :=
  (s.line, .scenario s.word) :: (s.steps.flatMap Step.marks ++ s.examples.flatMap Examples.marks)

def Background.marks (b : Background) : List Mark :=
  (b.line, .background) :: b.steps.flatMap Step.marks

def Feature.marks (f : Feature) : List Mark :=
  (f.line, .feature) ::
    (f.background.toList.flatMap Background.marks ++ f.scenarios.flatMap Scenario.marks)

/-- The nodes of a document in their order. -/
def Document.marks (doc : Document) : List Mark :=
  doc.feature.toList.flatMap Feature.marks

def Step.tables (s : Step) : List (List Row) :=
  match s.argument with
  | some (.table rows) => [rows]
  | _ => []

/-- All tables of a document, those under steps and those of examples. -/
def Document.tables (doc : Document) : List (List Row) :=
  doc.feature.toList.flatMap fun f => f.steps.flatMap Step.tables ++
    f.scenarios.flatMap fun s => s.examples.map Examples.rows

section Marks

variable {n : Nat} {front back tokens : List Token}

theorem marksFrom_append (n : Nat) (front back : List Token) :
    marksFrom n (front ++ back) = marksFrom n front ++ marksFrom (n + front.length) back := by
  induction front generalizing n with
  | nil => rfl
  | cons token front ih =>
    rw [List.cons_append, marksFrom, marksFrom, ih, List.append_assoc, List.length_cons,
      Nat.add_assoc n 1, Nat.add_comm 1]

theorem marksFrom_of_none (h : ∀ token ∈ tokens, token.1.node? = none) (n : Nat) :
    marksFrom n tokens = [] := by
  induction tokens generalizing n with
  | nil => rfl
  | cons token tokens ih =>
    obtain ⟨hfirst, hrest⟩ := List.forall_mem_cons.mp h
    rw [marksFrom, hfirst, ih hrest]
    rfl

theorem mem_marksFrom_iff {mark : Mark} : mark ∈ marksFrom n tokens ↔
    ∃ i token, tokens[i]? = some token ∧ mark.1 = n + i ∧ token.1.node? = some mark.2 := by
  induction tokens generalizing n with
  | nil => simp [marksFrom]
  | cons token tokens ih =>
    rw [marksFrom, List.mem_append, ih]
    constructor
    · rintro (hfirst | ⟨i, other, hother, hline, hnode⟩)
      · obtain ⟨node, hnode, rfl⟩ := Option.map_eq_some_iff.mp (Option.mem_toList.mp hfirst)
        exact ⟨0, token, rfl, rfl, hnode⟩
      · exact ⟨i + 1, other, hother, by omega, hnode⟩
    · rintro ⟨i, other, hother, hline, hnode⟩
      cases i with
      | zero =>
        obtain rfl : token = other := Option.some.inj hother
        refine .inl (Option.mem_toList.mpr (Option.map_eq_some_iff.mpr ⟨mark.2, hnode, ?_⟩))
        rw [← Nat.add_zero n, ← hline]
      | succ i => exact .inr ⟨i, other, hother, by omega, hnode⟩

/-- The numbers of lines strictly increase. -/
theorem pairwise_marksFrom (n : Nat) (tokens : List Token) :
    ((marksFrom n tokens).map Prod.fst).Pairwise (· < ·) := by
  induction tokens generalizing n with
  | nil => exact .nil
  | cons token tokens ih =>
    rw [marksFrom, List.map_append, List.pairwise_append]
    refine ⟨?_, ih (n + 1), ?_⟩
    · cases token.1.node? <;> simp
    · intro a ha b hb
      obtain ⟨mark, hmark, rfl⟩ := List.mem_map.mp hb
      obtain ⟨i, _, _, hline, _⟩ := mem_marksFrom_iff.mp hmark
      cases hnode : token.1.node? with
      | none => simp [hnode] at ha
      | some node =>
        have han : a = n := by simpa [hnode] using ha
        omega

variable {α : Type} {Derived : Nat → List Token → α → Prop} {marks : α → List Mark} {nodes : List α}

theorem marks_of_series (hseries : Series Derived n tokens nodes)
    (h : ∀ n tokens a, Derived n tokens a → marksFrom n tokens = marks a) :
    marksFrom n tokens = nodes.flatMap marks := by
  induction hseries with
  | nil => rfl
  | cons hnode _ ih => rw [marksFrom_append, h _ _ _ hnode, ih, List.flatMap_cons]

theorem marksFrom_fillers (h : Fillers tokens) (n : Nat) : marksFrom n tokens = [] :=
  marksFrom_of_none (fun token htoken => by rw [(h token htoken).1]; rfl) n

theorem marks_of_blocks (hseries : Series (BehindFillers Derived) n tokens nodes)
    (h : ∀ n tokens a, Derived n tokens a → marksFrom n tokens = marks a) :
    marksFrom n tokens = nodes.flatMap marks := by
  refine marks_of_series hseries ?_
  rintro n _ a ⟨fillers, rest, hfillers, hrest, rfl⟩
  rw [marksFrom_append, marksFrom_fillers hfillers, List.nil_append, h _ _ _ hrest]

theorem marksFrom_tags {words : List Text} (h : TagsDerived tokens words) (n : Nat) :
    marksFrom n tokens = [] := by
  induction h generalizing n with
  | nil => rfl
  | cons _ hfillers _ ih =>
    rw [marksFrom, marksFrom_append, marksFrom_fillers hfillers, ih]
    rfl

theorem marksFrom_description {texts : List Text} (h : DescriptionDerived tokens texts) (n : Nat) :
    marksFrom n tokens = [] := by
  induction h generalizing n with
  | nil => rfl
  | filler _ _ ih => exact ih (n + 1)
  | text _ _ ih => exact ih (n + 1)

theorem marksFrom_cons_derived {lead : Lead} {text : Text} {token : Token} {node : Node}
    (h : lead.Derived text token) (hnode : lead.node? = some node) (n : Nat) (rest : List Token) :
    marksFrom n (token :: rest) = (n, node) :: marksFrom (n + 1) rest := by
  rw [marksFrom, (Lead.derived_iff.mp h).1, Kind.node?, hnode]
  rfl

theorem marks_of_row {row : Row} (h : row.Derived n tokens) : marksFrom n tokens = row.marks := by
  obtain ⟨_, _, _, _, _, _, rfl, rfl⟩ := h
  rfl

theorem marks_of_argument {a : Argument} (h : a.Derived n tokens) :
    marksFrom n tokens = a.marks := by
  cases a with
  | docstring d =>
    obtain ⟨lead, _, _, _, body, _, closing, hlead, _, _, _, _, rfl, rfl⟩ := h
    have hinner : marksFrom (n + 1) (body.map (Kind.content, ·) ++ [(.closing, closing)]) = [] := by
      refine marksFrom_of_none (fun token htoken => ?_) _
      rcases List.mem_append.mp htoken with hbody | hclosing
      · obtain ⟨line, _, rfl⟩ := List.mem_map.mp hbody
        rfl
      · rw [List.mem_singleton.mp hclosing]
        rfl
    rw [marksFrom, hinner]
    rcases hlead with rfl | rfl <;> rfl
  | table rows => exact marks_of_series h.2 fun _ _ _ => marks_of_row

theorem marks_of_step {s : Step} (h : s.Derived n tokens) : marksFrom n tokens = s.marks := by
  obtain ⟨token, under, htoken, rfl, hunder, rfl⟩ := h
  rw [marksFrom_cons_derived htoken rfl, Step.marks,
    marks_of_blocks hunder fun _ _ _ => marks_of_argument]

theorem marks_of_examples {e : Examples} (h : e.Derived n tokens) :
    marksFrom n tokens = e.marks := by
  obtain ⟨tags, token, description, _, table, htags, htoken, hline, hdescription, htable, rfl⟩ := h
  rw [marksFrom_append, marksFrom_tags htags, List.nil_append, marksFrom_cons_derived htoken rfl,
    marksFrom_append, marksFrom_description hdescription, List.nil_append, Examples.marks, hline,
    marks_of_series htable.2 fun _ _ _ => marks_of_row]

theorem marks_of_scenario {s : Scenario} (h : s.Derived n tokens) :
    marksFrom n tokens = s.marks := by
  obtain ⟨tags, token, description, _, steps, examples, htags, htoken, hline, hdescription, _,
    hsteps, hexamples, rfl⟩ := h
  rw [marksFrom_append, marksFrom_tags htags, List.nil_append, marksFrom_cons_derived htoken rfl,
    marksFrom_append, marksFrom_description hdescription, List.nil_append, marksFrom_append,
    Scenario.marks, hline, marks_of_blocks hsteps fun _ _ _ => marks_of_step,
    marks_of_blocks hexamples fun _ _ _ => marks_of_examples]

theorem marks_of_background {b : Background} (h : b.Derived n tokens) :
    marksFrom n tokens = b.marks := by
  obtain ⟨token, description, _, steps, htoken, hline, hdescription, _, hsteps, rfl⟩ := h
  rw [marksFrom_cons_derived htoken rfl, marksFrom_append, marksFrom_description hdescription,
    List.nil_append, Background.marks, hline,
    marks_of_blocks hsteps fun _ _ _ => marks_of_step]

theorem marks_of_feature {f : Feature} (h : f.Derived n tokens) : marksFrom n tokens = f.marks := by
  obtain ⟨tags, token, description, background, scenarios, htags, htoken, hline, hdescription, _,
    hbackground, hscenarios, rfl⟩ := h
  rw [marksFrom_append, marksFrom_tags htags, List.nil_append, marksFrom_cons_derived htoken rfl,
    marksFrom_append, marksFrom_description hdescription, List.nil_append, marksFrom_append,
    Feature.marks, hline, marks_of_blocks hbackground fun _ _ _ => marks_of_background,
    marks_of_blocks hscenarios fun _ _ _ => marks_of_scenario]

/-- The nodes of a document are the lines that count. -/
theorem Document.Derived.marks_eq {doc : Document} (h : doc.Derived tokens) :
    doc.marks = marksFrom 1 tokens := by
  obtain ⟨body, trailing, hbody, htrailing, rfl⟩ := h
  rw [marksFrom_append, marksFrom_fillers htrailing, List.append_nil,
    marks_of_blocks hbody fun _ _ _ => marks_of_feature, Document.marks]

end Marks

section Fits

variable {n : Nat} {tokens : List Token}

/-- All lines look like what they are used as. -/
def AllFit (tokens : List Token) : Prop :=
  ∀ token ∈ tokens, token.1.Fits token.2

theorem allFit_append_iff {front back : List Token} :
    AllFit (front ++ back) ↔ AllFit front ∧ AllFit back :=
  List.forall_mem_append

theorem allFit_cons_iff {token : Token} :
    AllFit (token :: tokens) ↔ token.1.Fits token.2 ∧ AllFit tokens :=
  List.forall_mem_cons

theorem allFit_nil : AllFit [] := by
  simp [AllFit]

theorem allFit_fillers (h : Fillers tokens) : AllFit tokens := by
  rintro ⟨kind, line⟩ htoken
  obtain ⟨rfl, hline⟩ := h _ htoken
  exact hline

theorem allFit_tags {words : List Text} (h : TagsDerived tokens words) : AllFit tokens := by
  induction h with
  | nil => exact allFit_nil
  | cons hline hfillers _ ih =>
    exact allFit_cons_iff.mpr ⟨⟨_, _, hline⟩, allFit_append_iff.mpr ⟨allFit_fillers hfillers, ih⟩⟩

theorem allFit_description {texts : List Text} (h : DescriptionDerived tokens texts) :
    AllFit tokens := by
  induction h with
  | nil => exact allFit_nil
  | filler hline _ ih => exact allFit_cons_iff.mpr ⟨hline, ih⟩
  | text hline _ ih => exact allFit_cons_iff.mpr ⟨hline, ih⟩

theorem fits_of_derived {lead : Lead} {text : Text} {token : Token} (h : lead.Derived text token) :
    token.1.Fits token.2 := by
  obtain ⟨ind, more, line, hopens, _, rfl⟩ := h
  exact ⟨ind, more, hopens⟩

variable {α : Type} {Derived : Nat → List Token → α → Prop} {nodes : List α}

theorem allFit_series (hseries : Series Derived n tokens nodes)
    (h : ∀ n tokens a, Derived n tokens a → AllFit tokens) : AllFit tokens := by
  induction hseries with
  | nil => exact allFit_nil
  | cons hnode _ ih => exact allFit_append_iff.mpr ⟨h _ _ _ hnode, ih⟩

theorem allFit_blocks (hseries : Series (BehindFillers Derived) n tokens nodes)
    (h : ∀ n tokens a, Derived n tokens a → AllFit tokens) : AllFit tokens := by
  refine allFit_series hseries ?_
  rintro n _ a ⟨fillers, rest, hfillers, hrest, rfl⟩
  exact allFit_append_iff.mpr ⟨allFit_fillers hfillers, h _ _ _ hrest⟩

theorem allFit_row {row : Row} (h : row.Derived n tokens) : AllFit tokens := by
  obtain ⟨ind, _, _, _, hopens, _, _, rfl⟩ := h
  exact allFit_cons_iff.mpr ⟨⟨ind, _, hopens⟩, allFit_nil⟩

theorem allFit_argument {a : Argument} (h : a.Derived n tokens) : AllFit tokens := by
  cases a with
  | docstring d =>
    obtain ⟨lead, ind, more, _, body, _, closing, hlead, hopens, _, hclosing, _, _, rfl⟩ := h
    refine allFit_cons_iff.mpr ⟨⟨ind, more, hopens⟩, allFit_append_iff.mpr ⟨?_, ?_⟩⟩
    · intro token htoken
      obtain ⟨line, _, rfl⟩ := List.mem_map.mp htoken
      exact trivial
    · refine allFit_cons_iff.mpr ⟨?_, allFit_nil⟩
      have hmark : lead.text ∈ Line.docstringMarks := by
        rcases hlead with rfl | rfl <;> decide
      exact (congrArg (· ∈ Line.docstringMarks) hclosing).mpr hmark
  | table rows => exact allFit_series h.2 fun _ _ _ => allFit_row

theorem allFit_step {s : Step} (h : s.Derived n tokens) : AllFit tokens := by
  obtain ⟨token, under, htoken, _, hunder, rfl⟩ := h
  exact allFit_cons_iff.mpr
    ⟨fits_of_derived htoken, allFit_blocks hunder fun _ _ _ => allFit_argument⟩

theorem allFit_examples {e : Examples} (h : e.Derived n tokens) : AllFit tokens := by
  obtain ⟨tags, token, description, _, table, htags, htoken, _, hdescription, htable, rfl⟩ := h
  exact allFit_append_iff.mpr ⟨allFit_tags htags, allFit_cons_iff.mpr ⟨fits_of_derived htoken,
    allFit_append_iff.mpr ⟨allFit_description hdescription,
      allFit_series htable.2 fun _ _ _ => allFit_row⟩⟩⟩

theorem allFit_scenario {s : Scenario} (h : s.Derived n tokens) : AllFit tokens := by
  obtain ⟨tags, token, description, _, steps, examples, htags, htoken, _, hdescription, _, hsteps,
    hexamples, rfl⟩ := h
  exact allFit_append_iff.mpr ⟨allFit_tags htags, allFit_cons_iff.mpr ⟨fits_of_derived htoken,
    allFit_append_iff.mpr ⟨allFit_description hdescription, allFit_append_iff.mpr
      ⟨allFit_blocks hsteps fun _ _ _ => allFit_step,
        allFit_blocks hexamples fun _ _ _ => allFit_examples⟩⟩⟩⟩

theorem allFit_background {b : Background} (h : b.Derived n tokens) : AllFit tokens := by
  obtain ⟨token, description, _, steps, htoken, _, hdescription, _, hsteps, rfl⟩ := h
  exact allFit_cons_iff.mpr ⟨fits_of_derived htoken, allFit_append_iff.mpr
    ⟨allFit_description hdescription, allFit_blocks hsteps fun _ _ _ => allFit_step⟩⟩

theorem allFit_feature {f : Feature} (h : f.Derived n tokens) : AllFit tokens := by
  obtain ⟨tags, token, description, background, scenarios, htags, htoken, _, hdescription, _,
    hbackground, hscenarios, rfl⟩ := h
  exact allFit_append_iff.mpr ⟨allFit_tags htags, allFit_cons_iff.mpr ⟨fits_of_derived htoken,
    allFit_append_iff.mpr ⟨allFit_description hdescription, allFit_append_iff.mpr
      ⟨allFit_blocks hbackground fun _ _ _ => allFit_background,
        allFit_blocks hscenarios fun _ _ _ => allFit_scenario⟩⟩⟩⟩

theorem Document.Derived.allFit {doc : Document} (h : doc.Derived tokens) : AllFit tokens := by
  obtain ⟨body, trailing, hbody, htrailing, rfl⟩ := h
  exact allFit_append_iff.mpr
    ⟨allFit_blocks hbody fun _ _ _ => allFit_feature, allFit_fillers htrailing⟩

end Fits

section Tables

variable {n : Nat} {tokens : List Token} {α : Type} {Derived : Nat → List Token → α → Prop}
  {nodes : List α}

/-- What holds of every node that is derived holds of the nodes of a series. -/
theorem forall_of_blocks {P : α → Prop} (hseries : Series (BehindFillers Derived) n tokens nodes)
    (h : ∀ n tokens a, Derived n tokens a → P a) : ∀ a ∈ nodes, P a := by
  induction hseries with
  | nil => simp
  | cons hnode _ ih =>
    obtain ⟨fillers, rest, _, hrest, _⟩ := hnode
    exact List.forall_mem_cons.mpr ⟨h _ _ _ hrest, ih⟩

theorem isTable_of_step {s : Step} (h : s.Derived n tokens) : ∀ rows ∈ s.tables, IsTable rows := by
  obtain ⟨token, under, _, _, hunder, _⟩ := h
  have harguments := forall_of_blocks (P := fun a => ∀ rows, a = .table rows → IsTable rows) hunder
    (by rintro n tokens a hderived rows rfl; exact hderived.1)
  intro rows hrows
  rw [Step.tables] at hrows
  split at hrows
  · rename_i found hfound
    obtain rfl := List.mem_singleton.mp hrows
    exact harguments _ (by rw [hfound]; exact List.mem_cons_self) rows rfl
  · cases hrows

theorem Document.Derived.isTable {doc : Document} (h : doc.Derived tokens) :
    ∀ rows ∈ doc.tables, IsTable rows := by
  obtain ⟨body, trailing, hbody, _, _⟩ := h
  intro rows hrows
  obtain ⟨f, hf, hrows⟩ := List.mem_flatMap.mp hrows
  have hfeature := forall_of_blocks (P := fun f => ∃ n tokens, f.Derived n tokens) hbody
    (fun n tokens _ hderived => ⟨n, tokens, hderived⟩) f hf
  obtain ⟨_, _, _, _, _, background, scenarios, _, _, _, _, _, hbackground, hscenarios, _⟩ := hfeature
  have hsteps : ∀ b ∈ f.background.toList, ∀ s ∈ b.steps, ∀ rows ∈ s.tables, IsTable rows :=
    forall_of_blocks hbackground fun n tokens b hb => by
      obtain ⟨_, _, _, _, _, _, _, _, hsteps, _⟩ := hb
      exact forall_of_blocks hsteps fun _ _ _ => isTable_of_step
  have hscenario : ∀ c ∈ f.scenarios, (∀ s ∈ c.steps, ∀ rows ∈ s.tables, IsTable rows) ∧
      ∀ e ∈ c.examples, IsTable e.rows :=
    forall_of_blocks hscenarios fun n tokens c hc => by
      obtain ⟨_, _, _, _, _, _, _, _, _, _, _, hsteps, hexamples, _⟩ := hc
      refine ⟨forall_of_blocks hsteps fun _ _ _ => isTable_of_step,
        forall_of_blocks hexamples fun n tokens e he => ?_⟩
      obtain ⟨_, _, _, _, _, _, _, _, _, htable, _⟩ := he
      exact htable.1
  rcases List.mem_append.mp hrows with hrows | hrows
  · obtain ⟨s, hs, hrows⟩ := List.mem_flatMap.mp hrows
    rcases List.mem_append.mp hs with hs | hs
    · cases hfound : f.background with
      | none =>
        rw [hfound] at hs
        cases hs
      | some b =>
        rw [hfound] at hs
        exact hsteps b (by rw [hfound]; exact List.mem_cons_self) s hs rows hrows
    · obtain ⟨c, hc, hs⟩ := List.mem_flatMap.mp hs
      exact (hscenario c hc).1 s hs rows hrows
  · obtain ⟨c, hc, hrows⟩ := List.mem_flatMap.mp hrows
    obtain ⟨e, he, rfl⟩ := List.mem_map.mp hrows
    exact (hscenario c hc).2 e he

end Tables

/-- The lines of an accepted text have one use each, and the document is derived from them.  Its
    nodes are the lines that count, tags apart, in the order of the file, and every node has the
    number of its line.  No line inside a docstring stands for a node, and tables are tables. -/
theorem exists_derivation_of_parse {text : Text} {doc : Document} (h : parse text = .ok doc) :
    ∃ tokens : List Token, Line.all text = tokens.map (some ·.2) ∧
      (∀ token ∈ tokens, token.1.Fits token.2) ∧ doc.Derived tokens ∧
      doc.marks = marksFrom 1 tokens ∧ (doc.marks.map Prod.fst).Pairwise (· < ·) ∧
      (∀ number node, (number, node) ∈ doc.marks ↔ ∃ i lead ind more line, number = i + 1 ∧
        tokens[i]? = some (.lead lead, line) ∧ lead.Opens ind more line ∧
        lead.node? = some node) ∧
      ∀ rows ∈ doc.tables, IsTable rows := by
  obtain ⟨tokens, hlines, hderived⟩ := parse_eq_ok_iff.mp h
  have hmarks := hderived.marks_eq
  refine ⟨tokens, hlines, hderived.allFit, hderived, hmarks, ?_, ?_, hderived.isTable⟩
  · rw [hmarks]
    exact pairwise_marksFrom 1 tokens
  · intro number node
    rw [hmarks, mem_marksFrom_iff]
    constructor
    · rintro ⟨i, ⟨kind, line⟩, htoken, hnumber, hnode⟩
      cases kind with
      | lead lead =>
        obtain ⟨ind, more, hopens⟩ := hderived.allFit _ (List.mem_of_getElem? htoken)
        exact ⟨i, lead, ind, more, line, hnumber.trans (Nat.add_comm 1 i), htoken, hopens, hnode⟩
      | _ => cases hnode
    · rintro ⟨i, lead, _, _, line, hnumber, htoken, _, hnode⟩
      exact ⟨i, _, htoken, hnumber.trans (Nat.add_comm i 1), hnode⟩

/-- A document with a docstring of which one line lacks the indentation. -/
def shortDocstring : Document :=
  ⟨some ⟨["@a".toList, "@b".toList], "F".toList, [], 2, none, [⟨[], .scenario, "s".toList, 3,
    [⟨.given, "x".toList, 4, some (.docstring ⟨some "json".toList, "  a\nb".toList, 5⟩)⟩], []⟩]⟩⟩

/-- The lines that it is read off, with their use. -/
def shortDocstringTokens : List Token :=
  [(.lead .tag, "@a @b".toList), (.lead .feature, "Feature: F".toList),
    (.lead (.scenario .scenario), "Scenario: s".toList), (.lead (.step .given), "Given x".toList),
    (.lead .quotes, "  \"\"\"json".toList), (.content, "    a".toList), (.content, " b".toList),
    (.closing, "  \"\"\"".toList)]

private theorem shortDocstring_derived : shortDocstring.Derived shortDocstringTokens := by
  have hdocstring : Docstring.Derived 5 (shortDocstringTokens.drop 4)
      ⟨some "json".toList, "  a\nb".toList, 5⟩ := by
    refine ⟨.quotes, "  ".toList, "json".toList, _, _, ["  a".toList, "b".toList], _, .inl rfl,
      ⟨by decide, rfl⟩, by decide, rfl, .cons (.removed "  a".toList) (.cons ?_ .nil), rfl, rfl⟩
    exact @Unindented.lacking "  ".toList " b".toList (by decide)
  have hblock : ∀ {α : Type} {Derived : Nat → List Token → α → Prop} {n : Nat}
      {tokens : List Token} {a : α}, Derived n tokens a →
      Series (BehindFillers Derived) n tokens [a] := by
    intro α Derived n tokens a h
    have hnode : BehindFillers Derived n tokens a := ⟨[], tokens, fillers_nil, h, rfl⟩
    have hseries := Series.cons hnode .nil
    rwa [List.append_nil] at hseries
  have htoken : ∀ {lead : Lead} (gap : Text) {text line : Text}, line = lead.text ++ (gap ++ text) →
      gap.isBlank = true → text.trim = text → lead.Derived text (.lead lead, line) := by
    rintro lead gap text _ rfl hgap htext
    have htrim := Text.trim_append hgap htext (rfl : Text.isBlank [] = true)
    rw [List.append_nil] at htrim
    exact ⟨[], _, _, ⟨by simp [IsIndentation], rfl⟩, htrim.symm, rfl⟩
  have hplain : ∀ {kind : Kind} {line : Text} {rest : List Token},
      Line.isIgnorable (some line) = false → Line.description? (some line) = none →
      StartsPlainly ((kind, line) :: rest) := by
    intro kind line rest hignorable hdescription token htoken
    obtain rfl : (kind, line) = token := Option.some.inj htoken
    rw [isFiller_iff, isDescriptionLine_iff, hignorable, hdescription]
    simp
  have hstep : Step.Derived 4 (shortDocstringTokens.drop 3)
      ⟨.given, "x".toList, 4, some (.docstring ⟨some "json".toList, "  a\nb".toList, 5⟩)⟩ :=
    ⟨_, _, htoken [] rfl rfl rfl, rfl, hblock hdocstring, rfl⟩
  have hscenario : Scenario.Derived 3 (shortDocstringTokens.drop 2) ⟨[], .scenario, "s".toList, 3,
      [⟨.given, "x".toList, 4, some (.docstring ⟨some "json".toList, "  a\nb".toList, 5⟩)⟩], []⟩ :=
    ⟨[], _, [], [], _, [], .nil, htoken [' '] rfl rfl rfl, rfl, .nil, hplain rfl rfl, hblock hstep,
      .nil, rfl⟩
  have htags : TagsDerived [(.lead .tag, "@a @b".toList)] ["@a".toList, "@b".toList] :=
    @TagsDerived.cons [] "a @b".toList _ [] _ _ ⟨by decide, rfl⟩ fillers_nil .nil
  have hfeature : Feature.Derived 1 shortDocstringTokens ⟨["@a".toList, "@b".toList], "F".toList, [],
      2, none, [_]⟩ :=
    ⟨_, _, [], [], _, htags, htoken [' '] rfl rfl rfl, rfl, .nil, hplain rfl rfl, .nil,
      hblock hscenario, rfl⟩
  exact ⟨_, [], hblock hfeature, fillers_nil, rfl⟩

/-- The line that lacks the indentation loses its white space, and nothing else is read off the
    docstring. -/
theorem exists_derivation_short_docstring :
    let text := Text.unlines (shortDocstringTokens.map Prod.snd)
    parse text = .ok shortDocstring ∧ ∃ tokens : List Token,
      Line.all text = tokens.map (some ·.2) ∧ shortDocstring.Derived tokens ∧
      shortDocstring.marks = marksFrom 1 tokens ∧
      shortDocstring.marks.map Prod.fst = [2, 3, 4, 5] := by
  intro text
  have hparse : parse text = .ok shortDocstring :=
    parse_eq_ok_iff.mpr ⟨shortDocstringTokens, by decide +kernel, shortDocstring_derived⟩
  obtain ⟨tokens, hlines, _, hderived, hmarks, _⟩ := exists_derivation_of_parse hparse
  exact ⟨hparse, tokens, hlines, hderived, hmarks, rfl⟩

end ScenarioLint.Gherkin
