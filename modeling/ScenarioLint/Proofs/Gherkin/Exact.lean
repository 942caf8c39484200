import ScenarioLint.Proofs.Gherkin.Reading

/-!
The readers take exactly the lines that their nodes are derived from.

A reader ends where it does because what could have followed does not: every node says what has been
asked for behind it, and the reply is done at the places that are without it.
-/

namespace ScenarioLint.Gherkin

/-- What can follow a node and belong to it. -/
inductive Ask where
  | description
  | argument
  | row
  | step
  | examples
  | background
  | scenario
  deriving DecidableEq, Repr

/-- A line with the lead, or the tags above it, may be what has been asked for. -/
def Ask.heeds : Ask → Lead → Bool
  | description, _ => true
  | argument, lead => lead.isArgument
  | row, lead => lead == .bar
  | step, .step _ => true
  | examples, lead => lead == .examples
  | background, lead => lead == .background
  | scenario, .scenario _ => true
  | _, _ => false

namespace Place

/-- What has been asked for is not here. -/
def Without (q : Place) : Ask → Prop
  | .description => q.CountsPlainly
  | .argument => q.behindIgnorable argument = .pass
  | .row => q.row = .pass
  | .step => q.behindIgnorable step = .pass
  | .examples => q.behindIgnorable examples = .pass
  | .background => q.behindIgnorable background = .pass
  | .scenario => q.behindIgnorable scenario = .pass

end Place

/-- What is asked for behind an argument. -/
def Argument.asks : Argument → List Ask
  | docstring _ => []
  | table _ => [.row]

/-- What is asked for behind a step. -/
def Step.asks (s : Step) : List Ask :=
  s.argument.elim [.argument] Argument.asks

/-- What is asked for behind the steps under a header. -/
def asksUnder (steps : List Step) : List Ask :=
  .step :: steps.getLast?.elim [.description] Step.asks

/-- What is asked for behind a scenario. -/
def Scenario.asks (s : Scenario) : List Ask :=
  .examples :: if s.examples = [] then asksUnder s.steps else [.row]

/-- What is asked for behind a feature. -/
def Feature.asks (f : Feature) : List Ask :=
  .scenario :: f.scenarios.getLast?.elim
    (f.background.elim [.description, .background] fun b => asksUnder b.steps) Scenario.asks

namespace Place

variable {p q : Place} {token : Token} {tokens : List Token}

section Table

theorem row?_none : Line.row? none = none :=
  rfl

theorem row?_eq_some_iff {line more : Text} : Line.row? (some line) = some more ↔
    Line.lead? (some line) = some (.bar, more) := by
  rw [Line.row?_eq]
  constructor
  · exact Line.lead?_of_behind?
  · intro h
    rw [Line.behind?_of_lead? h, if_pos rfl]

/-- What ends with a bar and white space behind it. -/
theorem getLast?_trimEnd_eq_bar_iff {text inner : Text} :
    text.trimEnd.getLast? = some '|' ∧ inner = text.trimEnd.dropLast ↔
      ∃ trail : Text, trail.isBlank = true ∧ text = inner ++ '|' :: trail := by
  constructor
  · rintro ⟨hlast, rfl⟩
    obtain ⟨trail, htrail, hblank⟩ := Text.exists_trimEnd_append text
    refine ⟨trail, hblank, ?_⟩
    have hsplit := List.dropLast_append_getLast? '|' hlast
    rw [List.append_cons, hsplit]
    exact htrail
  · rintro ⟨trail, hblank, rfl⟩
    have htrim : Text.trimEnd (inner ++ '|' :: trail) = inner ++ ['|'] := by
      rw [List.append_cons]
      apply Text.trimEnd_append_of_getLast hblank
      intro c hc
      rw [List.getLast?_concat] at hc
      exact Option.some.inj hc ▸ rfl
    rw [htrim]
    exact ⟨List.getLast?_concat, List.dropLast_concat.symm⟩

theorem row_eq_done_iff {row : Row} :
    p.row = .done row q ↔ ∃ tokens, p.Spans tokens q ∧ row.Derived p.line tokens := by
  rw [Place.row, Reply.bind_eq_done_iff]
  constructor
  · rintro ⟨text, next, htake, hrow⟩
    obtain ⟨line, hspans, htext⟩ :=
      (take_eq_done_iff_spans row?_none fun _ => .lead .bar).mp htake
    dsimp only at hrow
    split at hrow
    · rename_i hlast
      cases hrow
      obtain ⟨trail, hblank, hsplit⟩ := getLast?_trimEnd_eq_bar_iff.mp ⟨hlast, rfl⟩
      have hopens := Lead.opens_of_lead? (row?_eq_some_iff.mp htext)
      rw [hsplit] at hopens
      exact ⟨_, hspans, _, _, trail, line, hopens, hblank, rfl, rfl⟩
    · cases hrow
  · rintro ⟨_, hspans, ind, inner, trail, line, hopens, hblank, rfl, rfl⟩
    obtain ⟨hlast, hinner⟩ := getLast?_trimEnd_eq_bar_iff.mpr ⟨trail, hblank, rfl⟩
    refine ⟨inner ++ '|' :: trail, q, ?_, ?_⟩
    · rw [take_eq_done_iff_spans row?_none fun _ => .lead .bar]
      exact ⟨line, hspans, row?_eq_some_iff.mpr hopens.lead?_eq⟩
    · dsimp only
      rw [if_pos hlast, ← hinner]

theorem rowOfWidth_eq_done_iff {width : Nat} {row : Row} : p.rowOfWidth width = .done row q ↔
    p.row = .done row q ∧ row.cells.length = width := by
  rw [rowOfWidth, Reply.bind_eq_done_iff]
  constructor
  · rintro ⟨other, next, hrow, hwidth⟩
    split at hwidth
    · rename_i hlength
      cases hwidth
      exact ⟨hrow, hlength⟩
    · cases hwidth
  · rintro ⟨hrow, hwidth⟩
    exact ⟨row, q, hrow, by rw [if_pos hwidth]⟩

theorem rowOfWidth_eq_pass_iff {width : Nat} : p.rowOfWidth width = .pass ↔ p.row = .pass := by
  rw [rowOfWidth, Reply.bind_eq_pass_iff]
  refine ⟨fun h => h.resolve_right ?_, .inl⟩
  rintro ⟨row, next, _, hpass⟩
  split at hpass <;> cases hpass

theorem exact_rowOfWidth (width : Nat) : Exact (rowOfWidth width)
    (fun n tokens row => row.Derived n tokens ∧ row.cells.length = width) fun _ _ => True where
  done_iff := by
    intro p q row
    rw [rowOfWidth_eq_done_iff, row_eq_done_iff]
    constructor
    · rintro ⟨⟨tokens, hspans, hderived⟩, hwidth⟩
      exact ⟨tokens, hspans, ⟨hderived, hwidth⟩, trivial⟩
    · rintro ⟨tokens, hspans, ⟨hderived, hwidth⟩, _⟩
      exact ⟨⟨tokens, hspans, hderived⟩, hwidth⟩
  ne_nil := by
    rintro n tokens row ⟨⟨_, _, _, _, _, _, _, rfl⟩, _⟩
    simp

theorem series_and_iff {α : Type} {Derived : Nat → List Token → α → Prop} {P : α → Prop} {n : Nat}
    {nodes : List α} : Series (fun n tokens node => Derived n tokens node ∧ P node) n tokens nodes ↔
      Series Derived n tokens nodes ∧ ∀ node ∈ nodes, P node := by
  constructor
  · intro h
    induction h with
    | nil => exact ⟨.nil, by simp⟩
    | cons hnode _ ih => exact ⟨.cons hnode.1 ih.1, List.forall_mem_cons.mpr ⟨hnode.2, ih.2⟩⟩
  · rintro ⟨h, hall⟩
    induction h with
    | nil => exact .nil
    | cons hnode _ ih =>
      obtain ⟨hhead, htail⟩ := List.forall_mem_cons.mp hall
      exact .cons ⟨hnode, hhead⟩ (ih htail)

theorem isTable_cons_iff {row : Row} {rows : List Row} :
    IsTable (row :: rows) ↔ ∀ other ∈ rows, other.cells.length = row.cells.length := by
  constructor
  · rintro ⟨_, hwidth⟩ other hother
    exact hwidth other (List.mem_cons_of_mem _ hother) row List.mem_cons_self
  · intro hwidth
    have hall : ∀ other ∈ row :: rows, other.cells.length = row.cells.length :=
      List.forall_mem_cons.mpr ⟨rfl, hwidth⟩
    refine ⟨by simp, fun one hone other hother => ?_⟩
    rw [hall one hone, hall other hother]

theorem table_eq_done_iff {rows : List Row} : p.table = .done rows q ↔
    ∃ tokens, p.Spans tokens q ∧ TableDerived p.line tokens rows ∧ q.row = .pass := by
  have hmany : ∀ {width : Nat} {next : Place} {rows : List Row},
      next.many (rowOfWidth width) = .done rows q ↔ ∃ tokens, next.Spans tokens q ∧
        (Series Row.Derived next.line tokens rows ∧ ∀ row ∈ rows, row.cells.length = width) ∧
        q.row = .pass := by
    intro width next rows
    rw [many_eq_done_iff, (exact_rowOfWidth width).repeats_iff (fun _ _ => trivial)]
    simp only [series_and_iff, rowOfWidth_eq_pass_iff, implies_true, and_true]
  rw [table, Reply.bind_eq_done_iff]
  simp only [Reply.map_eq_done_iff, hmany, row_eq_done_iff]
  constructor
  · rintro ⟨first, next, ⟨front, hfront, hderived⟩, rest, ⟨more, hmore, ⟨hseries, hwidth⟩, hpass⟩, rfl⟩
    rw [hfront.line_eq] at hseries
    exact ⟨front ++ more, hfront.trans hmore,
      ⟨isTable_cons_iff.mpr hwidth, .cons hderived hseries⟩, hpass⟩
  · rintro ⟨tokens, hspans, ⟨htable, hseries⟩, hpass⟩
    cases hseries with
    | nil => exact absurd rfl htable.1
    | @cons _ front more first rest hderived hseries =>
      obtain ⟨next, hfront, hmore⟩ := spans_append_iff.mp hspans
      rw [← hfront.line_eq] at hseries
      exact ⟨first, next, ⟨front, hfront, hderived⟩, rest,
        ⟨more, hmore, ⟨hseries, isTable_cons_iff.mp htable⟩, hpass⟩, rfl⟩

end Table

section Docstring

theorem unindented_iff {ind line left : Text} :
    Unindented ind line left ↔ unindent ind line = left := by
  rw [unindent]
  constructor
  · rintro (_ | hlacking)
    · rw [Text.after?_eq_some_iff.mpr rfl, Option.getD_some]
    · have hnone : Text.after? ind line = none := by
        rw [Option.eq_none_iff_forall_not_mem]
        intro rest hrest
        exact hlacking ⟨rest, (Text.after?_eq_some_iff.mp hrest).symm⟩
      rw [hnone, Option.getD_none]
  · rintro rfl
    cases hafter : Text.after? ind line with
    | some rest =>
      cases Text.after?_eq_some_iff.mp hafter
      exact .removed rest
    | none =>
      refine .lacking ?_
      rintro ⟨rest, hrest⟩
      rw [Text.after?_eq_some_iff.mpr hrest.symm] at hafter
      cases hafter

theorem docstringBody_eq_done_iff {start n : Nat} {o : Line.Opening} {lines : List Line}
    {content : List Text} : docstringBody start o n lines = .done content q ↔
      ∃ body closing, (Place.mk n lines).Spans
          (body.map (Kind.content, ·) ++ [(.closing, closing)]) q ∧
        (∀ line ∈ body, line.trim ≠ o.mark) ∧ closing.trim = o.mark ∧
        List.Forall₂ (Unindented o.indent) body content := by
  constructor
  · intro h
    induction lines generalizing n content with
    | nil => cases h
    | cons line rest ih =>
      cases line with
      | none => cases h
      | some line =>
        rw [docstringBody] at h
        split at h
        · rename_i hclosing
          cases h
          exact ⟨[], line, ⟨rfl, rfl⟩, by simp, hclosing, .nil⟩
        · rename_i hline
          obtain ⟨more, hmore, rfl⟩ := Reply.map_eq_done_iff.mp h
          obtain ⟨body, closing, hspans, hbody, hclosing, hcontent⟩ := ih hmore
          refine ⟨line :: body, closing, ?_, List.forall_mem_cons.mpr ⟨hline, hbody⟩, hclosing,
            .cons (unindented_iff.mpr rfl) hcontent⟩
          exact spans_cons_iff.mpr ⟨⟨n + 1, rest⟩, ⟨rfl, rfl⟩, hspans⟩
  · rintro ⟨body, closing, hspans, hbody, hclosing, hcontent⟩
    induction hcontent generalizing n lines with
    | nil =>
      obtain ⟨m, rest⟩ := q
      obtain ⟨hrest, hline⟩ := hspans
      obtain rfl : lines = some closing :: rest := hrest
      obtain rfl : m = n + 1 := hline
      rw [docstringBody, if_pos hclosing]
    | @cons line left body content hline _ ih =>
      obtain ⟨⟨m, rest⟩, ⟨hrest, hnext⟩, hspans⟩ := spans_cons_iff.mp hspans
      obtain rfl : lines = some line :: rest := hrest
      obtain rfl : m = n + 1 := hnext
      obtain ⟨hhead, htail⟩ := List.forall_mem_cons.mp hbody
      rw [docstringBody, if_neg hhead, unindented_iff.mp hline, Reply.map_eq_done_iff]
      exact ⟨content, ih hspans htail, rfl⟩

/-- A docstring opens with a mark. -/
theorem opening?_eq_some_iff_opens {line : Text} {o : Line.Opening} :
    Line.opening? (some line) = some o ↔ ∃ lead : Lead, (lead = .quotes ∨ lead = .backticks) ∧
      lead.Opens o.indent o.rest line ∧ o.mark = lead.text := by
  rw [Line.opening?_eq_some_iff]
  constructor
  · rintro ⟨lead, hlead, hread, hindent, hmark⟩
    exact ⟨lead, hlead, hindent ▸ Lead.opens_of_lead? hread, hmark⟩
  · rintro ⟨lead, hlead, hopens, hmark⟩
    exact ⟨lead, hlead, hopens.lead?_eq, hopens.indent_eq.symm, hmark⟩

theorem docstring_eq_done_iff {d : Docstring} :
    p.docstring = .done d q ↔ ∃ tokens, p.Spans tokens q ∧ d.Derived p.line tokens := by
  rw [docstring, Reply.bind_eq_done_iff]
  simp only [Reply.map_eq_done_iff, docstringBody_eq_done_iff]
  constructor
  · rintro ⟨o, next, htake, content, ⟨body, closing, hspans, hbody, hclosing, hcontent⟩, rfl⟩
    obtain ⟨line, rest, hrest, ho, rfl⟩ := take_eq_done_iff.mp htake
    cases line with
    | none => cases ho
    | some line =>
      obtain ⟨lead, hlead, hopens, hmark⟩ := opening?_eq_some_iff_opens.mp ho
      rw [hmark] at hbody hclosing
      have hfront : p.Spans [(.lead lead, line)] ⟨p.line + 1, rest⟩ := ⟨hrest, rfl⟩
      refine ⟨_, spans_cons_iff.mpr ⟨_, hfront, hspans⟩, lead, o.indent, o.rest, line, body,
        content, closing, hlead, hopens, hbody, hclosing, hcontent, ?_, rfl⟩
      simp only [List.isEmpty_iff]
  · rintro ⟨_, hspans, lead, ind, more, line, body, content, closing, hlead, hopens, hbody,
      hclosing, hcontent, rfl, rfl⟩
    obtain ⟨next, hfront, hback⟩ := spans_cons_iff.mp hspans
    refine ⟨⟨ind, lead.text, more⟩, next, ?_, content,
      ⟨body, closing, hback, hbody, hclosing, hcontent⟩, ?_⟩
    · rw [take_eq_done_iff_spans rfl fun _ => .lead lead]
      exact ⟨line, hfront, opening?_eq_some_iff_opens.mpr ⟨lead, hlead, hopens, rfl⟩⟩
    · simp only [List.isEmpty_iff]

end Docstring

section Step

theorem not_isFiller_of_opens {lead : Lead} {ind more line : Text} (h : lead.Opens ind more line) :
    ¬ IsFiller line := by
  rw [isFiller_iff, isIgnorable_of_lead? h.lead?_eq]
  exact Bool.false_ne_true

/-- A table starts with its first bar. -/
theorem exists_bar_of_table {n : Nat} {rows : List Row} (h : TableDerived n tokens rows) :
    ∃ ind more line rest, Lead.bar.Opens ind more line ∧ tokens = (.lead .bar, line) :: rest := by
  obtain ⟨⟨hne, _⟩, hrows⟩ := h
  cases hrows with
  | nil => exact absurd rfl hne
  | cons hrow _ =>
    obtain ⟨ind, _, _, line, hopens, _, _, rfl⟩ := hrow
    exact ⟨ind, _, line, _, hopens, rfl⟩

/-- An argument starts with its mark or its first bar. -/
theorem exists_head_of_argument {n : Nat} {a : Argument} (h : a.Derived n tokens) :
    ∃ lead ind more line rest, lead.isArgument = true ∧ lead.Opens ind more line ∧
      tokens = (.lead lead, line) :: rest := by
  cases a with
  | docstring d =>
    obtain ⟨lead, ind, more, line, _, _, _, hlead, hopens, _, _, _, _, rfl⟩ := h
    refine ⟨lead, ind, more, line, _, ?_, hopens, rfl⟩
    rcases hlead with rfl | rfl <;> rfl
  | table rows =>
    obtain ⟨ind, more, line, rest, hopens, rfl⟩ := exists_bar_of_table h
    exact ⟨.bar, ind, more, line, rest, rfl, hopens, rfl⟩

theorem docstring_eq_pass_of_bar {ind more line : Text}
    (hopens : Lead.bar.Opens ind more line) (hspans : p.Spans ((.lead .bar, line) :: tokens) q) :
    p.docstring = .pass := by
  have hopening := opening?_eq_none_of_lead? hopens.lead?_eq nofun nofun
  rw [docstring, take_eq_pass_of_spans hspans hopening]
  rfl

theorem exact_argument :
    Exact argument Argument.Derived fun a q => ∀ ask ∈ a.asks, q.Without ask where
  done_iff := by
    intro p q a
    rw [argument, Reply.orElse_eq_done_iff, Reply.map_eq_done_iff, Reply.map_eq_done_iff,
      Reply.map_eq_pass_iff]
    cases a with
    | docstring d =>
      simp only [docstring_eq_done_iff, Argument.docstring.injEq, exists_eq_right, reduceCtorEq,
        and_false, exists_false, or_false, Argument.asks, List.not_mem_nil, false_implies,
        implies_true, and_true]
      rfl
    | table rows =>
      simp only [reduceCtorEq, and_false, exists_false, false_or, Argument.table.injEq,
        exists_eq_right, table_eq_done_iff, Argument.asks, List.forall_mem_singleton]
      constructor
      · exact fun h => h.2
      · rintro ⟨tokens, hspans, hderived, hrow⟩
        refine ⟨?_, tokens, hspans, hderived, hrow⟩
        obtain ⟨⟨hne, _⟩, hseries⟩ := hderived
        cases hseries with
        | nil => exact absurd rfl hne
        | cons hfirst _ =>
          obtain ⟨_, _, _, _, hopens, _, _, rfl⟩ := hfirst
          exact docstring_eq_pass_of_bar hopens hspans
  ne_nil := by
    intro n tokens a h
    obtain ⟨_, _, _, _, _, _, _, rfl⟩ := exists_head_of_argument h
    simp

theorem exact_argument_behindFillers : Exact (behindIgnorable argument)
    (BehindFillers Argument.Derived) fun a q => ∀ ask ∈ a.asks, q.Without ask :=
  exact_argument.behindFillers fun h => by
    obtain ⟨lead, ind, more, line, rest, _, hopens, rfl⟩ := exists_head_of_argument h
    exact ⟨_, rest, rfl, not_isFiller_of_opens hopens⟩

theorem take_step?_eq_done_iff {word : StepWord} {text : Text} :
    p.take Line.step? = .done (word, text) q ↔
      ∃ token, p.Spans [token] q ∧ (Lead.step word).Derived text token := by
  rw [take_eq_done_iff_spans rfl fun _ => .lead (.step word)]
  simp only [Line.step?_eq_some_iff, Lead.derived_iff]
  constructor
  · rintro ⟨line, hspans, more, hlead, rfl⟩
    exact ⟨_, hspans, rfl, more, hlead, rfl⟩
  · rintro ⟨⟨kind, line⟩, hspans, rfl, more, hlead, rfl⟩
    exact ⟨line, hspans, more, hlead, rfl⟩

theorem exact_step : Exact step Step.Derived fun s q => ∀ ask ∈ s.asks, q.Without ask where
  done_iff := by
    intro p q s
    rw [step, Reply.bind_eq_done_iff]
    simp only [Reply.map_eq_done_iff, exact_argument_behindFillers.optional_iff]
    constructor
    · rintro ⟨⟨word, text⟩, next, htake, argument, ⟨under, hunder, hseries, hnone, hsome⟩, rfl⟩
      obtain ⟨token, hspans, htoken⟩ := take_step?_eq_done_iff.mp htake
      rw [hspans.line_eq] at hseries
      refine ⟨token :: under, hspans.trans hunder, ⟨token, under, htoken, rfl, hseries, rfl⟩, ?_⟩
      cases argument with
      | none => exact List.forall_mem_singleton.mpr (hnone rfl)
      | some a => exact hsome a rfl
    · rintro ⟨_, hspans, ⟨token, under, htoken, hline, hseries, rfl⟩, hasks⟩
      obtain ⟨next, hfront, hunder⟩ := spans_cons_iff.mp hspans
      obtain ⟨word, text, line, argument⟩ := s
      dsimp only at htoken hline hseries
      subst hline
      refine ⟨(word, text), next, take_step?_eq_done_iff.mpr ⟨token, hfront, htoken⟩, argument,
        ⟨under, hunder, ?_, ?_, ?_⟩, rfl⟩
      · rw [hfront.line_eq]
        exact hseries
      · rintro rfl
        exact hasks .argument List.mem_cons_self
      · rintro a rfl
        exact hasks
  ne_nil := by
    rintro n _ s ⟨token, under, _, _, _, rfl⟩
    simp

end Step

section Header

variable {words : List Text} {front : List Token}

theorem tags?_eq_some_iff {line : Text} : Line.tags? (some line) = some words ↔
    ∃ ind more, Lead.tag.Opens ind more line ∧ words = line.words := by
  have hwords : line.words = (Line.body line).words := by
    conv_lhs => rw [← List.takeWhile_append_dropWhile (p := isIndent) (l := line)]
    exact Text.words_append_of_isBlank
      (isBlank_of_isIndentation fun _ => List.mem_takeWhile_imp) _
  have hread : (Line.body line).head? = some '@' ↔ ∃ ind more, Lead.tag.Opens ind more line := by
    rw [exists_comm, List.head?_eq_some_iff]
    simp only [Lead.opens_iff, Line.lead?_eq_some_iff]
    rfl
  rw [Line.tags?, hwords]
  split
  · rename_i hhead
    obtain ⟨ind, more, hopens⟩ := hread.mp hhead
    constructor
    · intro h
      exact ⟨ind, more, hopens, (Option.some.inj h).symm⟩
    · rintro ⟨_, _, _, rfl⟩
      rfl
  · rename_i hhead
    simp only [reduceCtorEq, false_iff]
    rintro ⟨ind, more, hopens, _⟩
    exact hhead (hread.mpr ⟨ind, more, hopens⟩)

/-- The words of a line of tags, with all that does not count behind it. -/
def tagLine (p : Place) : Reply (List Text) :=
  (p.take Line.tags?).bind fun tags next => .done tags next.skipIgnorable

private theorem tagLine_eq_done_iff : p.tagLine = .done words q ↔
    ∃ ind more line fillers, Lead.tag.Opens ind more line ∧ words = line.words ∧ Fillers fillers ∧
      p.Spans ((.lead .tag, line) :: fillers) q ∧ q.Counts := by
  rw [tagLine, Reply.bind_eq_done_iff]
  simp only [take_eq_done_iff_spans (rfl : Line.tags? none = none) fun _ => Kind.lead .tag,
    Reply.done.injEq, skipIgnorable_eq_iff, tags?_eq_some_iff]
  constructor
  · rintro ⟨_, next, ⟨line, hline, ind, more, hopens, rfl⟩, rfl, fillers, hfillers, hspans, hcounts⟩
    exact ⟨ind, more, line, fillers, hopens, rfl, hfillers, hline.trans hspans, hcounts⟩
  · rintro ⟨ind, more, line, fillers, hopens, rfl, hfillers, hspans, hcounts⟩
    obtain ⟨next, hline, hfront⟩ := spans_cons_iff.mp hspans
    exact ⟨_, next, ⟨line, hline, ind, more, hopens, rfl⟩, rfl, fillers, hfillers, hfront, hcounts⟩

theorem exists_of_tags (h : p.tags = .done words q) :
    ∃ front, TagsDerived front words ∧ p.Spans front q := by
  obtain ⟨groups, hmany, rfl⟩ := Reply.map_eq_done_iff.mp h
  have hrepeats : Repeats tagLine p groups q := many_eq_done_iff.mp hmany
  clear h hmany
  induction hrepeats with
  | nil _ => exact ⟨[], .nil, .refl _⟩
  | cons hread _ _ ih =>
    obtain ⟨ind, more, line, fillers, hopens, rfl, hfillers, hspans, _⟩ :=
      tagLine_eq_done_iff.mp hread
    obtain ⟨front, hfront, hmore⟩ := ih
    exact ⟨_, .cons hopens hfillers hfront, hspans.trans hmore⟩

/-- Tags are read up to a line that counts and is none of them. -/
theorem tags_of_spans (h : TagsDerived front words) (hspans : p.Spans front q)
    (hcounts : q.Counts) (hstop : q.take Line.tags? = .pass) : p.tags = .done words q := by
  suffices hrepeats : ∃ groups, Repeats tagLine p groups q ∧ groups.flatten = words by
    obtain ⟨groups, hrepeats, rfl⟩ := hrepeats
    exact Reply.map_eq_done_iff.mpr ⟨groups, many_eq_done_iff.mpr hrepeats, rfl⟩
  induction h generalizing p with
  | nil =>
    cases spans_nil_iff.mp hspans
    refine ⟨[], .nil ?_, rfl⟩
    rw [tagLine, hstop]
    rfl
  | @cons ind more line fillers tokens tags hopens hfillers hmore ih =>
    rw [← List.cons_append] at hspans
    obtain ⟨next, hfront, hback⟩ := spans_append_iff.mp hspans
    obtain ⟨groups, hrepeats, hgroups⟩ := ih hback
    have hnext : next.Counts := by
      cases hmore with
      | nil =>
        rw [spans_nil_iff.mp hback]
        exact hcounts
      | cons hother _ _ => exact counts_of_head hback (not_isFiller_of_opens hother)
    refine ⟨line.words :: groups, .cons ?_ ?_ hrepeats, by rw [List.flatten_cons, hgroups]⟩
    · exact tagLine_eq_done_iff.mpr ⟨ind, more, line, fillers, hopens, rfl, hfillers, hfront, hnext⟩
    · have hlength := hfront.length_rest
      rw [List.length_cons] at hlength
      omega

/-- The spelling of the headers that a reader looks for. -/
structure Spells {α : Type} (keywords : List (α × Text)) (leadOf : α → Lead) : Prop where
  text_eq : ∀ pair ∈ keywords, pair.2 ++ [':'] = (leadOf pair.1).text
  mem : ∀ a, ∃ keyword, (a, keyword) ∈ keywords
  injective : Function.Injective leadOf
  ne_tag : ∀ a, leadOf a ≠ .tag

theorem spells_examples : Spells [((), "Examples".toList)] fun _ => .examples :=
  ⟨by decide, fun _ => ⟨_, List.mem_cons_self⟩, fun _ _ _ => rfl, by simp⟩

theorem spells_background : Spells [((), "Background".toList)] fun _ => .background :=
  ⟨by decide, fun _ => ⟨_, List.mem_cons_self⟩, fun _ _ _ => rfl, by simp⟩

theorem spells_feature : Spells [((), "Feature".toList)] fun _ => .feature :=
  ⟨by decide, fun _ => ⟨_, List.mem_cons_self⟩, fun _ _ _ => rfl, by simp⟩

theorem spells_scenario :
    Spells (ScenarioWord.all.map fun word => (word, word.word)) Lead.scenario where
  text_eq := by decide
  mem word := ⟨word.word, List.mem_map.mpr ⟨word, by cases word <;> decide, rfl⟩⟩
  injective _ _ := Lead.scenario.inj
  ne_tag _ := by simp

variable {α : Type} {keywords : List (α × Text)} {leadOf : α → Lead}

theorem Spells.findSome?_eq_some_iff (h : Spells keywords leadOf) {line : Line} {a : α}
    {name : Text} :
    (keywords.findSome? fun (a, keyword) => (Line.header? keyword line).map (a, ·)) =
      some (a, name) ↔ ∃ more, line.lead? = some (leadOf a, more) ∧ name = more.trim := by
  have himp : ∀ {a : α} {name : Text},
      (keywords.findSome? fun (a, keyword) => (Line.header? keyword line).map (a, ·)) =
        some (a, name) → ∃ more, line.lead? = some (leadOf a, more) ∧ name = more.trim := by
    intro a name hfound
    obtain ⟨⟨b, keyword⟩, hpair, hheader⟩ := List.exists_of_findSome?_eq_some hfound
    dsimp only at hheader
    rw [Line.header?_eq (h.text_eq _ hpair), Option.map_map, Option.map_eq_some_iff] at hheader
    obtain ⟨more, hmore, hname⟩ := hheader
    cases hname
    exact ⟨more, Line.lead?_of_behind? hmore, rfl⟩
  refine ⟨himp, ?_⟩
  rintro ⟨more, hlead, rfl⟩
  have hsome : (keywords.findSome? fun (a, keyword) =>
      (Line.header? keyword line).map (a, ·)).isSome = true := by
    obtain ⟨keyword, hpair⟩ := h.mem a
    rw [List.findSome?_isSome_iff]
    refine ⟨(a, keyword), hpair, ?_⟩
    dsimp only
    rw [Line.header?_eq (h.text_eq _ hpair), Line.behind?_of_lead? hlead, if_pos rfl]
    rfl
  obtain ⟨⟨b, name⟩, hfound⟩ := Option.isSome_iff_exists.mp hsome
  obtain ⟨other, hother, rfl⟩ := himp hfound
  rw [hlead] at hother
  injection hother with hpair
  injection hpair with hleadOf hmore
  rw [hfound, h.injective hleadOf, hmore]

theorem header_eq_done_iff (h : Spells keywords leadOf) {a : α} {name : Text} :
    p.header keywords = .done (a, name) q ↔
      ∃ token, p.Spans [token] q ∧ (leadOf a).Derived name token := by
  have hnone : (keywords.findSome? fun (a, keyword) => (Line.header? keyword none).map (a, ·)) =
      none := by
    simp [Line.header?]
  rw [header, take_eq_done_iff_spans hnone fun _ => .lead (leadOf a)]
  simp only [h.findSome?_eq_some_iff, Lead.derived_iff]
  constructor
  · rintro ⟨line, hspans, more, hlead, rfl⟩
    exact ⟨_, hspans, rfl, more, hlead, rfl⟩
  · rintro ⟨⟨kind, line⟩, hspans, rfl, more, hlead, rfl⟩
    exact ⟨line, hspans, more, hlead, rfl⟩

theorem header_eq_pass (h : Spells keywords leadOf) {lead : Lead} {more : Text}
    (hspans : p.Spans (token :: tokens) q) (hlead : Line.lead? (some token.2) = some (lead, more))
    (hne : ∀ a, leadOf a ≠ lead) : p.header keywords = .pass := by
  apply take_eq_pass_of_spans hspans
  rw [Option.eq_none_iff_forall_not_mem]
  rintro ⟨a, name⟩ hfound
  obtain ⟨other, hother, _⟩ := h.findSome?_eq_some_iff.mp hfound
  rw [hlead] at hother
  injection hother with hpair
  injection hpair with hleadOf _
  exact hne a hleadOf.symm

/-- The line behind tags is a header if it has the lead of one. -/
theorem tags_of_header {lead : Lead} {more : Text} (h : TagsDerived front words)
    (hspans : p.Spans front q) {r : Place} (hheader : q.Spans (token :: tokens) r)
    (hlead : Line.lead? (some token.2) = some (lead, more)) (hne : lead ≠ .tag) :
    p.tags = .done words q := by
  apply tags_of_spans h hspans
  · apply counts_of_head hheader
    rw [isFiller_iff, isIgnorable_of_lead? hlead]
    exact Bool.false_ne_true
  · apply take_eq_pass_of_spans hheader
    rw [← Option.not_isSome_iff_eq_none, Line.isSome_tags?_eq, Line.behind?_of_lead? hlead,
      if_neg (Ne.symm hne)]
    simp

theorem descriptionLine?_eq_some_iff {line : Text} {texts : List Text} :
    descriptionLine? (some line) = some texts ↔
      IsDescriptionLine line ∧ texts = [line.trim] ∨ IsFiller line ∧ texts = [] := by
  rw [descriptionLine?, isFiller_iff]
  cases hdescription : Line.description? (some line) with
  | some text =>
    have hignorable : Line.isIgnorable (some line) = false := by
      rw [Bool.eq_false_iff]
      intro hline
      rw [description?_of_isIgnorable hline] at hdescription
      cases hdescription
    obtain ⟨hline, rfl⟩ := description?_eq_some_iff.mp hdescription
    simp [hignorable, hline, eq_comm]
  | none =>
    have hline : ¬ IsDescriptionLine line := by
      rw [isDescriptionLine_iff, hdescription]
      simp
    cases Line.isIgnorable (some line) <;> simp [hline, eq_comm]

theorem take_descriptionLine?_eq_pass_iff : p.take descriptionLine? = .pass ↔
    p.CountsPlainly := by
  rw [take_eq_pass_iff, CountsPlainly]
  refine forall₂_congr fun line _ => ?_
  rw [descriptionLine?]
  cases hdescription : line.description? with
  | some text => simp
  | none => simp

theorem description_eq_done_iff {texts : List Text} : p.description = .done texts q ↔
    ∃ tokens, p.Spans tokens q ∧ DescriptionDerived tokens texts ∧ q.Without .description := by
  have hread : ∀ {p q : Place} {texts : List Text}, p.take descriptionLine? = .done texts q ↔
      ∃ line, (p.Spans [(.description, line)] q ∧ IsDescriptionLine line ∧ texts = [line.trim]) ∨
        (p.Spans [(.filler, line)] q ∧ IsFiller line ∧ texts = []) := by
    intro p q texts
    rw [take_eq_done_iff_spans rfl fun _ => .description]
    simp only [descriptionLine?_eq_some_iff, and_or_left]
    rfl
  rw [description_eq, Reply.map_eq_done_iff]
  simp only [many_eq_done_iff]
  constructor
  · rintro ⟨groups, hrepeats, rfl⟩
    induction hrepeats with
    | nil hpass => exact ⟨[], .refl _, .nil, take_descriptionLine?_eq_pass_iff.mp hpass⟩
    | cons htake _ _ ih =>
      obtain ⟨tokens, hspans, hderived, hwithout⟩ := ih
      obtain ⟨line, ⟨hline, hkind, rfl⟩ | ⟨hline, hkind, rfl⟩⟩ := hread.mp htake
      · exact ⟨_, hline.trans hspans, .text hkind hderived, hwithout⟩
      · exact ⟨_, hline.trans hspans, .filler hkind hderived, hwithout⟩
  · rintro ⟨tokens, hspans, hderived, hwithout⟩
    induction hderived generalizing p with
    | nil =>
      cases spans_nil_iff.mp hspans
      exact ⟨[], .nil (take_descriptionLine?_eq_pass_iff.mpr hwithout), rfl⟩
    | @filler line tokens texts hline _ ih =>
      obtain ⟨next, hfront, hback⟩ := spans_cons_iff.mp hspans
      obtain ⟨groups, hrepeats, hgroups⟩ := ih hback
      have hlength := hfront.length_rest
      refine ⟨[] :: groups, .cons (hread.mpr ⟨line, .inr ⟨hfront, hline, rfl⟩⟩) ?_ hrepeats, hgroups⟩
      rw [hlength, List.length_singleton]
      omega
    | @text line tokens texts hline _ ih =>
      obtain ⟨next, hfront, hback⟩ := spans_cons_iff.mp hspans
      obtain ⟨groups, hrepeats, hgroups⟩ := ih hback
      have hlength := hfront.length_rest
      refine ⟨[line.trim] :: groups, .cons (hread.mpr ⟨line, .inl ⟨hfront, hline, rfl⟩⟩) ?_ hrepeats,
        by rw [List.flatten_cons, hgroups, List.singleton_append]⟩
      rw [hlength, List.length_singleton]
      omega

/-- What follows a description is no part of it. -/
theorem without_description_iff (h : p.Spans tokens q) :
    p.Without .description ↔ StartsPlainly tokens ∧ (tokens = [] → q.Without .description) := by
  cases tokens with
  | nil =>
    rw [spans_nil_iff.mp h]
    simp [StartsPlainly]
  | cons token tokens =>
    have hline : ∀ line : Text, (Line.isIgnorable (some line) = false ∧
        Line.description? (some line) = none) ↔ ¬ IsFiller line ∧ ¬ IsDescriptionLine line := by
      intro line
      rw [isFiller_iff, isDescriptionLine_iff, Bool.not_eq_true, ← Option.not_isSome_iff_eq_none]
      refine and_congr_right fun _ => not_congr ⟨fun hsome => ?_, fun hsome => by rw [hsome]; rfl⟩
      obtain ⟨text, htext⟩ := Option.isSome_iff_exists.mp hsome
      rw [htext, (description?_eq_some_iff.mp htext).2]
    simp [Without, CountsPlainly, StartsPlainly, h.head?, hline]

/-- Reading under a header, its tags and its description. -/
theorem headed_eq_done_iff (h : Spells keywords leadOf) {β : Type}
    {f : List Text → Place → α × Text → Place → Reply β}
    {under : List Text → Place → α → Text → List Text → Place → Reply β} {b : β}
    (hf : ∀ words atHeader a name next, f words atHeader (a, name) next =
      next.description.bind (under words atHeader a name)) :
    (p.tags.bind fun tags atHeader => (atHeader.header keywords).bind fun found next =>
        f tags atHeader found next) = .done b q ↔
      ∃ front words atHeader token a name description texts mid, TagsDerived front words ∧
        (leadOf a).Derived name token ∧ DescriptionDerived description texts ∧
        p.Spans front atHeader ∧ atHeader.Spans (token :: description) mid ∧
        mid.Without .description ∧
        under words atHeader a name texts mid = .done b q := by
  simp only [Reply.bind_eq_done_iff]
  constructor
  · rintro ⟨words, atHeader, htags, ⟨a, name⟩, next, hheader, hread⟩
    rw [hf, Reply.bind_eq_done_iff] at hread
    obtain ⟨texts, mid, hread, hunder⟩ := hread
    obtain ⟨description, hmid, hdescription, hplain⟩ := description_eq_done_iff.mp hread
    obtain ⟨front, hfront, hat⟩ := exists_of_tags htags
    obtain ⟨token, hnext, htoken⟩ := (header_eq_done_iff h).mp hheader
    exact ⟨front, words, atHeader, token, a, name, description, texts, mid, hfront, htoken,
      hdescription, hat, hnext.trans hmid, hplain, hunder⟩
  · rintro ⟨front, words, atHeader, token, a, name, description, texts, mid, hfront, htoken,
      hdescription, hat, hspans, hplain, hunder⟩
    obtain ⟨next, hnext, hmid⟩ := spans_cons_iff.mp hspans
    obtain ⟨_, more, hlead, _⟩ := Lead.derived_iff.mp htoken
    refine ⟨words, atHeader, tags_of_header hfront hat hnext hlead (h.ne_tag a), (a, name), next,
      (header_eq_done_iff h).mpr ⟨token, hnext, htoken⟩, ?_⟩
    rw [hf, Reply.bind_eq_done_iff]
    exact ⟨texts, mid, description_eq_done_iff.mpr ⟨description, hmid, hdescription, hplain⟩, hunder⟩

theorem spans_headed_iff {front description : List Token} :
    p.Spans (front ++ token :: (description ++ tokens)) q ↔
      ∃ atHeader mid, p.Spans front atHeader ∧ atHeader.Spans (token :: description) mid ∧
        mid.Spans tokens q := by
  simp only [spans_append_iff, ← List.cons_append, exists_and_left]

theorem line_headed {front description : List Token} {atHeader mid : Place}
    (hat : p.Spans front atHeader)
    (hmid : atHeader.Spans (token :: description) mid) :
    mid.line = p.line + front.length + 1 + description.length := by
  rw [hmid.line_eq, hat.line_eq, List.length_cons]
  omega

end Header

section Front

variable {lead : Lead} {fillers : List Token}

/-- A line with the lead stands behind its tags, if there are some. -/
def Fronted (lead : Lead) (tokens : List Token) : Prop :=
  ∃ tags words token rest more, TagsDerived tags words ∧ lead ≠ .tag ∧
    Line.lead? (some token.2) = some (lead, more) ∧ tokens = tags ++ token :: rest

theorem Fronted.exists_first (h : Fronted lead tokens) : ∃ token rest own more,
    tokens = token :: rest ∧ Line.lead? (some token.2) = some (own, more) ∧
      (own = lead ∨ own = .tag) := by
  obtain ⟨tags, words, token, rest, more, htags, _, hlead, rfl⟩ := h
  cases htags with
  | nil => exact ⟨token, rest, lead, more, rfl, hlead, .inl rfl⟩
  | cons hline _ _ => exact ⟨_, _, .tag, _, rfl, hline.lead?_eq, .inr rfl⟩

theorem not_isFiller_of_lead? {line more : Text} (h : Line.lead? (some line) = some (lead, more)) :
    ¬ IsFiller line := by
  rw [isFiller_iff, isIgnorable_of_lead? h]
  exact Bool.false_ne_true

theorem row_eq_pass_of_spans {more : Text} (hspans : p.Spans (token :: tokens) q)
    (hlead : Line.lead? (some token.2) = some (lead, more)) (hne : lead ≠ .bar) :
    p.row = .pass := by
  have htake : p.take Line.row? = .pass := by
    apply take_eq_pass_of_spans hspans
    rw [Line.row?_eq, Line.behind?_of_lead? hlead, if_neg (Ne.symm hne)]
  rw [row, htake]
  rfl

theorem row_eq_pass_of_filler (hspans : p.Spans (token :: tokens) q) (htoken : IsFiller token.2) :
    p.row = .pass := by
  have htake : p.take Line.row? = .pass := by
    apply take_eq_pass_of_spans hspans
    rw [Option.eq_none_iff_forall_not_mem]
    intro more hmore
    exact not_isFiller_of_lead? (row?_eq_some_iff.mp hmore) htoken
  rw [row, htake]
  rfl

theorem argument_eq_pass_of_spans {more : Text} (hspans : p.Spans (token :: tokens) q)
    (hlead : Line.lead? (some token.2) = some (lead, more)) (hargument : lead.isArgument = false) :
    p.argument = .pass := by
  have hopening : p.take Line.opening? = .pass := by
    apply take_eq_pass_of_spans hspans
    apply opening?_eq_none_of_lead? hlead
    · rintro rfl
      cases hargument
    · rintro rfl
      cases hargument
  have hrow : p.row = .pass := by
    apply row_eq_pass_of_spans hspans hlead
    rintro rfl
    cases hargument
  rw [argument, docstring, hopening, table, hrow]
  rfl

theorem step_eq_pass_of_spans {more : Text} (hspans : p.Spans (token :: tokens) q)
    (hlead : Line.lead? (some token.2) = some (lead, more)) (hne : ∀ word, lead ≠ .step word) :
    p.step = .pass := by
  have htake : p.take Line.step? = .pass := by
    apply take_eq_pass_of_spans hspans
    rw [Option.eq_none_iff_forall_not_mem]
    rintro ⟨word, text⟩ hstep
    obtain ⟨other, hother, _⟩ := Line.step?_eq_some_iff.mp hstep
    rw [hlead] at hother
    injection hother with hpair
    injection hpair with hsame _
    exact hne word hsame
  rw [step, htake]
  rfl

theorem background_eq_pass_of_spans {more : Text} (hspans : p.Spans (token :: tokens) q)
    (hlead : Line.lead? (some token.2) = some (lead, more)) (hne : lead ≠ .background) :
    p.background = .pass := by
  have hheader : p.header [((), "Background".toList)] = .pass :=
    header_eq_pass spells_background hspans hlead fun _ => Ne.symm hne
  rw [background, hheader]
  rfl

theorem tagged_eq_pass {α β : Type} {keywords : List (α × Text)} {leadOf : α → Lead}
    (h : Spells keywords leadOf) (hfronted : Fronted lead tokens) (hspans : p.Spans tokens q)
    (hne : ∀ a, leadOf a ≠ lead) {f : List Text → Place → α × Text → Place → Reply β} :
    (p.tags.bind fun tags atHeader => (atHeader.header keywords).bind fun found next =>
      f tags atHeader found next) = .pass := by
  obtain ⟨tags, words, token, rest, more, htags, htag, hlead, rfl⟩ := hfronted
  obtain ⟨between, hfront, hback⟩ := spans_append_iff.mp hspans
  rw [tags_of_header htags hfront hback hlead htag, Reply.bind, header_eq_pass h hback hlead hne]
  rfl

/-- What does not heed a lead is not to be found where the lead stands behind its tags. -/
theorem without_of_fronted (hfillers : Fillers fillers) (hfronted : Fronted lead tokens)
    (hspans : p.Spans (fillers ++ tokens) q) {ask : Ask} (hask : ask.heeds lead = false) :
    p.Without ask := by
  obtain ⟨s, hfront, hback⟩ := spans_append_iff.mp hspans
  obtain ⟨token, rest, own, more, htokens, hlead, hown⟩ := hfronted.exists_first
  rw [htokens] at hback
  have hskip : p.skipIgnorable = s :=
    hfront.skipIgnorable_eq hfillers (counts_of_head hback (not_isFiller_of_lead? hlead))
  cases ask with
  | description => cases hask
  | argument =>
    rw [Without, behindIgnorable, hskip]
    apply argument_eq_pass_of_spans hback hlead
    rcases hown with rfl | rfl
    · exact hask
    · rfl
  | row =>
    cases fillers with
    | nil =>
      rw [List.nil_append, htokens] at hspans
      apply row_eq_pass_of_spans hspans hlead
      rcases hown with rfl | rfl
      · simpa [Ask.heeds] using hask
      · simp
    | cons filler fillers =>
      exact row_eq_pass_of_filler hspans (hfillers filler List.mem_cons_self).2
  | step =>
    rw [Without, behindIgnorable, hskip]
    apply step_eq_pass_of_spans hback hlead
    rintro word rfl
    rcases hown with rfl | hown
    · cases hask
    · cases hown
  | background =>
    rw [Without, behindIgnorable, hskip]
    apply background_eq_pass_of_spans hback hlead
    rintro rfl
    rcases hown with rfl | hown
    · cases hask
    · cases hown
  | examples =>
    rw [Without, behindIgnorable, hskip, examples]
    rw [← htokens] at hback
    apply tagged_eq_pass spells_examples hfronted hback
    rintro _ rfl
    cases hask
  | scenario =>
    rw [Without, behindIgnorable, hskip, scenario]
    rw [← htokens] at hback
    apply tagged_eq_pass spells_scenario hfronted hback
    rintro word rfl
    cases hask

/-- What may not stand in front of the nodes of a series is not there. -/
theorem without_of_series {α : Type} {Derived : Nat → List Token → α → Prop} {ask : Ask}
    (hfront : ∀ {n tokens a}, Derived n tokens a → ∃ lead, Fronted lead tokens ∧
      ask.heeds lead = false) {n : Nat} {nodes : List α}
    (hseries : Series (BehindFillers Derived) n tokens nodes) (hspans : p.Spans tokens q)
    (hend : nodes = [] → q.Without ask) : p.Without ask := by
  cases hseries with
  | nil =>
    rw [spans_nil_iff.mp hspans]
    exact hend rfl
  | cons hnode _ =>
    obtain ⟨fillers, rest, hfillers, hderived, rfl⟩ := hnode
    obtain ⟨lead, hfronted, hask⟩ := hfront hderived
    obtain ⟨_, hnodeSpans, _⟩ := spans_append_iff.mp hspans
    exact without_of_fronted hfillers hfronted hnodeSpans hask

end Front

end Place

end ScenarioLint.Gherkin
