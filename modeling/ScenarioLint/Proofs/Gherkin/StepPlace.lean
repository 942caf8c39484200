import ScenarioLint.Proofs.Gherkin.ExactBlock
import ScenarioLint.Proofs.Gherkin.Mode
import ScenarioLint.Proofs.Gherkin.Rendering

/-!
Where the steps of a document stand among its lines.

A step is what the reader of steps reads from its line on, so the lines from there on tell the step,
and the step is the same wherever in a document these lines stand.
-/

namespace ScenarioLint.Gherkin

/-- The first line that counts has a lead, and not that of an argument, so that nothing belongs to a
    step above. -/
inductive Calm : List Token → Prop
  | nil : Calm []
  | filler {line : Text} {rest : List Token} (hline : IsFiller line) (h : Calm rest) :
      Calm ((.filler, line) :: rest)
  | lead {own : Lead} {ind more line : Text} {rest : List Token} (hline : own.Opens ind more line)
      (hargument : own.isArgument = false) : Calm ((.lead own, line) :: rest)

/-- The step is read off lines of which the first one has the number `n`. -/
def Step.Within (s : Step) (n : Nat) (tokens : List Token) : Prop :=
  ∃ front own back, tokens = front ++ (own ++ back) ∧ s.Derived (n + front.length) own ∧ Calm back

/-- The steps of the background and of all scenarios. -/
def Document.steps (doc : Document) : List Step :=
  doc.feature.elim [] Feature.steps

section Calm

variable {tokens rest fillers front : List Token} {token : Token} {n : Nat} {own : Lead}

theorem calm_of_derived {text : Text} (h : own.Derived text token)
    (hargument : own.isArgument = false) : Calm (token :: rest) := by
  obtain ⟨_, _, _, hopens, _, rfl⟩ := h
  exact .lead hopens hargument

theorem calm_fillers_append (h : Fillers fillers) (hrest : Calm rest) : Calm (fillers ++ rest) := by
  induction fillers with
  | nil => exact hrest
  | cons token fillers ih =>
    obtain ⟨kind, line⟩ := token
    obtain ⟨⟨hkind, hline⟩, hmore⟩ := List.forall_mem_cons.mp h
    obtain rfl : kind = .filler := hkind
    exact .filler hline (ih hmore)

theorem calm_tagged {words : List Text} {tags : List Token} {text : Text}
    (htags : TagsDerived tags words) (htoken : own.Derived text token)
    (hargument : own.isArgument = false) : Calm (tags ++ token :: rest) := by
  cases htags with
  | nil => exact calm_of_derived htoken hargument
  | cons hline _ _ => exact .lead hline rfl

theorem calm_of_step {s : Step} (h : s.Derived n tokens) : Calm (tokens ++ rest) := by
  obtain ⟨token, under, htoken, _, _, rfl⟩ := h
  exact calm_of_derived htoken rfl

theorem calm_of_examples {e : Examples} (h : e.Derived n tokens) : Calm (tokens ++ rest) := by
  obtain ⟨tags, token, _, _, _, htags, htoken, _, _, _, rfl⟩ := h
  rw [List.append_assoc]
  exact calm_tagged htags htoken rfl

theorem calm_of_scenario {s : Scenario} (h : s.Derived n tokens) : Calm (tokens ++ rest) := by
  obtain ⟨tags, token, _, _, _, _, htags, htoken, _, _, _, _, _, rfl⟩ := h
  rw [List.append_assoc]
  exact calm_tagged htags htoken rfl

theorem calm_of_background {b : Background} (h : b.Derived n tokens) : Calm (tokens ++ rest) := by
  obtain ⟨token, _, _, _, htoken, _, _, _, _, rfl⟩ := h
  exact calm_of_derived htoken rfl

theorem calm_of_feature {f : Feature} (h : f.Derived n tokens) : Calm (tokens ++ rest) := by
  obtain ⟨tags, token, _, _, _, htags, htoken, _, _, _, _, _, rfl⟩ := h
  rw [List.append_assoc]
  exact calm_tagged htags htoken rfl

/-- Nodes that start with a line of their own stand under a step without belonging to it. -/
theorem calm_of_blocks {α : Type} {Derived : Nat → List Token → α → Prop} {nodes : List α}
    (hseries : Series (BehindFillers Derived) n tokens nodes) (hrest : Calm rest)
    (h : ∀ {n tokens a rest}, Derived n tokens a → Calm (tokens ++ rest)) :
    Calm (tokens ++ rest) := by
  cases hseries with
  | nil => exact hrest
  | cons hnode _ =>
    obtain ⟨fillers, own, hfillers, hderived, rfl⟩ := hnode
    rw [List.append_assoc, List.append_assoc]
    exact calm_fillers_append hfillers (h hderived)

end Calm

section Within

variable {n : Nat} {tokens rest : List Token} {s : Step}

theorem Step.Within.append_left {front : List Token} (h : s.Within (n + front.length) tokens) :
    s.Within n (front ++ tokens) := by
  obtain ⟨inner, own, back, rfl, hderived, hback⟩ := h
  refine ⟨front ++ inner, own, back, by rw [List.append_assoc], ?_, hback⟩
  rwa [List.length_append, ← Nat.add_assoc]

variable {α : Type} {Derived : Nat → List Token → α → Prop} {nodes : List α}

/-- The steps of several nodes, from those of each. -/
theorem within_of_blocks (steps : α → List Step)
    (hseries : Series (BehindFillers Derived) n tokens nodes)
    (hcalm : ∀ {n tokens a rest}, Derived n tokens a → Calm (tokens ++ rest)) (hrest : Calm rest)
    (h : ∀ {n tokens a rest}, Derived n tokens a → Calm rest →
      ∀ s ∈ steps a, s.Within n (tokens ++ rest)) :
    ∀ s ∈ nodes.flatMap steps, s.Within n (tokens ++ rest) := by
  induction hseries with
  | nil => simp
  | cons hnode hmore ih =>
    obtain ⟨fillers, own, hfillers, hderived, rfl⟩ := hnode
    rw [List.flatMap_cons, List.forall_mem_append]
    constructor
    · intro s hs
      have hown := h hderived (calm_of_blocks hmore hrest hcalm) s hs
      rw [List.append_assoc, List.append_assoc]
      exact hown.append_left
    · intro s hs
      rw [List.append_assoc (_ ++ _)]
      exact (ih s hs).append_left

theorem within_of_step (h : s.Derived n tokens) (hrest : Calm rest) :
    s.Within n (tokens ++ rest) :=
  ⟨[], tokens, rest, rfl, h, hrest⟩

/-- The steps under a header. -/
theorem within_of_steps {ss : List Step} (h : Series (BehindFillers Step.Derived) n tokens ss)
    (hrest : Calm rest) : ∀ s ∈ ss, s.Within n (tokens ++ rest) := by
  intro s hs
  refine within_of_blocks (fun s => [s]) h calm_of_step hrest ?_ s
    (List.mem_flatMap.mpr ⟨s, hs, List.mem_singleton_self s⟩)
  intro n tokens t rest hderived hcalm u hu
  rw [List.mem_singleton.mp hu]
  exact within_of_step hderived hcalm

/-- The number of the line behind a header and what describes it. -/
theorem add_length_headed (n : Nat) (tags : List Token) (token : Token)
    (description : List Token) :
    n + tags.length + 1 + description.length = n + (tags ++ token :: description).length := by
  rw [List.length_append, List.length_cons]
  omega

theorem within_of_scenario {c : Scenario} (h : c.Derived n tokens) (hrest : Calm rest) :
    ∀ s ∈ c.steps, s.Within n (tokens ++ rest) := by
  obtain ⟨tags, token, description, _, steps, examples, _, _, _, _, _, hsteps, hexamples, rfl⟩ := h
  intro s hs
  have hunder := within_of_steps hsteps (calm_of_blocks hexamples hrest calm_of_examples) s hs
  have hlength := add_length_headed n tags token description
  rw [hlength] at hunder
  simpa using hunder.append_left

theorem within_of_background {b : Background} (h : b.Derived n tokens) (hrest : Calm rest) :
    ∀ s ∈ b.steps, s.Within n (tokens ++ rest) := by
  obtain ⟨token, description, _, steps, _, _, _, _, hsteps, rfl⟩ := h
  intro s hs
  have hunder := within_of_steps hsteps hrest s hs
  have hlength : n + 1 + description.length = n + (token :: description).length :=
    add_length_headed n [] token description
  rw [hlength] at hunder
  simpa using hunder.append_left

theorem within_of_feature {f : Feature} (h : f.Derived n tokens) (hrest : Calm rest) :
    ∀ s ∈ f.steps, s.Within n (tokens ++ rest) := by
  obtain ⟨tags, token, description, background, scenarios, _, _, _, _, _, hbackground, hscenarios,
    rfl⟩ := h
  have hbackgrounds := within_of_blocks Background.steps hbackground calm_of_background
    (calm_of_blocks hscenarios hrest calm_of_scenario) within_of_background
  have hscenario := within_of_blocks Scenario.steps hscenarios calm_of_scenario hrest
    within_of_scenario
  have hlength := add_length_headed n tags token description
  have hsplit : tags ++ token :: (description ++ (background ++ scenarios)) ++ rest =
      (tags ++ token :: description) ++ (background ++ (scenarios ++ rest)) := by
    simp
  have hsteps : f.background.elim [] Background.steps =
      f.background.toList.flatMap Background.steps := by
    cases f.background <;> simp
  rw [hlength] at hbackgrounds hscenario
  rw [hsplit, Feature.steps, hsteps, List.forall_mem_append]
  exact ⟨fun s hs => (hbackgrounds s hs).append_left,
    fun s hs => (hscenario s hs).append_left.append_left⟩

/-- Every step of a document is read off the lines of the document. -/
theorem Document.Derived.within {doc : Document} (h : doc.Derived tokens) :
    ∀ s ∈ doc.steps, s.Within 1 tokens := by
  obtain ⟨body, trailing, hbody, htrailing, rfl⟩ := h
  have hrest : Calm trailing := by
    rw [← List.append_nil trailing]
    exact calm_fillers_append htrailing .nil
  have hsteps : doc.steps = doc.feature.toList.flatMap Feature.steps := by
    rw [Document.steps]
    cases doc.feature <;> simp
  rw [hsteps]
  exact within_of_blocks Feature.steps hbody calm_of_feature hrest within_of_feature

end Within

section Marks

variable {mark : Mark} {n : Nat} {word : StepWord}

theorem mem_rows_marks {rows : List Row} (h : mark ∈ rows.flatMap Row.marks) : mark.2 = .row := by
  obtain ⟨row, _, hrow⟩ := List.mem_flatMap.mp h
  rw [List.mem_singleton.mp hrow]

theorem exists_step_of_marks {ss : List Step} (h : (n, Node.step word) ∈ ss.flatMap Step.marks) :
    ∃ s ∈ ss, s.line = n ∧ s.word = word := by
  obtain ⟨s, hs, hmark⟩ := List.mem_flatMap.mp h
  rcases List.mem_cons.mp hmark with heq | hargument
  · cases heq
    exact ⟨s, hs, rfl, rfl⟩
  · obtain ⟨a, _, hmem⟩ := List.mem_flatMap.mp hargument
    cases a with
    | docstring d => cases List.mem_singleton.mp hmem
    | table rows => cases mem_rows_marks hmem

/-- A line that is marked as a step is the line of a step. -/
theorem Document.exists_step_of_mark {doc : Document} (h : (n, Node.step word) ∈ doc.marks) :
    ∃ s ∈ doc.steps, s.line = n ∧ s.word = word := by
  obtain ⟨f, hf, hmark⟩ := List.mem_flatMap.mp h
  rw [Document.steps, Option.mem_toList.mp hf]
  rcases List.mem_cons.mp hmark with heq | hblock
  · cases heq
  rcases List.mem_append.mp hblock with hblock | hblock
  · obtain ⟨b, hb, hunder⟩ := List.mem_flatMap.mp hblock
    rcases List.mem_cons.mp hunder with heq | hsteps
    · cases heq
    · obtain ⟨s, hs, hstep⟩ := exists_step_of_marks hsteps
      refine ⟨s, List.mem_append_left _ ?_, hstep⟩
      rwa [Option.mem_toList.mp hb]
  · obtain ⟨c, hc, hunder⟩ := List.mem_flatMap.mp hblock
    rcases List.mem_cons.mp hunder with heq | hmore
    · cases heq
    rcases List.mem_append.mp hmore with hsteps | hexamples
    · obtain ⟨s, hs, hstep⟩ := exists_step_of_marks hsteps
      exact ⟨s, List.mem_append_right _ (List.mem_flatMap.mpr ⟨c, hc, hs⟩), hstep⟩
    · obtain ⟨e, _, hmem⟩ := List.mem_flatMap.mp hexamples
      rcases List.mem_cons.mp hmem with heq | hrows
      · cases heq
      · cases mem_rows_marks hrows

end Marks

/-- The step is read off the lines from the one with the index on. -/
def Step.StandsAt (s : Step) (tokens : List Token) (i : Nat) : Prop :=
  ∃ own back, tokens.drop i = own ++ back ∧ s.Derived (i + 1) own ∧ Calm back

section StandsAt

variable {tokens : List Token} {s t : Step} {i : Nat}

/-- Neither an argument nor a row is to be found in front of calm lines. -/
theorem without_of_calm (h : Calm tokens) {p q : Place} (hspans : p.Spans tokens q)
    (hend : q.rest = []) : p.Without .argument ∧ p.Without .row := by
  induction h generalizing p with
  | nil =>
    have hskip : p.skipIgnorable.rest = [] := by
      rw [Place.spans_nil_iff.mp hspans, eq_of_rest_eq_nil hend]
      rfl
    exact ⟨Place.without_of_end hskip nofun, Place.without_of_end hskip nofun⟩
  | filler hline _ ih =>
    obtain ⟨next, hfirst, hmore⟩ := Place.spans_cons_iff.mp hspans
    have hfillers : Fillers [(Kind.filler, _)] := List.forall_mem_singleton.mpr ⟨rfl, hline⟩
    have hskip := (hfirst.reaches hfillers).skipIgnorable_eq
    obtain ⟨hargument, _⟩ := ih hmore
    refine ⟨?_, Place.row_eq_pass_of_filler hspans hline⟩
    rw [Place.Without, Place.behindIgnorable, ← hskip]
    exact hargument
  | @lead own _ _ _ _ hline hargument =>
    have hskip := Place.skipIgnorable_of_head
      (Place.counts_of_head hspans (Place.not_isFiller_of_opens hline))
    have hbar : own ≠ .bar := by
      rintro rfl
      cases hargument
    refine ⟨?_, Place.row_eq_pass_of_spans hspans hline.lead?_eq hbar⟩
    rw [Place.Without, Place.behindIgnorable, hskip]
    exact Place.argument_eq_pass_of_spans hspans hline.lead?_eq hargument

theorem spans_of_drop_eq {own back : List Token} (h : tokens.drop i = own ++ back) :
    (Place.mk (i + 1) ((tokens.drop i).map (some ·.2))).Spans own
      ⟨i + 1 + own.length, back.map (some ·.2)⟩ := by
  refine ⟨?_, rfl⟩
  rw [h, List.map_append]

/-- Where a step stands, the reader of steps reads it. -/
theorem Step.StandsAt.exists_step (h : s.StandsAt tokens i) :
    ∃ q, Place.step ⟨i + 1, (tokens.drop i).map (some ·.2)⟩ = .done s q := by
  obtain ⟨own, back, hsplit, hderived, hcalm⟩ := h
  have hspans := spans_of_drop_eq hsplit
  have hback : (Place.mk (i + 1 + own.length) (back.map (some ·.2))).Spans back
      ⟨i + 1 + own.length + back.length, []⟩ :=
    ⟨(List.append_nil _).symm, rfl⟩
  obtain ⟨hargument, hrow⟩ := without_of_calm hcalm hback rfl
  refine ⟨_, Place.exact_step.done_iff.mpr ⟨own, hspans, hderived, fun ask hask => ?_⟩⟩
  have hask : ask = .argument ∨ ask = .row := by
    rcases hs : s.argument with _ | d | rows
    all_goals
      rw [Step.asks, hs] at hask
      first
        | exact .inl (List.mem_singleton.mp hask)
        | exact .inr (List.mem_singleton.mp hask)
        | cases hask
  rcases hask with rfl | rfl
  · exact hargument
  · exact hrow

/-- What a step is follows from the lines from its own one on. -/
theorem Step.StandsAt.eq (h : s.StandsAt tokens i) (hother : t.StandsAt tokens i) : s = t := by
  obtain ⟨q, hq⟩ := h.exists_step
  obtain ⟨r, hr⟩ := hother.exists_step
  rw [hq] at hr
  cases hr
  rfl

/-- A step with a docstring follows from its own lines alone. -/
theorem Step.StandsAt.eq_of_derived (h : s.StandsAt tokens i) {own back : List Token}
    (hsplit : tokens.drop i = own ++ back) (hderived : t.Derived (i + 1) own)
    (hasks : t.asks = []) : s = t := by
  obtain ⟨q, hq⟩ := h.exists_step
  have hspans := spans_of_drop_eq hsplit
  have hr := Place.exact_step.done_iff.mpr ⟨own, hspans, hderived, by simp [hasks]⟩
  rw [hq] at hr
  cases hr
  rfl

/-- The steps of a document are the lines that are used as steps. -/
theorem Document.Derived.exists_standsAt {doc : Document} (h : doc.Derived tokens)
    (hs : s ∈ doc.steps) : ∃ i line, s.line = i + 1 ∧
      tokens[i]? = some (.lead (.step s.word), line) ∧ s.StandsAt tokens i := by
  obtain ⟨front, own, back, rfl, hderived, hcalm⟩ := h.within s hs
  rw [Nat.add_comm] at hderived
  have hstands : s.StandsAt (front ++ (own ++ back)) front.length := by
    refine ⟨own, back, ?_, hderived, hcalm⟩
    rw [List.drop_left]
  obtain ⟨token, under, ⟨_, _, line, _, _, rfl⟩, hline, _, rfl⟩ := hderived
  refine ⟨front.length, line, hline, ?_, hstands⟩
  rw [List.getElem?_append_right (Nat.le_refl _), Nat.sub_self]
  rfl

/-- Wherever a line is used as a step, a step of the document stands. -/
theorem Document.Derived.exists_step {doc : Document} (h : doc.Derived tokens) {word : StepWord}
    {line : Text} (hline : tokens[i]? = some (.lead (.step word), line)) :
    ∃ s ∈ doc.steps, s.line = i + 1 ∧ s.word = word ∧ s.StandsAt tokens i := by
  have hmark : (1 + i, Node.step word) ∈ doc.marks := by
    rw [h.marks_eq]
    exact mem_marksFrom_iff.mpr ⟨i, _, hline, rfl, rfl⟩
  obtain ⟨s, hs, hnumber, hword⟩ := doc.exists_step_of_mark hmark
  obtain ⟨j, _, hj, _, hstands⟩ := h.exists_standsAt hs
  obtain rfl : j = i := by omega
  exact ⟨s, hs, hj, hword, hstands⟩

end StandsAt

theorem series_singleton {α : Type} {Derived : Nat → List Token → α → Prop} {n : Nat}
    {tokens : List Token} {a : α} (h : Derived n tokens a) : Series Derived n tokens [a] := by
  have hseries := Series.cons h .nil
  rwa [List.append_nil] at hseries

section Numbering

variable {n m : Nat} {tokens under : List Token}

theorem numberTable_numberTable (m n : Nat) (rows : List Row) :
    numberTable m (numberTable n rows) = numberTable m rows := by
  induction rows generalizing m n with
  | nil => rfl
  | cons row rows ih => exact congrArg (row.numbered m :: ·) (ih (m + 1) (n + 1))

theorem Argument.numbered_numbered (m n : Nat) (a : Argument) :
    (a.numbered n).numbered m = a.numbered m := by
  cases a with
  | docstring d => rfl
  | table rows => exact congrArg table (numberTable_numberTable m n rows)

theorem series_numberTable {rows : List Row} (h : Series Row.Derived n tokens rows) (m : Nat) :
    Series Row.Derived m tokens (numberTable m rows) := by
  induction h generalizing m with
  | nil => exact .nil
  | cons hrow _ ih =>
    obtain ⟨ind, inner, trail, line, hopens, htrail, rfl, rfl⟩ := hrow
    exact .cons ⟨ind, inner, trail, line, hopens, htrail, rfl, rfl⟩ (ih (m + 1))

theorem isTable_numberTable {rows : List Row} (h : IsTable rows) (m : Nat) :
    IsTable (numberTable m rows) := by
  obtain ⟨hne, hwidth⟩ := h
  obtain ⟨row, rest, rfl⟩ := List.exists_cons_of_ne_nil hne
  refine ⟨List.cons_ne_nil _ _, forall_mem_numberAll (fun row hrow _ => ?_) m⟩
  exact forall_mem_numberAll (fun other hother _ => hwidth row hrow other hother) m

/-- An argument may stand anywhere else. -/
theorem Argument.Derived.numbered {a : Argument} (h : a.Derived n tokens) (m : Nat) :
    (a.numbered m).Derived m tokens := by
  cases a with
  | docstring d =>
    obtain ⟨lead, ind, more, opening, body, content, closing, hlead, hopens, hbody, hclosing,
      hcontent, rfl, rfl⟩ := h
    exact ⟨lead, ind, more, opening, body, content, closing, hlead, hopens, hbody, hclosing,
      hcontent, rfl, rfl⟩
  | table rows => exact ⟨isTable_numberTable h.1 m, series_numberTable h.2 m⟩

/-- The lines under a step give the same argument under another step with the same word, wherever
    it stands. -/
theorem Step.Derived.exists_numbered {s : Step} {token other : Token} {text : Text}
    (h : s.Derived n (token :: under)) (hother : (Lead.step s.word).Derived text other) (m : Nat) :
    ∃ t : Step, t.Derived m (other :: under) ∧ t.word = s.word ∧
      t.argument.map (Argument.numbered 0) = s.argument.map (Argument.numbered 0) := by
  obtain ⟨_, _, _, _, hunder, hsplit⟩ := h
  cases hsplit
  cases hargument : s.argument with
  | none =>
    rw [hargument] at hunder
    exact ⟨⟨s.word, text, m, none⟩, ⟨other, under, hother, rfl, by cases hunder; exact .nil, rfl⟩,
      rfl, rfl⟩
  | some a =>
    rw [hargument] at hunder
    cases hunder with
    | cons hnode hmore =>
      cases hmore
      obtain ⟨fillers, rest, hfillers, hderived, rfl⟩ := hnode
      have hnumbered := hderived.numbered (m + 1 + fillers.length)
      refine ⟨⟨s.word, text, m, some (a.numbered (m + 1 + fillers.length))⟩,
        ⟨other, _, hother, rfl, .cons ⟨fillers, rest, hfillers, hnumbered, rfl⟩ .nil, ?_⟩, rfl, ?_⟩
      · rfl
      · exact congrArg some (a.numbered_numbered 0 _)

end Numbering

end ScenarioLint.Gherkin
