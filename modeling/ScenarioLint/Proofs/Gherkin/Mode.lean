import ScenarioLint.Proofs.Gherkin.Soundness

/-!
What the lines above a line leave open for it.

All that matters for the use of a line is whether a docstring is open above it and whether a
description may stand there, so the uses of the lines of a document follow from the first line to
the last without the nodes that the lines belong to.
-/

namespace ScenarioLint.Gherkin

inductive Mode where
  /-- Outside docstrings, where no description may stand. -/
  | plain
  /-- Under a header, where a description may stand. -/
  | described
  /-- Inside a docstring that was opened by the lead. -/
  | inside (lead : Lead)
  deriving DecidableEq, Repr

/-- The mode under a line with the lead. -/
def Lead.mode : Lead → Mode
  | feature | background | scenario _ | examples => .described
  | quotes => .inside .quotes
  | backticks => .inside .backticks
  | tag | step _ | bar => .plain

namespace Mode

/-- No docstring is open. -/
def Outside : Mode → Prop
  | plain | described => True
  | inside _ => False

/-- A line may be used in a mode, and the mode under it. -/
inductive Next : Mode → Token → Mode → Prop
  | filler {m : Mode} {line : Text} (hm : m.Outside) (hline : IsFiller line) :
      Next m (.filler, line) m
  | description {line : Text} (hline : IsDescriptionLine line) :
      Next described (.description, line) described
  | lead {m : Mode} {own : Lead} {ind more line : Text} (hm : m.Outside)
      (hline : own.Opens ind more line) (hplain : m = described → ¬ IsDescriptionLine line) :
      Next m (.lead own, line) own.mode
  | content {own : Lead} {line : Text} (hline : line.trim ≠ own.text) :
      Next (inside own) (.content, line) (inside own)
  | closing {own : Lead} {line : Text} (hline : line.trim = own.text) :
      Next (inside own) (.closing, line) plain

/-- Lines may be used one after the other, and the mode under them. -/
inductive Passes : Mode → List Token → Mode → Prop
  | nil {m : Mode} : Passes m [] m
  | cons {m n k : Mode} {token : Token} {tokens : List Token} (h : m.Next token n)
      (hmore : n.Passes tokens k) : Passes m (token :: tokens) k

/-- Lines may be used one after the other without a docstring that stays open. -/
def Clears (m : Mode) (tokens : List Token) : Prop :=
  ∃ n : Mode, n.Outside ∧ m.Passes tokens n

variable {m n k : Mode} {token : Token} {tokens front back rest : List Token} {line : Text}
  {kind other : Kind} {own : Lead}

theorem passes_cons_iff :
    m.Passes (token :: tokens) k ↔ ∃ n, m.Next token n ∧ n.Passes tokens k := by
  constructor
  · rintro (_ | ⟨hfirst, hmore⟩)
    exact ⟨_, hfirst, hmore⟩
  · rintro ⟨n, hfirst, hmore⟩
    exact .cons hfirst hmore

theorem passes_append_iff :
    m.Passes (front ++ back) k ↔ ∃ n, m.Passes front n ∧ n.Passes back k := by
  constructor
  · intro h
    induction front generalizing m with
    | nil => exact ⟨m, .nil, h⟩
    | cons token front ih =>
      obtain ⟨n, hfirst, hmore⟩ := passes_cons_iff.mp h
      obtain ⟨l, hfront, hback⟩ := ih hmore
      exact ⟨l, .cons hfirst hfront, hback⟩
  · rintro ⟨n, hfront, hback⟩
    induction hfront with
    | nil => exact hback
    | cons hfirst _ ih => exact .cons hfirst (ih hback)

theorem Next.eq_or_of_inside (h : m.Next (kind, line) n) (hn : n = inside own) :
    m = inside own ∨ kind = .lead own ∧ own.mode = inside own := by
  cases h with
  | filler | content => exact .inl hn
  | description | closing => cases hn
  | @lead _ other =>
    right
    cases other <;> cases hn <;> exact ⟨rfl, rfl⟩

/-- A docstring that is open at the end was open at the start or was opened in between. -/
theorem Passes.eq_or_mem_of_inside (h : m.Passes tokens n) (hn : n = inside own) :
    m = inside own ∨ own.mode = inside own ∧ ∃ line, (Kind.lead own, line) ∈ tokens := by
  induction h with
  | nil => exact .inl hn
  | @cons _ _ _ token _ hfirst _ ih =>
    rcases ih hn with hnext | ⟨hmode, line, hline⟩
    · obtain hopen | ⟨hkind, hmode⟩ := hfirst.eq_or_of_inside hnext
      · exact .inl hopen
      · refine .inr ⟨hmode, token.2, ?_⟩
        rw [← hkind]
        exact List.mem_cons_self
    · exact .inr ⟨hmode, line, List.mem_cons_of_mem _ hline⟩

theorem not_isDescriptionLine_of_isFiller (h : IsFiller line) : ¬ IsDescriptionLine line := by
  rw [isDescriptionLine_iff, description?_of_isIgnorable (isFiller_iff.mp h)]
  rintro ⟨⟩

/-- Mode and line tell the use of the line. -/
theorem Next.kind_eq (h : m.Next (kind, line) n) (hother : m.Next (other, line) k) :
    kind = other := by
  cases h with
  | filler hm hline =>
    cases hother with
    | filler => rfl
    | description hdescribes => exact absurd hdescribes (not_isDescriptionLine_of_isFiller hline)
    | lead _ hopens => exact absurd hline (Place.not_isFiller_of_opens hopens)
    | content | closing => cases hm
  | description hline =>
    cases hother with
    | filler _ hfiller => exact absurd hline (not_isDescriptionLine_of_isFiller hfiller)
    | description => rfl
    | lead _ _ hplain => exact absurd hline (hplain rfl)
  | lead hm hopens hplain =>
    cases hother with
    | filler _ hfiller => exact absurd hfiller (Place.not_isFiller_of_opens hopens)
    | description hdescribes => exact absurd hdescribes (hplain rfl)
    | lead _ hother =>
      have hlead := hopens.lead?_eq.symm.trans hother.lead?_eq
      injection hlead with hlead
      injection hlead with hsame
      rw [hsame]
    | content | closing => cases hm
  | content hline =>
    cases hother with
    | content => rfl
    | closing heq => exact absurd heq hline
    | filler hm | lead hm => cases hm
  | closing hline =>
    cases hother with
    | content hne => exact absurd hline hne
    | closing => rfl
    | filler hm | lead hm => cases hm

/-- Every line with a lead but that of a step is more than a description. -/
theorem not_isDescriptionLine_of_opens {ind more : Text} (h : own.Opens ind more line)
    (hown : ∀ word, own ≠ .step word) : ¬ IsDescriptionLine line := by
  have hall : ∀ lead ∈ Lead.all, (∃ word ∈ StepWord.all, lead = .step word) ∨
      ∀ c ∈ lead.text.getLast?, isSpace c = false := by
    decide
  rcases Lead.forall_of_all hall own with ⟨word, _, hstep⟩ | hlast
  · exact absurd hstep (hown word)
  · have hleads : Leads own more line := ⟨⟨ind, h⟩, prefix_trimEnd_append hlast more⟩
    rw [isDescriptionLine_iff, hleads.description?_eq]
    rintro ⟨⟩

/-- The use of a line tells the mode under it. -/
theorem Next.mode_eq {next : Text} (h : m.Next (kind, line) n) (hother : m.Next (kind, next) k) :
    n = k := by
  cases h <;> cases hother <;> rfl

/-- The mode under the same lines if some more may stand in front of them. -/
def Follows (m n : Mode) : Prop :=
  n = m ∨ m.Outside ∧ n = plain

theorem Follows.outside (h : Follows m n) (hm : m.Outside) : n.Outside := by
  rcases h with rfl | ⟨_, rfl⟩
  · exact hm
  · trivial

/-- Only a description may have another use where more stands in front of it. -/
theorem Follows.next {l : Mode} (h : Follows m n) (hnext : m.Next (kind, line) k)
    (hother : n.Next (other, line) l) : Follows k l ∧ (other = kind ∨ kind = .description) := by
  rcases h with rfl | ⟨hm, rfl⟩
  · obtain rfl := hnext.kind_eq hother
    exact ⟨.inl (hother.mode_eq hnext), .inl rfl⟩
  cases hnext with
  | filler _ hline =>
    obtain rfl := (Next.filler (m := plain) trivial hline).kind_eq hother
    cases hother
    exact ⟨.inr ⟨hm, rfl⟩, .inl rfl⟩
  | lead _ hopens _ =>
    have hsame : plain.Next (.lead _, line) _ := .lead trivial hopens nofun
    obtain rfl := hsame.kind_eq hother
    exact ⟨.inl (hother.mode_eq hsame), .inl rfl⟩
  | description hline =>
    refine ⟨.inr ⟨trivial, ?_⟩, .inr rfl⟩
    cases hother with
    | filler => rfl
    | @lead _ own _ _ _ _ hopens _ =>
      by_cases hstep : ∃ word, own = .step word
      · obtain ⟨word, rfl⟩ := hstep
        rfl
      · exact absurd hline (not_isDescriptionLine_of_opens hopens (not_exists.mp hstep))
  | content | closing => cases hm
section Nodes

variable {i : Nat} {words texts : List Text}

theorem passes_fillers (h : Fillers tokens) (hm : m.Outside) : m.Passes tokens m := by
  induction tokens with
  | nil => exact .nil
  | cons token tokens ih =>
    obtain ⟨kind, line⟩ := token
    obtain ⟨⟨hkind, hline⟩, hmore⟩ := List.forall_mem_cons.mp h
    obtain rfl : kind = .filler := hkind
    exact .cons (.filler hm hline) (ih hmore)

/-- A line with a lead and what stands under it. -/
theorem passes_derived {text : Text} (h : own.Derived text token)
    (hown : ∀ word, own ≠ .step word) (hm : m.Outside) (hrest : own.mode.Passes rest n) :
    m.Passes (token :: rest) n := by
  obtain ⟨ind, more, line, hopens, _, rfl⟩ := h
  exact .cons (.lead hm hopens fun _ => not_isDescriptionLine_of_opens hopens hown) hrest

theorem clears_tags (h : TagsDerived tokens words) (hm : m.Outside) :
    m.Clears tokens := by
  induction h generalizing m with
  | nil => exact ⟨m, hm, .nil⟩
  | cons hline hfillers _ ih =>
    obtain ⟨n, hn, hmore⟩ := ih (m := plain) trivial
    have hplain := not_isDescriptionLine_of_opens hline (by simp)
    exact ⟨n, hn, .cons (.lead hm hline fun _ => hplain)
      (passes_append_iff.mpr ⟨plain, passes_fillers hfillers trivial, hmore⟩)⟩

theorem passes_description (h : DescriptionDerived tokens texts) :
    described.Passes tokens described := by
  induction h with
  | nil => exact .nil
  | filler hline _ ih => exact .cons (.filler trivial hline) ih
  | text hline _ ih => exact .cons (.description hline) ih

theorem passes_content {body : List Text} (h : ∀ line ∈ body, line.trim ≠ own.text) :
    (inside own).Passes (body.map (Kind.content, ·)) (inside own) := by
  induction body with
  | nil => exact .nil
  | cons line body ih =>
    obtain ⟨hline, hmore⟩ := List.forall_mem_cons.mp h
    exact .cons (.content hline) (ih hmore)

theorem passes_row {row : Row} (h : row.Derived i tokens) (hm : m.Outside) :
    m.Passes tokens plain := by
  obtain ⟨ind, inner, trail, line, hopens, _, _, rfl⟩ := h
  exact .cons (.lead hm hopens fun _ => not_isDescriptionLine_of_opens hopens (by simp)) .nil

/-- Several nodes that leave nothing open. -/
theorem passes_series_plain {α : Type} {Derived : Nat → List Token → α → Prop} {nodes : List α}
    (hseries : Series Derived i tokens nodes)
    (h : ∀ i tokens a, Derived i tokens a → plain.Passes tokens plain) :
    plain.Passes tokens plain := by
  induction hseries with
  | nil => exact .nil
  | cons hnode _ ih => exact passes_append_iff.mpr ⟨plain, h _ _ _ hnode, ih⟩

theorem passes_table {rows : List Row} (h : TableDerived i tokens rows) (hm : m.Outside) :
    m.Passes tokens plain := by
  obtain ⟨⟨hne, _⟩, hseries⟩ := h
  cases hseries with
  | nil => exact absurd rfl hne
  | cons hfirst hmore =>
    have hrest := passes_series_plain hmore fun _ _ _ hrow => passes_row hrow trivial
    exact passes_append_iff.mpr ⟨plain, passes_row hfirst hm, hrest⟩

theorem passes_argument {a : Argument} (h : a.Derived i tokens) : plain.Passes tokens plain := by
  cases a with
  | docstring d =>
    obtain ⟨lead, ind, more, opening, body, _, closing, hlead, hopens, hbody, hclosing, _, _,
      rfl⟩ := h
    have hmode : lead.mode = inside lead := by
      rcases hlead with rfl | rfl <;> rfl
    have hopening : plain.Next (.lead lead, opening) (inside lead) :=
      hmode ▸ .lead trivial hopens (by rintro ⟨⟩)
    exact .cons hopening
      (passes_append_iff.mpr ⟨_, passes_content hbody, .cons (.closing hclosing) .nil⟩)
  | table rows => exact passes_table h trivial

theorem passes_blocks_plain {α : Type} {Derived : Nat → List Token → α → Prop} {nodes : List α}
    (hseries : Series (BehindFillers Derived) i tokens nodes)
    (h : ∀ i tokens a, Derived i tokens a → plain.Passes tokens plain) :
    plain.Passes tokens plain := by
  refine passes_series_plain hseries ?_
  rintro i _ a ⟨fillers, rest, hfillers, hrest, rfl⟩
  exact passes_append_iff.mpr ⟨plain, passes_fillers hfillers trivial, h _ _ _ hrest⟩

theorem passes_step {s : Step} (h : s.Derived i tokens) (hm : m.Outside)
    (hplain : m = described → StartsPlainly tokens) : m.Passes tokens plain := by
  obtain ⟨_, under, ⟨ind, more, line, hopens, _, rfl⟩, _, hunder, rfl⟩ := h
  refine .cons (.lead hm hopens fun hdescribed => ?_)
    (passes_blocks_plain hunder fun _ _ _ => passes_argument)
  exact (hplain hdescribed _ rfl).2

theorem clears_steps {ss : List Step} (h : Series (BehindFillers Step.Derived) i tokens ss)
    (hm : m.Outside) (hplain : m = described → StartsPlainly tokens) :
    m.Clears tokens := by
  cases h with
  | nil => exact ⟨m, hm, .nil⟩
  | cons hfirst hmore =>
    obtain ⟨fillers, rest, hfillers, hstep, rfl⟩ := hfirst
    have hrest := passes_blocks_plain hmore fun _ _ _ hderived =>
      passes_step hderived trivial (by rintro ⟨⟩)
    refine ⟨plain, trivial, passes_append_iff.mpr ⟨plain, passes_append_iff.mpr
      ⟨m, passes_fillers hfillers hm, passes_step hstep hm fun hdescribed => ?_⟩, hrest⟩⟩
    cases fillers with
    | nil =>
      intro token htoken
      refine hplain hdescribed token ?_
      rw [List.nil_append, List.head?_append, htoken]
      rfl
    | cons filler fillers =>
      exact absurd (hfillers filler List.mem_cons_self).2 (hplain hdescribed filler rfl).1

/-- Several nodes, each of which can be read outside docstrings. -/
theorem clears_blocks {α : Type} {Derived : Nat → List Token → α → Prop} {nodes : List α}
    (hseries : Series (BehindFillers Derived) i tokens nodes)
    (h : ∀ {i tokens a} {m : Mode}, Derived i tokens a → m.Outside → m.Clears tokens)
    (hm : m.Outside) : m.Clears tokens := by
  induction hseries generalizing m with
  | nil => exact ⟨m, hm, .nil⟩
  | cons hnode _ ih =>
    obtain ⟨fillers, rest, hfillers, hrest, rfl⟩ := hnode
    obtain ⟨n, hn, hnode⟩ := h hrest hm
    obtain ⟨k, hk, hmore⟩ := ih hn
    exact ⟨k, hk, passes_append_iff.mpr ⟨n, passes_append_iff.mpr
      ⟨m, passes_fillers hfillers hm, hnode⟩, hmore⟩⟩

/-- A header behind its tags, with its description, and what stands under it. -/
theorem clears_headed {text : Text} {tags description : List Token} (htags : TagsDerived tags words)
    (htoken : own.Derived text token) (hown : own.mode = described)
    (hdescription : DescriptionDerived description texts) (hm : m.Outside)
    (hrest : described.Clears rest) :
    m.Clears (tags ++ token :: (description ++ rest)) := by
  obtain ⟨l, hl, hfront⟩ := clears_tags htags hm
  obtain ⟨n, hn, hback⟩ := hrest
  have hnot : ∀ word, own ≠ .step word := by
    rintro word rfl
    cases hown
  refine ⟨n, hn, passes_append_iff.mpr ⟨l, hfront, passes_derived htoken hnot hl ?_⟩⟩
  rw [hown]
  exact passes_append_iff.mpr ⟨described, passes_description hdescription, hback⟩

theorem startsPlainly_left (h : StartsPlainly (front ++ back)) : StartsPlainly front := by
  intro token htoken
  refine h token ?_
  rw [List.head?_append, htoken]
  rfl

theorem clears_examples {e : Examples} (h : e.Derived i tokens) (hm : m.Outside) :
    m.Clears tokens := by
  obtain ⟨tags, token, description, texts, table, htags, htoken, _, hdescription, htable, rfl⟩ := h
  exact clears_headed htags htoken rfl hdescription hm ⟨plain, trivial, passes_table htable trivial⟩

theorem clears_scenario {s : Scenario} (h : s.Derived i tokens) (hm : m.Outside) :
    m.Clears tokens := by
  obtain ⟨tags, token, description, texts, steps, examples, htags, htoken, _, hdescription,
    hplain, hsteps, hexamples, rfl⟩ := h
  refine clears_headed htags htoken rfl hdescription hm ?_
  obtain ⟨l, hl, hfront⟩ := clears_steps hsteps (m := described) trivial
    fun _ => startsPlainly_left hplain
  obtain ⟨n, hn, hback⟩ := clears_blocks hexamples clears_examples hl
  exact ⟨n, hn, passes_append_iff.mpr ⟨l, hfront, hback⟩⟩

theorem clears_background {b : Background} (h : b.Derived i tokens) (hm : m.Outside) :
    m.Clears tokens := by
  obtain ⟨token, description, texts, steps, htoken, _, hdescription, hplain, hsteps, rfl⟩ := h
  exact clears_headed .nil htoken rfl hdescription hm
    (clears_steps hsteps trivial fun _ => hplain)

theorem clears_feature {f : Feature} (h : f.Derived i tokens) (hm : m.Outside) :
    m.Clears tokens := by
  obtain ⟨tags, token, description, background, scenarios, htags, htoken, _, hdescription, _,
    hbackground, hscenarios, rfl⟩ := h
  refine clears_headed htags htoken rfl hdescription hm ?_
  obtain ⟨l, hl, hfront⟩ := clears_blocks hbackground clears_background (m := described) trivial
  obtain ⟨n, hn, hback⟩ := clears_blocks hscenarios clears_scenario hl
  exact ⟨n, hn, passes_append_iff.mpr ⟨l, hfront, hback⟩⟩

end Nodes

end Mode

/-- The uses of the lines of a document follow from the lines alone. -/
theorem Document.Derived.clears {doc : Document} {tokens : List Token} (h : doc.Derived tokens) :
    Mode.plain.Clears tokens := by
  obtain ⟨body, trailing, hbody, htrailing, rfl⟩ := h
  obtain ⟨m, hm, hfront⟩ := Mode.clears_blocks hbody Mode.clears_feature (m := .plain) trivial
  exact ⟨m, hm, Mode.passes_append_iff.mpr ⟨m, hfront, Mode.passes_fillers htrailing hm⟩⟩

end ScenarioLint.Gherkin
