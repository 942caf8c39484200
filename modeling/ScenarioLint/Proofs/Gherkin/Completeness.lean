import ScenarioLint.Proofs.Gherkin.Leaf

/-!
Every document is read back from its lines, each node with the number of its line.
-/

namespace ScenarioLint.Gherkin

section Steps

theorem docstring_of_leads {lead : Lead} {more line : Text} (h : Leads lead more line)
    (hquotes : lead ≠ .quotes) (hbackticks : lead ≠ .backticks) (n : Nat) (rest : List Line) :
    (Place.mk n (some line :: rest)).docstring = .pass := by
  simp [Place.docstring, Place.take, h.opening?_eq_none hquotes hbackticks, Reply.bind]

theorem argument_of_faces {p : Place} (h : Place.Faces (fun lead => !lead.isArgument) p) :
    p.behindIgnorable Place.argument = .pass := by
  have hdocstring : p.skipIgnorable.docstring = .pass := by
    rw [Place.docstring, h.take_eq_pass]
    · rfl
    · intro lead more line hleads hok
      apply hleads.opening?_eq_none
      · rintro rfl
        cases hok
      · rintro rfl
        cases hok
  have hrow : p.skipIgnorable.row = .pass := by
    apply row_of_faces (Place.faces_skipIgnorable_iff.mpr h)
    rintro lead hok rfl
    cases hok
  rw [Place.behindIgnorable, Place.argument, hdocstring, Place.table, hrow]
  rfl

/-- What belongs to a step is read as it was written, and it starts with a line that counts. -/
theorem argument_before {n : Nat} {lines : List Text} {argument : Argument}
    (h : argument.Written n lines) (hgood : argument.WellFormed)
    (hmedia : ∀ d, argument = .docstring d → d.mediaType ≠ some []) {rest : List Line}
    (hfaces : Place.Faces (fun lead => !lead.isArgument) ⟨n + lines.length, rest⟩) :
    (Place.before n lines rest).argument = .done argument ⟨n + lines.length, rest⟩ ∧
      (Place.before n lines rest).skipIgnorable = Place.before n lines rest := by
  cases argument with
  | docstring d =>
    have hread := docstring_before h hgood (hmedia d rfl) rest
    obtain ⟨ind, lead, opening, body, _, closing, hlead, hopening, _, _, _, _, rfl⟩ := h
    refine ⟨?_, ?_⟩
    · rw [Place.argument, hread]
      rfl
    · obtain ⟨pad, trail, hind, hpad, htrail, rfl⟩ := hopening
      have hleads : Leads lead (pad ++ (d.mediaType.getD [] ++ trail))
          (ind ++ (lead.text ++ (pad ++ (d.mediaType.getD [] ++ trail)))) := by
        refine ⟨⟨ind, hind, rfl⟩, prefix_trimEnd_append ?_ _⟩
        rcases hlead with rfl | rfl
        all_goals
          intro c hc
          exact Option.some.inj hc ▸ rfl
      exact Place.skipIgnorable_of_leads hleads n _
  | table rows =>
    have hpass : (Place.mk (n + lines.length) rest).row = .pass := by
      apply row_of_faces hfaces
      rintro lead hok rfl
      cases hok
    have hread := table_before h hgood hpass
    obtain ⟨more, line, tail, rfl, hleads⟩ := TableWritten.first h hgood.1
    refine ⟨?_, Place.skipIgnorable_of_leads hleads n _⟩
    rw [Place.argument, hread, Place.before, List.map_cons, List.cons_append,
      docstring_of_leads hleads (by decide) (by decide)]
    rfl

theorem Step.Written.leads {n : Nat} {lines : List Text} {s : Step} (h : s.Written n lines)
    (hgood : s.WellFormed) : ∃ more line under, lines = line :: under ∧
      Leads (.step s.word) more line ∧ more.trim = s.text := by
  obtain ⟨ind, line, under, hline, _, rfl, _⟩ := h
  obtain ⟨more, hleads, hmore⟩ := hline.leads hgood.1.1 fun _ _ => hgood.2.1
  exact ⟨more, line, under, rfl, hleads, hmore⟩

/-- A step is read with what belongs to it. -/
theorem step_before {n : Nat} {lines : List Text} {s : Step} (h : s.Written n lines)
    (hgood : s.Recoverable) {rest : List Line}
    (hfaces : Place.Faces (fun lead => !lead.isArgument) ⟨n + lines.length, rest⟩) :
    (Place.before n lines rest).step = .done s ⟨n + lines.length, rest⟩ := by
  obtain ⟨hwell, hmedia⟩ := hgood
  obtain ⟨ind, line, under, hwritten, rfl, rfl, hunder⟩ := h
  obtain ⟨more, hleads, hmore⟩ := hwritten.leads hwell.1.1 fun _ _ => hwell.2.1
  rw [Place.step, Place.before, List.map_cons, List.cons_append,
    Place.take_cons hleads.step?_eq_some, Reply.bind, hmore]
  rw [List.length_cons, Nat.add_comm under.length, ← Nat.add_assoc] at hfaces ⊢
  cases hargument : s.argument with
  | none =>
    rw [hargument] at hunder
    dsimp only at hunder
    subst hunder
    have hpass : (Place.mk (s.line + 1) rest).behindIgnorable Place.argument = .pass :=
      argument_of_faces hfaces
    simp only [List.map_nil, List.nil_append, hpass, Reply.optional, Reply.map, Reply.bind, ← hargument]
    rfl
  | some argument =>
    rw [hargument] at hunder
    obtain ⟨fillers, block, hfillers, hblock, rfl⟩ := hunder
    rw [List.length_append, ← Nat.add_assoc] at hfaces ⊢
    obtain ⟨hread, hskip⟩ := argument_before hblock (hwell.2.2 argument hargument)
      (by
        rintro d rfl
        exact hmedia d (by simp [Step.docstrings, hargument])) hfaces
    have hbehind : (Place.mk (s.line + 1) ((fillers ++ block).map some ++ rest)).behindIgnorable
        Place.argument = .done argument ⟨s.line + 1 + fillers.length + block.length, rest⟩ := by
      have hskipped : (Place.mk (s.line + 1) ((fillers ++ block).map some ++ rest)).skipIgnorable =
          Place.before (s.line + 1 + fillers.length) block rest := by
        rw [← hskip]
        exact Place.skipIgnorable_before_fillers hfillers (s.line + 1) block rest
      rw [Place.behindIgnorable, hskipped, hread]
    rw [hbehind]
    simp only [Reply.optional, Reply.map, Reply.bind, ← hargument]

theorem readsNodes_step : Place.ReadsNodes Place.step Step.Written Step.Recoverable
    (Place.Faces fun lead => !lead.isArgument) where
  start := by
    intro n lines s hs hgood
    obtain ⟨more, line, under, hlines, hleads, _⟩ := hs.leads hgood.1
    exact ⟨line, under, hlines, hleads.isIgnorable_eq⟩
  read_before := by
    intro n lines s rest hs hgood hbehind
    exact ⟨_, step_before hs hgood hbehind, Place.Reaches.refl _⟩
  follow_before := by
    intro n lines s rest hs hgood
    obtain ⟨more, line, under, rfl, hleads, _⟩ := hs.leads hgood.1
    exact Place.faces_of_leads hleads rfl n _
  of_skipIgnorable := Place.faces_skipIgnorable_iff.mp

theorem Lead.not_isArgument_of_opensBlock (lead : Lead) (h : lead.opensBlock = true) :
    (!lead.isArgument) = true := by
  cases lead with
  | tag => rfl
  | background => rfl
  | scenario word => rfl
  | examples => rfl
  | _ => cases h

/-- Steps are read up to a line that neither belongs to a step nor is one. -/
theorem steps_before {n : Nat} {lines : List Text} {steps : List Step}
    (h : SeriesWritten Step.Written n lines steps) (hgood : ∀ s ∈ steps, s.Recoverable)
    {rest : List Line} (hfaces : Place.Faces Lead.opensBlock ⟨n + lines.length, rest⟩)
    {start : Place} (hreaches : (Place.before n lines rest).Reaches start) :
    ∃ next, start.steps = .done steps next ∧
      (Place.mk (n + lines.length) rest).Reaches next := by
  refine readsNodes_step.many_series h hgood (hfaces.mono Lead.not_isArgument_of_opensBlock) ?_
    hreaches
  rw [Place.step, hfaces.take_eq_pass]
  · rfl
  · intro lead more line hleads hlead
    apply hleads.step?_eq_none
    rintro word rfl
    cases hlead

end Steps

section Blocks

/-- A block with a header starts with its tags or with the header. -/
theorem exists_first_of_tags {lines tags : List Text} (h : TagsWritten lines tags) {lead : Lead}
    {more header : Text} (hheader : Leads lead more header) (under : List Text) :
    ∃ firstLead firstMore first tail, lines ++ (header :: under) = first :: tail ∧
      Leads firstLead firstMore first ∧ (firstLead = .tag ∨ firstLead = lead) := by
  cases h with
  | nil => exact ⟨lead, more, header, under, rfl, hheader, .inr rfl⟩
  | cons hind hfirst _ _ =>
    obtain ⟨firstMore, hleads, _⟩ := leads_tag _ hind hfirst
    exact ⟨.tag, firstMore, _, _, rfl, hleads, .inl rfl⟩

theorem Examples.Written.first {n : Nat} {lines : List Text} {e : Examples}
    (h : e.Written n lines) (hgood : e.WellFormed) :
    ∃ lead more line tail, lines = line :: tail ∧ Leads lead more line ∧
      (lead = .tag ∨ lead = .examples) := by
  obtain ⟨tags, ind, header, description, texts, table, htags, hheader, _, _, _, rfl⟩ := h
  obtain ⟨more, hleads, _⟩ := hheader.leads hgood.2.1.1 (by simp)
  exact exists_first_of_tags htags hleads _

/-- A table of examples is read with its tags and its header. -/
theorem examples_before {n : Nat} {lines : List Text} {e : Examples} (h : e.Written n lines)
    (hgood : e.WellFormed) {rest : List Line}
    (hfaces : Place.Faces Lead.opensBlock ⟨n + lines.length, rest⟩) :
    (Place.before n lines rest).examples = .done e ⟨n + lines.length, rest⟩ := by
  obtain ⟨tags, ind, header, description, texts, table, htags, hheader, hline, hdescription, htable,
    rfl⟩ := h
  obtain ⟨htagsGood, hname, hrows⟩ := hgood
  obtain ⟨more, hleads, hmore⟩ := hheader.leads hname.1 (by simp)
  have hlength : n + (tags ++ (header :: (description ++ table))).length =
      n + tags.length + 1 + description.length + table.length := by
    simp only [List.length_append, List.length_cons]
    omega
  rw [hlength] at hfaces ⊢
  have hpass : (Place.mk (n + tags.length + 1 + description.length + table.length) rest).row =
      .pass := by
    apply row_of_faces hfaces
    rintro lead hok rfl
    cases hok
  have hread := table_before htable hrows hpass
  obtain ⟨barMore, bar, tail, htail, hbar⟩ := htable.first hrows.1
  have hdescriptionFaces : Place.Faces (fun _ => true)
      (Place.before (n + tags.length + 1 + description.length) table rest) := by
    rw [htail]
    exact Place.faces_of_leads hbar rfl _ _
  have htext := description_before hdescription hdescriptionFaces
  have hskip : (Place.before (n + tags.length + 1 + description.length) table rest).skipIgnorable =
      Place.before (n + tags.length + 1 + description.length) table rest :=
    Place.skipIgnorable_before_of_head htail hbar.isIgnorable_eq
  rw [Place.examples, Place.before_append, List.map_cons, List.cons_append,
    tags_before (by decide) htags htagsGood ⟨more, header, _, rfl, hleads⟩, Reply.bind,
    header_of_leads hleads rfl, Reply.bind, ← Place.before, Place.before_append]
  dsimp only
  rw [htext]
  dsimp only [Reply.bind]
  rw [← Place.before, hskip, hread, hmore]
  simp only [Reply.orElse, Reply.map, Reply.bind, ← hline]

theorem readsNodes_examples : Place.ReadsNodes Place.examples Examples.Written
    Examples.WellFormed (Place.Faces Lead.opensBlock) where
  start := by
    intro n lines e he hgood
    obtain ⟨lead, more, line, tail, hlines, hleads, _⟩ := he.first hgood
    exact ⟨line, tail, hlines, hleads.isIgnorable_eq⟩
  read_before := by
    intro n lines e rest he hgood hbehind
    exact ⟨_, examples_before he hgood hbehind, Place.Reaches.refl _⟩
  follow_before := by
    intro n lines e rest he hgood
    obtain ⟨lead, more, line, tail, rfl, hleads, hlead⟩ := he.first hgood
    refine Place.faces_of_leads hleads ?_ n _
    rcases hlead with rfl | rfl
    · rfl
    · rfl
  of_skipIgnorable := Place.faces_skipIgnorable_iff.mp

theorem Scenario.Written.first {n : Nat} {lines : List Text} {s : Scenario}
    (h : s.Written n lines) (hname : Plain s.name) :
    ∃ lead more line tail, lines = line :: tail ∧ Leads lead more line ∧
      (lead = .tag ∨ lead = .scenario s.word) := by
  obtain ⟨tags, ind, header, description, texts, steps, examples, htags, hheader, _, _, _, _, rfl⟩ :=
    h
  obtain ⟨more, hleads, _⟩ := hheader.leads hname.1 (by simp)
  exact exists_first_of_tags htags hleads _

/-- The tags of a scenario are not taken for those of a table of examples. -/
theorem examples_of_scenario {n : Nat} {lines : List Text} {s : Scenario} (h : s.Written n lines)
    (hgood : s.WellFormed) (rest : List Line) :
    (Place.before n lines rest).examples = .pass := by
  obtain ⟨tags, ind, header, description, texts, steps, examples, htags, hheader, _, _, _, _, rfl⟩ :=
    h
  obtain ⟨more, hleads, _⟩ := hheader.leads hgood.2.1.1 (by simp)
  rw [Place.examples, Place.before_append, List.map_cons, List.cons_append,
    tags_before (by simp) htags hgood.1 ⟨more, header, _, rfl, hleads⟩, Reply.bind,
    header_of_other hleads .examples (by simp) rfl]
  rfl

/-- What may stand behind a scenario: another one, or the end of the file. -/
def BehindScenario (p : Place) : Prop :=
  Place.Faces Lead.opensScenario p ∧ p.behindIgnorable Place.examples = .pass

theorem Lead.opensBlock_of_opensScenario (lead : Lead) (h : lead.opensScenario = true) :
    lead.opensBlock = true := by
  cases lead with
  | tag => rfl
  | scenario word => rfl
  | _ => cases h

/-- A scenario in which every step can be recovered. -/
def Scenario.Recoverable (s : Scenario) : Prop :=
  s.WellFormed ∧ ∀ step ∈ s.steps, step.Recoverable

/-- A scenario is read with its tags, its steps and its examples. -/
theorem scenario_before {n : Nat} {lines : List Text} {s : Scenario} (h : s.Written n lines)
    (hgood : s.Recoverable) {rest : List Line} (hbehind : BehindScenario ⟨n + lines.length, rest⟩) :
    ∃ next, (Place.before n lines rest).scenario = .done s next ∧
      (Place.mk (n + lines.length) rest).Reaches next := by
  obtain ⟨tags, ind, header, description, texts, steps, examples, htags, hheader, hline,
    hdescription, hsteps, hexamples, rfl⟩ := h
  obtain ⟨⟨htagsGood, hname, _, hexamplesGood⟩, hstepsGood⟩ := hgood
  obtain ⟨more, hleads, hmore⟩ := hheader.leads hname.1 (by simp)
  have hlength : n + (tags ++ (header :: (description ++ (steps ++ examples)))).length =
      n + tags.length + 1 + description.length + steps.length + examples.length := by
    simp only [List.length_append, List.length_cons]
    omega
  rw [hlength] at hbehind ⊢
  have hend := hbehind.1.mono Lead.opensBlock_of_opensScenario
  have hexamplesFaces := readsNodes_examples.follow_series hexamples hexamplesGood hend
  have hstepsFaces := readsNodes_step.follow_series hsteps hstepsGood
    (hexamplesFaces.mono Lead.not_isArgument_of_opensBlock)
  have htext := description_before hdescription hstepsFaces
  obtain ⟨behindSteps, hreadSteps, hreachesSteps⟩ := steps_before hsteps hstepsGood hexamplesFaces
    (Place.reaches_skipIgnorable _)
  obtain ⟨last, hreadExamples, hreachesLast⟩ := readsNodes_examples.many_series hexamples
    hexamplesGood hend hbehind.2 hreachesSteps
  refine ⟨last, ?_, hreachesLast⟩
  rw [Place.scenario, Place.before_append, List.map_cons, List.cons_append,
    tags_before (by simp) htags htagsGood ⟨more, header, _, rfl, hleads⟩, Reply.bind,
    header_of_scenario hleads, Reply.bind, ← Place.before, Place.before_append]
  dsimp only
  rw [Place.before] at htext
  rw [List.map_append, List.append_assoc, Place.before, htext]
  dsimp only [Reply.bind]
  rw [Place.before] at hreadSteps
  rw [hreadSteps]
  dsimp only [Reply.bind]
  rw [hreadExamples, hmore]
  simp only [Reply.map, Reply.bind, ← hline]

theorem readsNodes_scenario :
    Place.ReadsNodes Place.scenario Scenario.Written Scenario.Recoverable BehindScenario where
  start := by
    intro n lines s hs hgood
    obtain ⟨lead, more, line, tail, hlines, hleads, _⟩ := hs.first hgood.1.2.1
    exact ⟨line, tail, hlines, hleads.isIgnorable_eq⟩
  read_before := fun hs hgood hbehind => scenario_before hs hgood hbehind
  follow_before := by
    intro n lines s rest hs hgood
    obtain ⟨lead, more, line, tail, hlines, hleads, hlead⟩ := hs.first hgood.1.2.1
    refine ⟨?_, ?_⟩
    · subst hlines
      refine Place.faces_of_leads hleads ?_ n _
      rcases hlead with rfl | rfl
      · rfl
      · rfl
    · rw [Place.behindIgnorable, Place.skipIgnorable_before_of_head hlines hleads.isIgnorable_eq]
      exact examples_of_scenario hs hgood.1 rest
  of_skipIgnorable := by
    intro p hp
    refine ⟨Place.faces_skipIgnorable_iff.mp hp.1, ?_⟩
    have hpass := hp.2
    rw [Place.behindIgnorable, Place.skipIgnorable_skipIgnorable] at hpass
    exact hpass

/-- A background in which every step can be recovered. -/
def Background.Recoverable (b : Background) : Prop :=
  b.WellFormed ∧ ∀ step ∈ b.steps, step.Recoverable

theorem readsNodes_background : Place.ReadsNodes Place.background Background.Written
    Background.Recoverable (Place.Faces Lead.opensBlock) where
  start := by
    intro n lines b hb hgood
    obtain ⟨ind, header, description, texts, steps, hheader, _, _, _, rfl⟩ := hb
    obtain ⟨more, hleads, _⟩ := hheader.leads hgood.1.1.1 (by simp)
    exact ⟨header, _, rfl, hleads.isIgnorable_eq⟩
  read_before := by
    intro n lines b rest hb hgood hbehind
    obtain ⟨ind, header, description, texts, steps, hheader, rfl, hdescription, hsteps, rfl⟩ := hb
    obtain ⟨⟨hname, _⟩, hstepsGood⟩ := hgood
    obtain ⟨more, hleads, hmore⟩ := hheader.leads hname.1 (by simp)
    have hlength : b.line + (header :: (description ++ steps)).length =
        b.line + 1 + description.length + steps.length := by
      simp only [List.length_append, List.length_cons]
      omega
    rw [hlength] at hbehind ⊢
    have hstepsFaces := readsNodes_step.follow_series hsteps hstepsGood
      (hbehind.mono Lead.not_isArgument_of_opensBlock)
    have htext := description_before hdescription hstepsFaces
    obtain ⟨last, hread, hreaches⟩ := steps_before hsteps hstepsGood hbehind
      (Place.reaches_skipIgnorable _)
    refine ⟨last, ?_, hreaches⟩
    rw [Place.background, Place.before, List.map_cons, List.cons_append,
      header_of_leads hleads rfl, Reply.bind, ← Place.before, Place.before_append]
    dsimp only
    rw [htext]
    dsimp only [Reply.bind]
    rw [← Place.before, hread, hmore]
    rfl
  follow_before := by
    intro n lines b rest hb hgood
    obtain ⟨ind, header, description, texts, steps, hheader, _, _, _, rfl⟩ := hb
    obtain ⟨more, hleads, _⟩ := hheader.leads hgood.1.1.1 (by simp)
    exact Place.faces_of_leads hleads rfl n _
  of_skipIgnorable := Place.faces_skipIgnorable_iff.mp

end Blocks

section Document

theorem recoverable_of_mem_steps {f : Feature} (hgood : f.WellFormed)
    (hmedia : ∀ d ∈ f.steps.flatMap Step.docstrings, d.mediaType ≠ some []) :
    (∀ b ∈ f.background, b.Recoverable) ∧ ∀ s ∈ f.scenarios, s.Recoverable := by
  obtain ⟨_, _, _, hbackground, hscenarios⟩ := hgood
  refine ⟨fun b hb => ⟨hbackground b hb, ?_⟩, fun s hs => ⟨hscenarios s hs, ?_⟩⟩
  · intro step hstep
    refine ⟨(hbackground b hb).2 step hstep, fun d hd => hmedia d ?_⟩
    rw [List.mem_flatMap]
    refine ⟨step, List.mem_append_left _ ?_, hd⟩
    rw [Option.mem_def.mp hb]
    exact hstep
  · intro step hstep
    refine ⟨(hscenarios s hs).2.2.1 step hstep, fun d hd => hmedia d ?_⟩
    rw [List.mem_flatMap]
    exact ⟨step, List.mem_append_right _ (List.mem_flatMap.mpr ⟨s, hs, hstep⟩), hd⟩

/-- A feature that can be recovered from its lines. -/
def Feature.Recoverable (f : Feature) : Prop :=
  f.WellFormed ∧ ∀ d ∈ f.steps.flatMap Step.docstrings, d.mediaType ≠ some []

/-- The file ends behind the lines that do not count. -/
def AtEnd (p : Place) : Prop :=
  p.skipIgnorable.rest = []

theorem tags_of_nil (n : Nat) : (Place.mk n []).tags = .done [] ⟨n, []⟩ := by
  rw [Place.tags, Place.many_of_pass (p := ⟨n, []⟩) rfl]
  rfl

theorem eq_of_rest_eq_nil {p : Place} (h : p.rest = []) : p = ⟨p.line, []⟩ := by
  obtain ⟨n, rest⟩ := p
  cases h
  rfl

/-- At the end of the file, the readers of blocks with tags pass. -/
theorem pass_of_rest_eq_nil {p : Place} (h : p.rest = []) :
    p.scenario = .pass ∧ p.examples = .pass ∧ p.feature = .pass := by
  rw [eq_of_rest_eq_nil h, Place.scenario, Place.examples, Place.feature, tags_of_nil]
  exact ⟨rfl, rfl, rfl⟩

theorem behindScenario_of_atEnd {p : Place} (h : AtEnd p) : BehindScenario p :=
  ⟨.inl h, (pass_of_rest_eq_nil h).2.1⟩

theorem Feature.Written.first {n : Nat} {lines : List Text} {f : Feature}
    (h : f.Written n lines) (hname : Plain f.name) :
    ∃ lead more line tail, lines = line :: tail ∧ Leads lead more line ∧
      (lead = .tag ∨ lead = .feature) := by
  obtain ⟨tags, ind, header, description, background, scenarios, htags, hheader, _, _, _, _, rfl⟩ := h
  obtain ⟨more, hleads, _⟩ := hheader.leads hname.1 (by simp)
  exact exists_first_of_tags htags hleads _

/-- No background stands where nothing but scenarios can open. -/
theorem background_of_faces {p : Place} (h : p.Faces Lead.opensScenario) :
    p.skipIgnorable.background = .pass := by
  rw [Place.background, Place.header, h.take_eq_pass]
  · rfl
  · intro lead more line hleads hlead
    have hother : Lead.background ≠ lead := by
      rintro rfl
      cases hlead
    have hheader : Line.header? "Background".toList (some line) = none := by
      rw [hleads.header?_eq .background rfl, if_neg hother]
    rw [List.findSome?_cons]
    dsimp only
    rw [hheader]
    rfl

/-- A feature is read with all its scenarios if the file ends behind it. -/
theorem feature_before {n : Nat} {lines : List Text} {f : Feature} (h : f.Written n lines)
    (hgood : f.Recoverable) {rest : List Line} (hend : AtEnd ⟨n + lines.length, rest⟩) :
    ∃ next, (Place.before n lines rest).feature = .done f next ∧
      (Place.mk (n + lines.length) rest).Reaches next := by
  obtain ⟨hbackgroundGood, hscenariosGood⟩ := recoverable_of_mem_steps hgood.1 hgood.2
  obtain ⟨⟨htagsGood, hname, _⟩, _⟩ := hgood
  obtain ⟨tags, ind, header, description, background, scenarios, htags, hheader, hline, hdescription,
    hbackground, hscenarios, rfl⟩ := h
  obtain ⟨more, hleads, hmore⟩ := hheader.leads hname.1 (by simp)
  have hlength : n + (tags ++ (header :: (description ++ (background ++ scenarios)))).length =
      n + tags.length + 1 + description.length + background.length + scenarios.length := by
    simp only [List.length_append, List.length_cons]
    omega
  rw [hlength] at hend ⊢
  have hscenariosBehind := readsNodes_scenario.follow_series hscenarios hscenariosGood
    (behindScenario_of_atEnd hend)
  have hscenariosFaces := hscenariosBehind.1
  have hbackgroundFaces := readsNodes_background.follow_series hbackground
    (by simpa using hbackgroundGood) (hscenariosFaces.mono Lead.opensBlock_of_opensScenario)
  have htext := description_before hdescription hbackgroundFaces
  obtain ⟨behindBackground, hreadBackground, hreachesBackground⟩ :=
    readsNodes_background.toReadsNode.optional_series hbackground hbackgroundGood
      (hscenariosFaces.mono Lead.opensBlock_of_opensScenario)
      (background_of_faces hscenariosFaces) (Place.reaches_skipIgnorable _)
  obtain ⟨last, hreadScenarios, hreachesLast⟩ := readsNodes_scenario.many_series hscenarios
    hscenariosGood (behindScenario_of_atEnd hend) (pass_of_rest_eq_nil hend).1 hreachesBackground
  refine ⟨last, ?_, hreachesLast⟩
  rw [Place.feature, Place.before_append, List.map_cons, List.cons_append,
    tags_before (by simp) htags htagsGood ⟨more, header, _, rfl, hleads⟩, Reply.bind,
    header_of_leads hleads rfl, Reply.bind, ← Place.before, Place.before_append]
  dsimp only
  rw [Place.before] at htext
  rw [List.map_append, List.append_assoc, Place.before, htext]
  dsimp only [Reply.bind]
  rw [Place.before] at hreadBackground
  rw [hreadBackground]
  dsimp only [Reply.bind]
  rw [hreadScenarios, hmore]
  simp only [Reply.map, Reply.bind, ← hline]

theorem readsNode_feature :
    Place.ReadsNode Place.feature Feature.Written Feature.Recoverable AtEnd where
  start := by
    intro n lines f hf hgood
    obtain ⟨lead, more, line, tail, hlines, hleads, _⟩ := hf.first hgood.1.2.1
    exact ⟨line, tail, hlines, hleads.isIgnorable_eq⟩
  read_before := fun hf hgood hend => feature_before hf hgood hend

/-- The lines of a written text are read as they are. -/
theorem all_unlines {lines : List Text} (h : ∀ line ∈ lines, '\n' ∉ line ∧ '\r' ∉ line) :
    Line.all (Text.unlines lines) = lines.map some := by
  have hraw : ∀ line ∈ lines, Line.ofRaw line = some line := by
    intro line hline
    have hreturn := (h line hline).2
    have hsame : line.dropReturn = line := Text.dropReturn_of_not_mem hreturn
    simp [Line.ofRaw, hsame, hreturn]
  rw [Line.all, Text.pieces_unlines fun line hline => (h line hline).1]
  simp only [List.getLast?_concat, if_true, List.dropLast_concat]
  exact List.map_congr_left hraw

/-- A document is read from the lines that write it if its feature can be recovered. -/
theorem document_before {lines : List Text} {doc : Document} (h : doc.Written lines)
    (hgood : ∀ f ∈ doc.feature, f.Recoverable) :
    (Place.before 1 lines []).document = .ok doc := by
  obtain ⟨_, body, trailing, hbody, htrailing, rfl⟩ := h
  have htrail : (Place.mk (1 + body.length) (trailing.map some ++ [])).skipIgnorable.rest = [] := by
    have hskip := Place.skipIgnorable_before_fillers htrailing (1 + body.length) [] []
    rw [List.append_nil] at hskip
    change (Place.before (1 + body.length) trailing []).skipIgnorable.rest = []
    rw [hskip]
    rfl
  have hstart : (Place.before 1 body (trailing.map some ++ [])).Reaches
      (Place.before 1 (body ++ trailing) []).skipIgnorable := by
    rw [Place.before_append]
    exact Place.reaches_skipIgnorable _
  obtain ⟨next, hread, hreaches⟩ := readsNode_feature.optional_series hbody hgood htrail
    (pass_of_rest_eq_nil htrail).2.2 hstart
  rw [Place.behindIgnorable, Place.skipIgnorable_skipIgnorable] at hread
  have hend : next.skipIgnorable.rest = [] := by
    rw [hreaches.skipIgnorable_eq, htrail]
  rw [Place.document]
  dsimp only
  rw [hread]
  dsimp only
  rw [hend]

end Document

theorem parse_unlines_of_recoverable {doc : Document} {lines : List Text}
    (hgood : ∀ f ∈ doc.feature, f.Recoverable) (hwritten : doc.Written lines) :
    parse (Text.unlines lines) = .ok doc := by
  have hlines := all_unlines hwritten.1
  have hread := document_before hwritten hgood
  rw [Place.before, List.append_nil] at hread
  rw [parse, hlines, hread]

/-- Reading undoes writing.  Whatever a writer leaves to chance, a well-formed document is read back
    from its lines with the number of the line of every node, unless it has a docstring whose media
    type is there but empty. -/
theorem parse_unlines_of_written {doc : Document} {lines : List Text} (hgood : doc.WellFormed)
    (hmedia : ∀ d ∈ doc.docstrings, d.mediaType ≠ some []) (hwritten : doc.Written lines) :
    parse (Text.unlines lines) = .ok doc := by
  refine parse_unlines_of_recoverable (fun f hf => ⟨hgood f hf, fun d hd => hmedia d ?_⟩) hwritten
  rw [Document.docstrings, Option.mem_def.mp hf]
  exact hd

/-- An outline with tags, a description, a docstring and examples. -/
def outline : Document :=
  ⟨some ⟨["@api".toList], "F".toList, ["Some text".toList], 3, none,
    [⟨["@smoke".toList, "@fast".toList], .outline, "o".toList, 7,
      [⟨.given, "body".toList, 8, some (.docstring ⟨some "json".toList, "  \x7b".toList, 9⟩)⟩],
      [⟨[], [], 12, [⟨["m".toList, "code".toList], 13⟩, ⟨["GET".toList, []], 14⟩]⟩]⟩]⟩⟩

/-- The lines that write the outline. -/
def outlineLines : List Text :=
  ["# comment", "@api", "Feature: F", "  Some text", "", "  @smoke @fast",
    "\tScenario Outline: o", "    Given body", "  \"\"\"json", "    \x7b", "  \"\"\"", "    Examples:",
    "  | m | code |", "  | GET || "].map String.toList

private theorem step_written : Step.Written 8
    (["    Given body", "  \"\"\"json", "    \x7b", "  \"\"\""].map String.toList)
    ⟨.given, "body".toList, 8, some (.docstring ⟨some "json".toList, "  \x7b".toList, 9⟩)⟩ := by
  refine ⟨"    ".toList, _, _, ⟨[], [], by decide, rfl, rfl, rfl⟩, rfl, rfl, [], _, by simp, ?_, rfl⟩
  exact ⟨"  ".toList, .quotes, _, ["  \x7b".toList], "  ".toList, _, .inl rfl,
    ⟨[], [], by decide, rfl, rfl, rfl⟩, rfl, rfl, by decide, ⟨[], [], by decide, rfl, rfl, rfl⟩, rfl⟩

private theorem examples_written : Examples.Written 12
    (["    Examples:", "  | m | code |", "  | GET || "].map String.toList)
    ⟨[], [], 12, [⟨["m".toList, "code".toList], 13⟩, ⟨["GET".toList, []], 14⟩]⟩ := by
  refine ⟨[], "    ".toList, _, [], [], _, .nil, ⟨[], [], by decide, rfl, rfl, rfl⟩, rfl, .nil, ?_,
    rfl⟩
  refine .cons ⟨"  ".toList, [" m ".toList, " code ".toList], [], by decide, rfl, ?_, rfl⟩ rfl
    (.cons ⟨"  ".toList, [" GET ".toList, []], [' '], by decide, rfl, ?_, rfl⟩ rfl .nil)
  · exact .cons ⟨[' '], [' '], rfl, rfl, rfl⟩ (.cons ⟨[' '], [' '], rfl, rfl, rfl⟩ .nil)
  · exact .cons ⟨[' '], [' '], rfl, rfl, rfl⟩ (.cons ⟨[], [], rfl, rfl, rfl⟩ .nil)

private theorem outline_written : outline.Written outlineLines := by
  have hcomment : ∀ line ∈ ["# comment".toList], IsFiller line := by
    intro line hline
    rw [List.mem_singleton.mp hline]
    exact ⟨[], _, by decide, rfl, .inr rfl⟩
  have htags : TagsWritten ["@api".toList] ["@api".toList] :=
    @TagsWritten.cons [] "@api".toList [] [] [] [] (by decide) rfl (by simp) .nil
  have hscenarioTags : TagsWritten ["  @smoke @fast".toList] ["@smoke".toList, "@fast".toList] :=
    @TagsWritten.cons "  ".toList "@smoke".toList ["@fast".toList] [] [] [] (by decide) rfl (by simp)
      .nil
  have hdescription : DescriptionWritten ["  Some text".toList, []] ["Some text".toList] :=
    @DescriptionWritten.text "  ".toList "Some text".toList [] _ _ rfl (by decide) rfl
      (.filler ⟨[], [], by decide, rfl, .inl rfl⟩ .nil)
  have hsteps := SeriesWritten.singleton step_written
  have hexamples := SeriesWritten.singleton examples_written
  have hscenario : Scenario.Written 6 (outlineLines.drop 5) ⟨_, .outline, "o".toList, 7, [_], [_]⟩ :=
    ⟨_, ['\t'], _, [], [], _, _, hscenarioTags, ⟨[' '], [], by decide, rfl, rfl, rfl⟩, rfl, .nil,
      hsteps, hexamples, rfl⟩
  have hfeature : Feature.Written 2 (outlineLines.drop 1) ⟨_, "F".toList, _, 3, none, [_]⟩ :=
    ⟨_, [], _, _, [], _, htags, ⟨[' '], [], by decide, rfl, rfl, rfl⟩, rfl, hdescription, .nil,
      .singleton hscenario, rfl⟩
  exact ⟨by decide, _, [], SeriesWritten.cons hcomment hfeature .nil, by simp, rfl⟩

/-- The outline is read back. -/
theorem parse_unlines_outline : parse (Text.unlines outlineLines) = .ok outline :=
  parse_unlines_of_written (by decide) (by decide) outline_written

/-- A document with one docstring of any media type. -/
def oneDocstring (mediaType : Option Text) : Document :=
  ⟨some ⟨[], "F".toList, [], 1, none, [⟨[], .scenario, "s".toList, 2,
    [⟨.given, "x".toList, 3, some (.docstring ⟨mediaType, [], 4⟩)⟩], []⟩]⟩⟩

/-- The lines that write it if the media type is missing, and if it is empty as well. -/
def oneDocstringLines : List Text :=
  ["Feature: F", "Scenario: s", "Given x", "\"\"\"", "\"\"\""].map String.toList

private theorem oneDocstring_written {mediaType : Option Text} (h : mediaType.getD [] = []) :
    (oneDocstring mediaType).Written oneDocstringLines := by
  have hdocstring : Docstring.Written 4 (oneDocstringLines.drop 3) ⟨mediaType, [], 4⟩ := by
    refine ⟨[], .quotes, _, [], [], _, .inl rfl, ⟨[], [], by decide, rfl, rfl, ?_⟩, rfl, rfl,
      by simp, ⟨[], [], by decide, rfl, rfl, rfl⟩, rfl⟩
    rw [h]
    rfl
  have hstep : Step.Written 3 (oneDocstringLines.drop 2)
      ⟨.given, "x".toList, 3, some (.docstring ⟨mediaType, [], 4⟩)⟩ :=
    ⟨[], _, _, ⟨[], [], by decide, rfl, rfl, rfl⟩, rfl, rfl, [], _, by simp, hdocstring, rfl⟩
  have hscenario : Scenario.Written 2 (oneDocstringLines.drop 1) ⟨[], .scenario, "s".toList, 2,
      [⟨.given, "x".toList, 3, some (.docstring ⟨mediaType, [], 4⟩)⟩], []⟩ :=
    ⟨[], [], _, [], [], _, [], .nil, ⟨[' '], [], by decide, rfl, rfl, rfl⟩, rfl, .nil,
      .singleton hstep, .nil, rfl⟩
  have hfeature : Feature.Written 1 oneDocstringLines ⟨[], "F".toList, [], 1, none, [_]⟩ :=
    ⟨[], [], _, [], [], _, .nil, ⟨[' '], [], by decide, rfl, rfl, rfl⟩, rfl, .nil, .nil,
      .singleton hscenario, rfl⟩
  exact ⟨by decide, _, [], .singleton hfeature, by simp, rfl⟩

/-- A media type that is there but empty is lost, since nothing is written for it. -/
theorem parse_unlines_ne_of_empty_mediaType :
    (oneDocstring (some [])).WellFormed ∧ (oneDocstring (some [])).Written oneDocstringLines ∧
      parse (Text.unlines oneDocstringLines) ≠ .ok (oneDocstring (some [])) := by
  refine ⟨by decide, oneDocstring_written rfl, ?_⟩
  have hread : parse (Text.unlines oneDocstringLines) = .ok (oneDocstring none) := by
    apply parse_unlines_of_recoverable _ (oneDocstring_written rfl)
    intro f hf
    cases hf
    exact ⟨by decide, by decide⟩
  rw [hread]
  simp [oneDocstring]

end ScenarioLint.Gherkin
