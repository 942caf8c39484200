import ScenarioLint.Proofs.Gherkin.Completeness
import ScenarioLint.Proofs.Gherkin.Exact

/-!
The readers of blocks take exactly the lines that their nodes are derived from.

A header that has nothing under it takes the lines behind it that do not count for a description
of its own.  They stand in front of the next block in a derivation just as well, so what is read is
compared with a derivation only up to such lines.
-/

namespace ScenarioLint.Gherkin

namespace Place

variable {p q : Place} {token : Token} {tokens : List Token}

section Block

theorem fronted_of_derived {lead : Lead} {text : Text} (h : lead.Derived text token)
    (hlead : lead ≠ .tag) {tags rest : List Token} {words : List Text}
    (htags : TagsDerived tags words) : Fronted lead (tags ++ token :: rest) := by
  obtain ⟨_, more, hread, _⟩ := Lead.derived_iff.mp h
  exact ⟨tags, words, token, rest, more, htags, hlead, hread, rfl⟩

theorem fronted_step {n : Nat} {s : Step} (h : s.Derived n tokens) :
    Fronted (.step s.word) tokens := by
  obtain ⟨token, under, htoken, _, _, rfl⟩ := h
  exact fronted_of_derived htoken (by simp) .nil

theorem fronted_examples {n : Nat} {e : Examples} (h : e.Derived n tokens) :
    Fronted .examples tokens := by
  obtain ⟨tags, token, _, _, _, htags, htoken, _, _, _, rfl⟩ := h
  exact fronted_of_derived htoken (by simp) htags

theorem fronted_scenario {n : Nat} {s : Scenario} (h : s.Derived n tokens) :
    Fronted (.scenario s.word) tokens := by
  obtain ⟨tags, token, _, _, _, _, htags, htoken, _, _, _, _, _, rfl⟩ := h
  exact fronted_of_derived htoken (by simp) htags

theorem fronted_background {n : Nat} {b : Background} (h : b.Derived n tokens) :
    Fronted .background tokens := by
  obtain ⟨token, _, _, _, htoken, _, _, _, _, rfl⟩ := h
  exact fronted_of_derived htoken (by simp) .nil

theorem fronted_feature {n : Nat} {f : Feature} (h : f.Derived n tokens) :
    Fronted .feature tokens := by
  obtain ⟨tags, token, _, _, _, htags, htoken, _, _, _, _, _, rfl⟩ := h
  exact fronted_of_derived htoken (by simp) htags

theorem Exact.behindFillers_of_fronted {α : Type} {read : Place → Reply α}
    {Derived : Nat → List Token → α → Prop} {Sequel : α → Place → Prop}
    (h : Exact read Derived Sequel)
    (hfront : ∀ {n tokens a}, Derived n tokens a → ∃ lead, Fronted lead tokens) :
    Exact (behindIgnorable read) (BehindFillers Derived) Sequel :=
  h.behindFillers fun hderived => by
    obtain ⟨lead, hfronted⟩ := hfront hderived
    obtain ⟨token, rest, own, more, rfl, hlead, _⟩ := hfronted.exists_first
    exact ⟨token, rest, rfl, not_isFiller_of_lead? hlead⟩

/-- What is asked for behind a step starts a line of an argument. -/
theorem heeds_of_mem_asks {s : Step} {ask : Ask} (h : ask ∈ s.asks) {lead : Lead}
    (hlead : lead.isArgument = false) : ask.heeds lead = false := by
  have hbar : (lead == .bar) = false := by
    rw [beq_eq_false_iff_ne]
    rintro rfl
    cases hlead
  obtain ⟨word, text, line, argument⟩ := s
  rcases argument with _ | d | rows
  · rw [List.mem_singleton.mp h]
    exact hlead
  · cases h
  · rw [List.mem_singleton.mp h]
    exact hbar

theorem exact_step_behindFillers : Exact (behindIgnorable step) (BehindFillers Step.Derived)
    fun s q => ∀ ask ∈ s.asks, q.Without ask :=
  exact_step.behindFillers_of_fronted fun h => ⟨_, fronted_step h⟩

theorem steps_eq_done_iff {ss : List Step} : p.steps = .done ss q ↔ ∃ tokens, p.Spans tokens q ∧
    Series (BehindFillers Step.Derived) p.line tokens ss ∧ q.Without .step ∧
    ∀ s ∈ ss.getLast?, ∀ ask ∈ s.asks, q.Without ask := by
  rw [steps, many_eq_done_iff, exact_step_behindFillers.repeats_iff]
  · rfl
  · rintro tokens s other p q ⟨fillers, rest, hfillers, hderived, rfl⟩ hspans ask hask
    exact without_of_fronted hfillers (fronted_step hderived) hspans (heeds_of_mem_asks hask rfl)

theorem startsPlainly_of_table {n : Nat} {rows : List Row} (h : TableDerived n tokens rows) :
    StartsPlainly tokens := by
  obtain ⟨ind, _, line, _, hopens, rfl⟩ := exists_bar_of_table h
  intro token htoken
  obtain rfl : (Kind.lead .bar, line) = token := Option.some.inj htoken
  refine ⟨not_isFiller_of_opens hopens, ?_⟩
  rw [isDescriptionLine_iff, description?_of_bar hopens.lead?_eq]
  simp

theorem ne_nil_of_table {n : Nat} {rows : List Row} (h : TableDerived n tokens rows) :
    tokens ≠ [] := by
  obtain ⟨_, _, _, _, _, rfl⟩ := exists_bar_of_table h
  simp

theorem exact_examples : Exact examples Examples.Derived fun _ q => q.Without .row where
  done_iff := by
    intro p q e
    rw [examples]
    refine (headed_eq_done_iff spells_examples fun _ _ _ _ _ => rfl).trans ?_
    simp only [Reply.map_eq_done_iff, Reply.orElse_eq_done_iff, reduceCtorEq, and_false, or_false,
      table_eq_done_iff]
    constructor
    · rintro ⟨tags, words, atHeader, token, _, name, description, texts, mid, htags, htoken,
        hdescription, hat, hmid, _, rows, ⟨table, htable, hrows, hrow⟩, rfl⟩
      rw [line_headed hat hmid] at hrows
      exact ⟨_, spans_headed_iff.mpr ⟨atHeader, mid, hat, hmid, htable⟩,
        ⟨tags, token, description, texts, table, htags, htoken, hat.line_eq, hdescription, hrows, rfl⟩,
        hrow⟩
    · rintro ⟨_, hspans, ⟨tags, token, description, texts, table, htags, htoken, hline, hdescription,
        hrows, rfl⟩, hrow⟩
      obtain ⟨atHeader, mid, hat, hmid, htable⟩ := spans_headed_iff.mp hspans
      have hplain : mid.Without .description := (without_description_iff htable).mpr
        ⟨startsPlainly_of_table hrows, fun hnil => absurd hnil (ne_nil_of_table hrows)⟩
      obtain ⟨words, name, line, rows⟩ := e
      dsimp only at htags htoken hline hrows
      rw [← line_headed hat hmid] at hrows
      refine ⟨tags, words, atHeader, token, (), name, description, texts, mid, htags, htoken,
        hdescription, hat, hmid, hplain, rows, ⟨table, htable, hrows, hrow⟩, ?_⟩
      rw [hat.line_eq, hline]
  ne_nil h := by
    obtain ⟨_, _, _, _, rfl, _, _⟩ := (fronted_examples h).exists_first
    simp

theorem exact_examples_behindFillers : Exact (behindIgnorable examples)
    (BehindFillers Examples.Derived) fun _ q => q.Without .row :=
  exact_examples.behindFillers_of_fronted fun h => ⟨_, fronted_examples h⟩

theorem manyExamples_eq_done_iff {es : List Examples} :
    p.many (behindIgnorable examples) = .done es q ↔ ∃ tokens, p.Spans tokens q ∧
      Series (BehindFillers Examples.Derived) p.line tokens es ∧ q.Without .examples ∧
      (es ≠ [] → q.Without .row) := by
  rw [many_eq_done_iff, exact_examples_behindFillers.repeats_iff]
  · have hlast : (∀ e ∈ es.getLast?, q.Without .row) ↔ (es ≠ [] → q.Without .row) := by
      cases es using List.reverseRecOn <;> simp
    rw [← hlast]
    rfl
  · rintro tokens e other p q ⟨fillers, rest, hfillers, hderived, rfl⟩ hspans
    exact without_of_fronted hfillers (fronted_examples hderived) hspans rfl

theorem forall_asksUnder_iff {ss : List Step} : (∀ ask ∈ asksUnder ss, q.Without ask) ↔
    q.Without .step ∧ (ss = [] → q.Without .description) ∧
      ∀ s ∈ ss.getLast?, ∀ ask ∈ s.asks, q.Without ask := by
  cases ss using List.reverseRecOn <;> simp [asksUnder]

theorem forall_asks_scenario_iff {s : Scenario} : (∀ ask ∈ s.asks, q.Without ask) ↔
    q.Without .examples ∧ (s.examples = [] → ∀ ask ∈ asksUnder s.steps, q.Without ask) ∧
      (s.examples ≠ [] → q.Without .row) := by
  rw [Scenario.asks, List.forall_mem_cons]
  split
  · rename_i hnil
    simp [hnil]
  · rename_i hne
    simp [hne]

theorem exact_scenario :
    Exact scenario Scenario.Derived fun s q => ∀ ask ∈ s.asks, q.Without ask where
  done_iff := by
    intro p q s
    rw [scenario]
    refine (headed_eq_done_iff spells_scenario fun _ _ _ _ _ => rfl).trans ?_
    simp only [Reply.bind_eq_done_iff, Reply.map_eq_done_iff, steps_eq_done_iff,
      manyExamples_eq_done_iff, forall_asks_scenario_iff, forall_asksUnder_iff]
    constructor
    · rintro ⟨tags, words, atHeader, token, word, name, description, texts, mid, htags, htoken,
        hdescription, hat, hmid, hplain, ss, behind, ⟨steps, hsteps, hss, hnostep, hlast⟩, es,
        ⟨examples, hexamples, hes, hnoexamples, hrow⟩, rfl⟩
      have hunder := hsteps.trans hexamples
      rw [hsteps.line_eq, line_headed hat hmid] at hes
      rw [line_headed hat hmid] at hss
      obtain ⟨hstarts, hend⟩ := (without_description_iff hunder).mp hplain
      refine ⟨_, spans_headed_iff.mpr ⟨atHeader, mid, hat, hmid, hunder⟩,
        ⟨tags, token, description, texts, steps, examples, htags, htoken, hat.line_eq, hdescription,
          hstarts, hss, hes, rfl⟩, hnoexamples, ?_, hrow⟩
      rintro rfl
      cases hes
      rw [← spans_nil_iff.mp hexamples]
      refine ⟨hnostep, ?_, hlast⟩
      rintro rfl
      cases hss
      rw [spans_nil_iff.mp hexamples]
      exact hend rfl
    · rintro ⟨_, hspans, ⟨tags, token, description, texts, steps, examples, htags, htoken, hline,
        hdescription, hstarts, hss, hes, rfl⟩, hnoexamples, hasks, hrow⟩
      obtain ⟨atHeader, mid, hat, hmid, hunder⟩ := spans_headed_iff.mp hspans
      obtain ⟨behind, hsteps, hexamples⟩ := spans_append_iff.mp hunder
      obtain ⟨words, word, name, line, ss, es⟩ := s
      dsimp only at htags htoken hline hss hes hasks hrow
      have hwithout : ∀ {ask : Ask}, ask.heeds .examples = false → (es = [] → q.Without ask) →
          behind.Without ask := fun hask => without_of_series
        (fun h => ⟨_, fronted_examples h, hask⟩) hes hexamples
      have hplain : mid.Without .description := by
        refine (without_description_iff hunder).mpr ⟨hstarts, fun hnil => ?_⟩
        obtain ⟨rfl, rfl⟩ := List.append_eq_nil_iff.mp hnil
        obtain rfl : es = [] := nodes_eq_nil exact_examples_behindFillers.ne_nil hes
        exact (hasks rfl).2.1 (nodes_eq_nil exact_step_behindFillers.ne_nil hss)
      rw [← line_headed hat hmid] at hss
      rw [← line_headed hat hmid, ← hsteps.line_eq] at hes
      refine ⟨tags, words, atHeader, token, word, name, description, texts, mid, htags, htoken,
        hdescription, hat, hmid, hplain, ss, behind,
        ⟨steps, hsteps, hss, hwithout rfl fun hnil => (hasks hnil).1, ?_⟩, es,
        ⟨examples, hexamples, hes, hnoexamples, hrow⟩, ?_⟩
      · intro s hs ask hask
        exact hwithout (heeds_of_mem_asks hask rfl) fun hnil => (hasks hnil).2.2 s hs ask hask
      · rw [hat.line_eq, hline]
  ne_nil h := by
    obtain ⟨_, _, _, _, rfl, _, _⟩ := (fronted_scenario h).exists_first
    simp

theorem exact_background :
    Exact background Background.Derived fun b q => ∀ ask ∈ asksUnder b.steps, q.Without ask where
  done_iff := by
    intro p q b
    rw [background]
    simp only [Reply.bind_eq_done_iff, Reply.map_eq_done_iff, description_eq_done_iff,
      steps_eq_done_iff, forall_asksUnder_iff]
    constructor
    · rintro ⟨⟨_, name⟩, next, hheader, texts, mid, ⟨description, hmid, hdescription, hplain⟩, ss,
        ⟨steps, hsteps, hss, hnostep, hlast⟩, rfl⟩
      obtain ⟨token, htokenSpans, htoken⟩ := (header_eq_done_iff spells_background).mp hheader
      rw [hmid.line_eq, htokenSpans.line_eq] at hss
      obtain ⟨hstarts, hend⟩ := (without_description_iff hsteps).mp hplain
      refine ⟨_, htokenSpans.trans (hmid.trans hsteps),
        ⟨token, description, texts, steps, htoken, rfl, hdescription, hstarts, hss, rfl⟩, hnostep,
        ?_, hlast⟩
      rintro rfl
      cases hss
      exact hend rfl
    · rintro ⟨_, hspans, ⟨token, description, texts, steps, htoken, hline, hdescription, hstarts,
        hss, rfl⟩, hnostep, hplain, hlast⟩
      obtain ⟨next, htokenSpans, hspans⟩ := spans_cons_iff.mp hspans
      obtain ⟨mid, hmid, hsteps⟩ := spans_append_iff.mp hspans
      obtain ⟨name, line, ss⟩ := b
      dsimp only at htoken hline hss hplain hlast
      have hmidPlain : mid.Without .description := by
        refine (without_description_iff hsteps).mpr ⟨hstarts, ?_⟩
        rintro rfl
        exact hplain (nodes_eq_nil exact_step_behindFillers.ne_nil hss)
      refine ⟨((), name), next, (header_eq_done_iff spells_background).mpr ⟨token, htokenSpans,
        htoken⟩, texts, mid, ⟨description, hmid, hdescription, hmidPlain⟩, ss,
        ⟨steps, hsteps, ?_, hnostep, hlast⟩, by rw [hline]⟩
      rw [hmid.line_eq, htokenSpans.line_eq]
      exact hss
  ne_nil h := by
    obtain ⟨_, _, _, _, rfl, _, _⟩ := (fronted_background h).exists_first
    simp

theorem exact_background_behindFillers : Exact (behindIgnorable background)
    (BehindFillers Background.Derived) fun b q => ∀ ask ∈ asksUnder b.steps, q.Without ask :=
  exact_background.behindFillers_of_fronted fun h => ⟨_, fronted_background h⟩

theorem exact_scenario_behindFillers : Exact (behindIgnorable scenario)
    (BehindFillers Scenario.Derived) fun s q => ∀ ask ∈ s.asks, q.Without ask :=
  exact_scenario.behindFillers_of_fronted fun h => ⟨_, fronted_scenario h⟩

/-- No header and no line of tags looks like a description. -/
theorem without_description_of_fronted {lead : Lead} (hfronted : Fronted lead tokens)
    (hlead : ∀ word, lead ≠ .step word) (hspans : p.Spans tokens q) : p.Without .description := by
  obtain ⟨token, rest, own, more, rfl, hread, hown⟩ := hfronted.exists_first
  have hends : ∀ lead ∈ Lead.all, (∃ word ∈ StepWord.all, lead = .step word) ∨
      ∀ c ∈ lead.text.getLast?, isSpace c = false := by
    decide
  have hplain : Line.description? (some token.2) = none := by
    obtain ⟨hind, hsplit⟩ := Lead.opens_of_lead? hread
    refine Leads.description?_eq ⟨⟨_, hind, hsplit⟩, prefix_trimEnd_append ?_ more⟩
    rcases hends own own.mem_all with ⟨word, _, rfl⟩ | hlast
    · rcases hown with rfl | hown
      · exact absurd rfl (hlead word)
      · cases hown
    · exact hlast
  refine (without_description_iff hspans).mpr ⟨?_, fun hnil => by cases hnil⟩
  intro other hother
  obtain rfl : token = other := Option.some.inj hother
  refine ⟨not_isFiller_of_lead? hread, ?_⟩
  rw [isDescriptionLine_iff, hplain]
  simp

/-- Lines that do not count are part of the description in front of them, if nothing is between. -/
theorem descriptionDerived_append {fillers : List Token} {texts : List Text}
    (h : DescriptionDerived tokens texts) (hfillers : Fillers fillers) :
    DescriptionDerived (tokens ++ fillers) texts := by
  induction h with
  | nil =>
    induction fillers with
    | nil => exact .nil
    | cons filler fillers ih =>
      obtain ⟨hfirst, hrest⟩ := List.forall_mem_cons.mp hfillers
      obtain ⟨kind, line⟩ := filler
      obtain ⟨rfl, hline⟩ := hfirst
      exact .filler hline (ih hrest)
  | filler hline _ ih => exact .filler hline ih
  | text hline _ ih => exact .text hline ih

/-- A header that has nothing under it but a description can have more lines under it that do not
    count. -/
theorem background_append {n : Nat} {b : Background} {fillers : List Token}
    (h : b.Derived n tokens) (hsteps : b.steps = []) (hfillers : Fillers fillers) :
    b.Derived n (tokens ++ fillers) := by
  obtain ⟨token, description, texts, steps, htoken, hline, hdescription, _, hss, rfl⟩ := h
  rw [hsteps] at hss
  cases hss
  refine ⟨token, description ++ fillers, texts, [], htoken, hline,
    descriptionDerived_append hdescription hfillers, by simp [StartsPlainly], ?_, by simp⟩
  rw [hsteps]
  exact .nil

theorem scenario_append {n : Nat} {s : Scenario} {fillers : List Token} (h : s.Derived n tokens)
    (hsteps : s.steps = []) (hexamples : s.examples = []) (hfillers : Fillers fillers) :
    s.Derived n (tokens ++ fillers) := by
  obtain ⟨tags, token, description, texts, steps, examples, htags, htoken, hline, hdescription, _,
    hss, hes, rfl⟩ := h
  rw [hsteps] at hss
  rw [hexamples] at hes
  cases hss
  cases hes
  refine ⟨tags, token, description ++ fillers, texts, [], [], htags, htoken, hline,
    descriptionDerived_append hdescription hfillers, by simp [StartsPlainly], ?_, ?_, by simp⟩
  · rw [hsteps]
    exact .nil
  · rw [hexamples]
    exact .nil

/-- In front of a scenario nothing else is found, whether or not lines that do not count come first. -/
theorem exists_behind_of_scenario {t : Scenario} {r : Place} (hnext : q.Spans tokens r)
    (hderived : BehindFillers Scenario.Derived q.line tokens t) :
    ∃ fillers rest behind, Fillers fillers ∧ q.Spans fillers behind ∧ behind.Spans rest r ∧
      Fronted (.scenario t.word) rest ∧
      ∀ {ask : Ask}, ask.heeds (.scenario t.word) = false →
        q.Without ask ∧ behind.Without ask := by
  obtain ⟨fillers, rest, hfillers, hrest, rfl⟩ := hderived
  obtain ⟨behind, hfront, hback⟩ := spans_append_iff.mp hnext
  have hfronted := fronted_scenario hrest
  exact ⟨fillers, rest, behind, hfillers, hfront, hback, hfronted, fun hask =>
    ⟨without_of_fronted hfillers hfronted hnext hask,
      without_of_fronted fillers_nil hfronted hback hask⟩⟩

/-- In front of another scenario, a scenario is read up to lines that do not count. -/
theorem scenario_eq_done_of_next {s t : Scenario} {front : List Token} {r : Place}
    (hspans : p.Spans front q) (hderived : s.Derived p.line front) (hnext : q.Spans tokens r)
    (hnextDerived : BehindFillers Scenario.Derived q.line tokens t) :
    ∃ next, p.scenario = .done s next ∧ q.Reaches next := by
  obtain ⟨fillers, rest, behind, hfillers, hfront, hback, hfronted, hwithout⟩ :=
    exists_behind_of_scenario hnext hnextDerived
  by_cases hloose : s.steps = [] ∧ s.examples = []
  · refine ⟨behind, exact_scenario.done_iff.mpr ⟨_, hspans.trans hfront,
      scenario_append hderived hloose.1 hloose.2 hfillers, ?_⟩, hfront.reaches hfillers⟩
    rw [forall_asks_scenario_iff, forall_asksUnder_iff, hloose.1, hloose.2]
    refine ⟨(hwithout rfl).2, fun _ => ⟨(hwithout rfl).2, fun _ => ?_, by simp⟩, by simp⟩
    exact without_description_of_fronted hfronted (by simp) hback
  · refine ⟨q, exact_scenario.done_iff.mpr ⟨_, hspans, hderived, ?_⟩, .refl q⟩
    rw [forall_asks_scenario_iff, forall_asksUnder_iff]
    refine ⟨(hwithout rfl).1, fun hexamples => ⟨(hwithout rfl).1, fun hsteps => ?_, ?_⟩, ?_⟩
    · exact absurd ⟨hsteps, hexamples⟩ hloose
    · exact fun step _ ask hask => (hwithout (heeds_of_mem_asks hask rfl)).1
    · exact fun _ => (hwithout rfl).1

/-- In front of a scenario, a background is read up to lines that do not count. -/
theorem background_eq_done_of_next {b : Background} {t : Scenario} {front : List Token} {r : Place}
    (hspans : p.Spans front q) (hderived : b.Derived p.line front) (hnext : q.Spans tokens r)
    (hnextDerived : BehindFillers Scenario.Derived q.line tokens t) :
    ∃ next, p.background = .done b next ∧ q.Reaches next := by
  obtain ⟨fillers, rest, behind, hfillers, hfront, hback, hfronted, hwithout⟩ :=
    exists_behind_of_scenario hnext hnextDerived
  by_cases hloose : b.steps = []
  · refine ⟨behind, exact_background.done_iff.mpr ⟨_, hspans.trans hfront,
      background_append hderived hloose hfillers, ?_⟩, hfront.reaches hfillers⟩
    rw [forall_asksUnder_iff, hloose]
    refine ⟨(hwithout rfl).2, fun _ => ?_, by simp⟩
    exact without_description_of_fronted hfronted (by simp) hback
  · refine ⟨q, exact_background.done_iff.mpr ⟨_, hspans, hderived, ?_⟩, .refl q⟩
    rw [forall_asksUnder_iff]
    refine ⟨(hwithout rfl).1, fun hsteps => absurd hsteps hloose, ?_⟩
    exact fun step _ ask hask => (hwithout (heeds_of_mem_asks hask rfl)).1

/-- A node behind lines that do not count is read from behind them. -/
theorem skipIgnorable_of_behindFillers {α : Type} {Derived : Nat → List Token → α → Prop} {a : α}
    (hfront : ∀ {n tokens}, Derived n tokens a → ∃ lead, Fronted lead tokens)
    (hderived : BehindFillers Derived p.line tokens a) (hspans : p.Spans tokens q) :
    ∃ rest, p.skipIgnorable.Spans rest q ∧ Derived p.skipIgnorable.line rest a := by
  obtain ⟨fillers, rest, hfillers, hderived, rfl⟩ := hderived
  obtain ⟨between, hat, hback⟩ := spans_append_iff.mp hspans
  rw [← hat.line_eq] at hderived
  obtain ⟨lead, hfronted⟩ := hfront hderived
  obtain ⟨token, more, own, _, rfl, hlead, _⟩ := hfronted.exists_first
  rw [hat.skipIgnorable_eq hfillers (counts_of_head hback (not_isFiller_of_lead? hlead))]
  exact ⟨_, hback, hderived⟩

theorem manyScenarios_eq_done_iff {ss : List Scenario} :
    p.many (behindIgnorable scenario) = .done ss q ↔ ∃ tokens, p.Spans tokens q ∧
      Series (BehindFillers Scenario.Derived) p.line tokens ss ∧ q.Without .scenario ∧
      ∀ s ∈ ss.getLast?, ∀ ask ∈ s.asks, q.Without ask := by
  rw [many_eq_done_iff]
  refine ⟨exact_scenario_behindFillers.exists_series, ?_⟩
  rintro ⟨tokens, hspans, hseries, hpass, hlast⟩
  refine exact_scenario_behindFillers.repeats_of_series ?_ hspans hseries hpass hlast
  intro _ tokens s t p q r hfront hderived hnext hnextDerived
  obtain ⟨rest, hback, hderived⟩ :=
    skipIgnorable_of_behindFillers (fun h => ⟨_, fronted_scenario h⟩) hderived hfront
  obtain ⟨next, hread, hreaches⟩ := scenario_eq_done_of_next hback hderived hnext hnextDerived
  refine ⟨next, hread, ?_⟩
  rw [behindIgnorable, behindIgnorable, hreaches.skipIgnorable_eq]

theorem forall_asks_feature_iff {f : Feature} : (∀ ask ∈ f.asks, q.Without ask) ↔
    q.Without .scenario ∧
      (f.scenarios = [] → f.background = none → q.Without .description ∧ q.Without .background) ∧
      (f.scenarios = [] → ∀ b ∈ f.background, ∀ ask ∈ asksUnder b.steps, q.Without ask) ∧
      ∀ s ∈ f.scenarios.getLast?, ∀ ask ∈ s.asks, q.Without ask := by
  obtain ⟨_, _, _, _, background, ss⟩ := f
  cases ss using List.reverseRecOn with
  | nil => cases background <;> simp [Feature.asks]
  | append_singleton => simp [Feature.asks]

theorem without_background_of_scenarios {n : Nat} {ss : List Scenario}
    (hseries : Series (BehindFillers Scenario.Derived) n tokens ss) (hspans : p.Spans tokens q)
    (hend : ss = [] → q.Without .background) : p.Without .background :=
  without_of_series (fun h => ⟨_, fronted_scenario h, rfl⟩) hseries hspans hend

/-- The blocks under the header of a feature are read. -/
theorem exists_blocks_of_series {b : Option Background} {ss : List Scenario} {front : List Token}
    {behind : Place} (hfront : p.Spans front behind)
    (hb : Series (BehindFillers Background.Derived) p.line front b.toList)
    (hspans : behind.Spans tokens q)
    (hss : Series (BehindFillers Scenario.Derived) behind.line tokens ss)
    (hnone : ss = [] → b = none → q.Without .background)
    (hsome : ss = [] → ∀ a ∈ b, ∀ ask ∈ asksUnder a.steps, q.Without ask)
    (hnoscenario : q.Without .scenario) (hlast : ∀ s ∈ ss.getLast?, ∀ ask ∈ s.asks, q.Without ask) :
    ∃ next, (p.behindIgnorable background).optional p = .done b next ∧
      next.many (behindIgnorable scenario) = .done ss q := by
  have hmany : behind.many (behindIgnorable scenario) = .done ss q :=
    manyScenarios_eq_done_iff.mpr ⟨tokens, hspans, hss, hnoscenario, hlast⟩
  cases b with
  | none =>
    refine ⟨behind, exact_background_behindFillers.optional_iff.mpr ⟨front, hfront, hb, ?_, by simp⟩,
      hmany⟩
    exact fun _ => without_background_of_scenarios hss hspans fun hnil => hnone hnil rfl
  | some b =>
    cases hss with
    | nil =>
      obtain rfl := spans_nil_iff.mp hspans
      refine ⟨behind, exact_background_behindFillers.optional_iff.mpr ⟨front, hfront, hb, by simp, ?_⟩,
        hmany⟩
      exact hsome rfl
    | cons hnode hmore =>
      obtain ⟨_, hnodeSpans, _⟩ := spans_append_iff.mp hspans
      cases hb with
      | cons hbackground hnil =>
        cases hnil
        rw [List.append_nil] at hfront
        obtain ⟨rest, hback, hderived⟩ :=
          skipIgnorable_of_behindFillers (fun h => ⟨_, fronted_background h⟩) hbackground hfront
        obtain ⟨next, hread, hreaches⟩ := background_eq_done_of_next hback hderived hnodeSpans hnode
        refine ⟨next, ?_, ?_⟩
        · rw [behindIgnorable, hread]
          rfl
        · rw [many_eq_done_iff] at hmany ⊢
          refine exact_scenario_behindFillers.repeats_of_eq hmany (by simp) ?_
          rw [behindIgnorable, behindIgnorable, hreaches.skipIgnorable_eq]

theorem exact_feature : Exact feature Feature.Derived fun f q => ∀ ask ∈ f.asks, q.Without ask where
  done_iff := by
    intro p q f
    rw [feature]
    refine (headed_eq_done_iff spells_feature fun _ _ _ _ _ => rfl).trans ?_
    simp only [Reply.bind_eq_done_iff, Reply.map_eq_done_iff, forall_asks_feature_iff]
    constructor
    · rintro ⟨tags, words, atHeader, token, _, name, description, texts, mid, htags, htoken,
        hdescription, hat, hmid, hplain, b, behind, hread, ss, hmany, rfl⟩
      obtain ⟨background, hbackground, hb, hnone, hsome⟩ :=
        exact_background_behindFillers.optional_iff.mp hread
      obtain ⟨scenarios, hscenarios, hss, hnoscenario, hlast⟩ := manyScenarios_eq_done_iff.mp hmany
      have hunder := hbackground.trans hscenarios
      rw [hbackground.line_eq, line_headed hat hmid] at hss
      rw [line_headed hat hmid] at hb
      obtain ⟨hstarts, hend⟩ := (without_description_iff hunder).mp hplain
      refine ⟨_, spans_headed_iff.mpr ⟨atHeader, mid, hat, hmid, hunder⟩,
        ⟨tags, token, description, background, scenarios, htags, htoken, hat.line_eq, hdescription,
          hstarts, hb, hss, rfl⟩, hnoscenario, ?_, ?_, hlast⟩
      · rintro rfl rfl
        cases hss
        cases hb
        rw [← spans_nil_iff.mp hscenarios] at hend ⊢
        exact ⟨hend rfl, hnone rfl⟩
      · rintro rfl
        cases hss
        rw [← spans_nil_iff.mp hscenarios]
        exact hsome
    · rintro ⟨_, hspans, ⟨tags, token, description, background, scenarios, htags, htoken, hline,
        hdescription, hstarts, hb, hss, rfl⟩, hnoscenario, hnone, hsome, hlast⟩
      obtain ⟨atHeader, mid, hat, hmid, hunder⟩ := spans_headed_iff.mp hspans
      obtain ⟨behind, hbackground, hscenarios⟩ := spans_append_iff.mp hunder
      obtain ⟨words, name, texts, line, b, ss⟩ := f
      dsimp only at htags htoken hline hdescription hb hss hnone hsome hlast
      have hplain : mid.Without .description := by
        refine (without_description_iff hunder).mpr ⟨hstarts, fun hnil => ?_⟩
        obtain ⟨rfl, rfl⟩ := List.append_eq_nil_iff.mp hnil
        obtain rfl : ss = [] := nodes_eq_nil exact_scenario_behindFillers.ne_nil hss
        have hlacks : b.toList = [] := nodes_eq_nil exact_background_behindFillers.ne_nil hb
        exact (hnone rfl (Option.toList_eq_nil_iff.mp hlacks)).1
      rw [← line_headed hat hmid] at hb hss
      rw [← hbackground.line_eq] at hss
      obtain ⟨last, hread, hmany⟩ := exists_blocks_of_series hbackground hb hscenarios hss
        (fun hnil hlacks => (hnone hnil hlacks).2) hsome hnoscenario hlast
      refine ⟨tags, words, atHeader, token, (), name, description, texts, mid, htags, htoken,
        hdescription, hat, hmid, hplain, b, last, hread, ss, hmany, ?_⟩
      rw [hat.line_eq, hline]
  ne_nil h := by
    obtain ⟨_, _, _, _, rfl, _, _⟩ := (fronted_feature h).exists_first
    simp

end Block

section Document

/-- At the end of the file nothing is found, but for lines that do not count. -/
theorem without_of_end (h : p.skipIgnorable.rest = []) {ask : Ask} (hask : ask ≠ .description) :
    p.Without ask := by
  have hpass : ∀ {α : Type} (test : Line → Option α), p.skipIgnorable.take test = .pass := by
    intro α test
    rw [take_eq_pass_iff, h]
    simp
  cases ask with
  | description => exact absurd rfl hask
  | argument =>
    rw [Without, behindIgnorable, argument, docstring, hpass, table, row, hpass]
    rfl
  | row =>
    obtain ⟨fillers, hfillers, hspans, _⟩ := skipIgnorable_eq_iff.mp (rfl : p.skipIgnorable = _)
    cases fillers with
    | nil =>
      rw [Without, spans_nil_iff.mp hspans, row, hpass]
      rfl
    | cons filler fillers =>
      exact row_eq_pass_of_filler hspans (hfillers filler List.mem_cons_self).2
  | step =>
    rw [Without, behindIgnorable, step, hpass]
    rfl
  | background =>
    rw [Without, behindIgnorable, background, header, hpass]
    rfl
  | examples => exact (pass_of_rest_eq_nil h).2.1
  | scenario => exact (pass_of_rest_eq_nil h).1

theorem not_mem_asks_of_argument {s : Step} : Ask.description ∉ s.asks := fun h =>
  Bool.noConfusion (heeds_of_mem_asks h (rfl : Lead.tag.isArgument = false))

/-- A feature ends with a description if nothing is under its last header. -/
theorem description_mem_asks_iff {f : Feature} : Ask.description ∈ f.asks ↔
    (f.scenarios = [] ∧ ∀ b ∈ f.background, b.steps = []) ∨
      ∃ front s, f.scenarios = front ++ [s] ∧ s.steps = [] ∧ s.examples = [] := by
  have hunder : ∀ {ss : List Step}, Ask.description ∈ asksUnder ss ↔ ss = [] := by
    intro ss
    cases ss using List.reverseRecOn with
    | nil => simp [asksUnder]
    | append_singleton => simp [asksUnder, not_mem_asks_of_argument]
  obtain ⟨_, _, _, _, background, ss⟩ := f
  cases ss using List.reverseRecOn with
  | nil => cases background <;> simp [Feature.asks, hunder]
  | append_singleton _ s =>
    simp only [Feature.asks, Scenario.asks, List.getLast?_concat, Option.elim_some]
    split <;> simp_all

section Append

variable {α : Type} {Derived : Nat → List Token → α → Prop} {a : α} {fillers : List Token}

theorem behindFillers_append (happend : ∀ {n tokens}, Derived n tokens a →
    Derived n (tokens ++ fillers) a) {n : Nat} (h : BehindFillers Derived n tokens a) :
    BehindFillers Derived n (tokens ++ fillers) a := by
  obtain ⟨front, rest, hfront, hrest, rfl⟩ := h
  exact ⟨front, rest ++ fillers, hfront, happend hrest, List.append_assoc _ _ _⟩

theorem series_append (happend : ∀ {n tokens}, Derived n tokens a →
    Derived n (tokens ++ fillers) a) {n : Nat} {front : List α}
    (h : Series Derived n tokens (front ++ [a])) :
    Series Derived n (tokens ++ fillers) (front ++ [a]) := by
  induction front generalizing n tokens with
  | nil =>
    cases h with
    | cons hnode hnil =>
      cases hnil
      have hseries := Series.cons (happend hnode) .nil
      rwa [List.append_nil] at hseries ⊢
  | cons b front ih =>
    cases h with
    | cons hnode hmore =>
      rw [List.append_assoc]
      exact .cons hnode (ih hmore)

end Append

theorem startsPlainly_append {front back : List Token} (h : StartsPlainly front)
    (hne : front = [] → back = []) : StartsPlainly (front ++ back) := by
  cases front with
  | nil =>
    rw [hne rfl]
    exact h
  | cons token front => exact h

theorem feature_append {n : Nat} {f : Feature} {fillers : List Token} (h : f.Derived n tokens)
    (hloose : Ask.description ∈ f.asks) (hfillers : Fillers fillers) :
    f.Derived n (tokens ++ fillers) := by
  obtain ⟨tags, token, description, background, scenarios, htags, htoken, hline, hdescription,
    hplain, hb, hss, rfl⟩ := h
  rcases description_mem_asks_iff.mp hloose with ⟨hscenarios, hbackground⟩ | ⟨front, s, hscenarios, hs⟩
  · rw [hscenarios] at hss
    cases hss
    cases hfound : f.background with
    | none =>
      rw [hfound] at hb
      cases hb
      refine ⟨tags, token, description ++ fillers, [], [], htags, htoken, hline,
        descriptionDerived_append hdescription hfillers, by simp [StartsPlainly], ?_, ?_, by simp⟩
      · rw [hfound]
        exact .nil
      · rw [hscenarios]
        exact .nil
    | some b =>
      rw [hfound] at hb
      have hne := fun hnil : background = [] => List.cons_ne_nil b []
        (nodes_eq_nil exact_background_behindFillers.ne_nil (hnil ▸ hb))
      have hb : Series _ _ (background ++ fillers) ([] ++ [b]) :=
        series_append (behindFillers_append fun h =>
          background_append h (hbackground b hfound) hfillers) hb
      refine ⟨tags, token, description, background ++ fillers, [], htags, htoken, hline,
        hdescription, ?_, ?_, ?_, by simp⟩
      · rw [List.append_nil] at hplain ⊢
        exact startsPlainly_append hplain fun hnil => absurd hnil hne
      · rw [hfound]
        exact hb
      · rw [hscenarios]
        exact .nil
  · rw [hscenarios] at hss
    have hne := fun hnil : scenarios = [] => List.append_ne_nil_of_right_ne_nil front
      (List.cons_ne_nil s [])
      (nodes_eq_nil exact_scenario_behindFillers.ne_nil (hnil ▸ hss))
    have hss := series_append (behindFillers_append fun h =>
      scenario_append h hs.1 hs.2 hfillers) hss
    refine ⟨tags, token, description, background, scenarios ++ fillers, htags, htoken, hline,
      hdescription, ?_, hb, hscenarios ▸ hss, by simp⟩
    rw [← List.append_assoc]
    exact startsPlainly_append hplain fun hnil => absurd (List.append_eq_nil_iff.mp hnil).2 hne

theorem document_eq_ok_iff {doc : Document} : p.document = .ok doc ↔
    ∃ q, (p.behindIgnorable feature).optional p.skipIgnorable = .done doc.feature q ∧
      q.skipIgnorable.rest = [] := by
  obtain ⟨found⟩ := doc
  rw [document, behindIgnorable]
  cases hread : p.skipIgnorable.feature.optional p.skipIgnorable with
  | stop e => simp
  | pass => simp
  | done feature q =>
    simp only [Reply.done.injEq]
    cases hrest : q.skipIgnorable.rest with
    | nil => simp [hrest]
    | cons line rest =>
      constructor
      · intro h
        cases line <;> cases feature <;> cases h
      · rintro ⟨_, ⟨_, rfl⟩, hnil⟩
        rw [hrest] at hnil
        cases hnil

theorem spans_of_end (h : p.Spans tokens q) (hq : q.rest = []) :
    p.rest = tokens.map (some ·.2) := by
  rw [h.1, hq, List.append_nil]

theorem exact_feature_behindFillers : Exact (behindIgnorable feature)
    (BehindFillers Feature.Derived) fun f q => ∀ ask ∈ f.asks, q.Without ask :=
  exact_feature.behindFillers_of_fronted fun h => ⟨_, fronted_feature h⟩

/-- In front of the end of the file, a feature is read up to lines that do not count. -/
theorem feature_eq_done_of_end {f : Feature} (hspans : p.Spans tokens q)
    (hderived : f.Derived p.line tokens) (hend : q.skipIgnorable.rest = []) :
    ∃ next, p.feature = .done f next ∧ q.Reaches next := by
  obtain ⟨trailing, htrailing, hback, hcounts⟩ :=
    skipIgnorable_eq_iff.mp (rfl : q.skipIgnorable = _)
  by_cases hloose : Ask.description ∈ f.asks
  · refine ⟨q.skipIgnorable, exact_feature.done_iff.mpr ⟨_, hspans.trans hback,
      feature_append hderived hloose htrailing, fun ask _ => ?_⟩, q.reaches_skipIgnorable⟩
    by_cases hask : ask = .description
    · rw [hask, Without, CountsPlainly, hend]
      simp
    · refine without_of_end ?_ hask
      rw [skipIgnorable_skipIgnorable, hend]
  · refine ⟨q, exact_feature.done_iff.mpr ⟨_, hspans, hderived, fun ask hmem => ?_⟩, .refl q⟩
    refine without_of_end hend ?_
    rintro rfl
    exact hloose hmem

/-- A document is read off lines if and only if it is derived from them. -/
theorem document_eq_ok_iff_derived {lines : List Line} {doc : Document} :
    (Place.mk 1 lines).document = .ok doc ↔
      ∃ tokens, lines = tokens.map (some ·.2) ∧ doc.Derived tokens := by
  rw [document_eq_ok_iff]
  constructor
  · rintro ⟨q, hread, hend⟩
    obtain ⟨trailing, htrailing, hback, _⟩ :=
      skipIgnorable_eq_iff.mp (rfl : q.skipIgnorable = _)
    rcases Reply.optional_eq_done_iff.mp hread with ⟨f, hf, hfeature⟩ | ⟨hf, rfl, _⟩
    · obtain ⟨body, hbody, hderived, _⟩ := exact_feature_behindFillers.done_iff.mp hfeature
      refine ⟨body ++ trailing, spans_of_end (hbody.trans hback) hend, body, trailing, ?_,
        htrailing, rfl⟩
      rw [hf]
      have hseries := Series.cons hderived .nil
      rwa [List.append_nil] at hseries
    · obtain ⟨fillers, hfillers, hfront, _⟩ :=
        skipIgnorable_eq_iff.mp (rfl : (Place.mk 1 lines).skipIgnorable = _)
      rw [skipIgnorable_skipIgnorable] at hend
      refine ⟨fillers, spans_of_end hfront hend, [], fillers, ?_, hfillers, rfl⟩
      rw [hf]
      exact .nil
  · rintro ⟨_, rfl, body, trailing, hbody, htrailing, rfl⟩
    have hspans : (Place.mk 1 ((body ++ trailing).map (some ·.2))).Spans (body ++ trailing)
        ⟨1 + (body ++ trailing).length, []⟩ := ⟨(List.append_nil _).symm, rfl⟩
    obtain ⟨q, hfront, hback⟩ := spans_append_iff.mp hspans
    have hskip : q.skipIgnorable = ⟨1 + (body ++ trailing).length, []⟩ :=
      hback.skipIgnorable_eq htrailing (by simp [Counts])
    obtain ⟨found⟩ := doc
    cases found with
    | none =>
      cases hbody
      rw [spans_nil_iff.mp hfront, behindIgnorable, hskip]
      refine ⟨⟨1 + ([] ++ trailing).length, []⟩, ?_, rfl⟩
      rw [(pass_of_rest_eq_nil rfl).2.2]
      rfl
    | some f =>
      cases hbody with
      | cons hnode hnil =>
        cases hnil
        rw [List.append_nil] at hfront ⊢
        obtain ⟨rest, hrest, hderived⟩ :=
          skipIgnorable_of_behindFillers (fun h => ⟨_, fronted_feature h⟩) hnode hfront
        obtain ⟨next, hread, hreaches⟩ :=
          feature_eq_done_of_end hrest hderived (by rw [hskip])
        refine ⟨next, by rw [behindIgnorable, hread]; rfl, ?_⟩
        rw [hreaches.skipIgnorable_eq, hskip]

end Document

end Place

/-- A text is read as a document if and only if the document is derived from its lines. -/
theorem parse_eq_ok_iff {text : Text} {doc : Document} : parse text = .ok doc ↔
    ∃ tokens, Line.all text = tokens.map (some ·.2) ∧ doc.Derived tokens :=
  Place.document_eq_ok_iff_derived

/-- A text that can be read has no feature if none of its lines counts. -/
theorem feature_eq_none_iff {text : Text} {doc : Document} (h : parse text = .ok doc) :
    doc.feature = none ↔ ∀ line ∈ Line.all text, line.isIgnorable = true := by
  obtain ⟨_, hlines, body, trailing, hseries, htrailing, rfl⟩ := parse_eq_ok_iff.mp h
  have hall : (∀ line ∈ Line.all text, line.isIgnorable = true) ↔
      ∀ token ∈ body ++ trailing, IsFiller token.2 := by
    simp only [hlines, List.forall_mem_map, isFiller_iff]
  rw [hall]
  constructor
  · intro hnone
    rw [hnone] at hseries
    cases hseries
    exact fun token htoken => (htrailing token htoken).2
  · intro hfillers
    cases hfeature : doc.feature with
    | none => rfl
    | some f =>
      rw [hfeature] at hseries
      cases hseries with
      | cons hnode _ =>
        obtain ⟨_, _, _, hderived, rfl⟩ := hnode
        obtain ⟨token, _, _, _, rfl, hlead, _⟩ := (Place.fronted_feature hderived).exists_first
        exact absurd (hfillers token (by simp)) (Place.not_isFiller_of_lead? hlead)

end ScenarioLint.Gherkin
