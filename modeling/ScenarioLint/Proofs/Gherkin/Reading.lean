import ScenarioLint.Proofs.Gherkin.Derivation
import ScenarioLint.Proofs.Gherkin.Walk

/-!
When a reader is done: what its reply says about the lines between two places, for readers made of
smaller ones.
-/

namespace ScenarioLint.Gherkin

theorem fillers_nil : Fillers [] := by
  simp [Fillers]

theorem isFiller_iff {line : Text} : IsFiller line ↔ Line.isIgnorable (some line) = true := by
  refine ⟨isIgnorable_of_isFiller, fun h => ?_⟩
  refine ⟨Line.indent line, Line.body line, fun _ => List.mem_takeWhile_imp,
    List.takeWhile_append_dropWhile.symm, ?_⟩
  rw [Line.isIgnorable] at h
  cases hbody : Line.body line with
  | nil => exact .inl rfl
  | cons c rest =>
    simp only [hbody, beq_iff_eq] at h
    exact .inr (by rw [h]; rfl)

theorem Lead.opens_iff {lead : Lead} {more line : Text} :
    (∃ ind, lead.Opens ind more line) ↔ Line.lead? (some line) = some (lead, more) := by
  rw [Line.lead?_eq_some_iff]
  constructor
  · rintro ⟨ind, hind, rfl⟩
    exact body_append hind fun c hc => (Leads.head?_text_append lead more c hc).1
  · intro hbody
    refine ⟨Line.indent line, fun _ => List.mem_takeWhile_imp, ?_⟩
    rw [← hbody]
    exact List.takeWhile_append_dropWhile.symm

theorem Lead.Opens.indent_eq {lead : Lead} {ind more line : Text} (h : lead.Opens ind more line) :
    Line.indent line = ind := by
  obtain ⟨hind, rfl⟩ := h
  exact indent_append hind fun c hc => (Leads.head?_text_append lead more c hc).1

theorem Lead.Opens.lead?_eq {lead : Lead} {ind more line : Text} (h : lead.Opens ind more line) :
    Line.lead? (some line) = some (lead, more) :=
  Lead.opens_iff.mp ⟨ind, h⟩

theorem Lead.opens_of_lead? {lead : Lead} {more line : Text}
    (h : Line.lead? (some line) = some (lead, more)) : lead.Opens (Line.indent line) more line := by
  obtain ⟨ind, hopens⟩ := Lead.opens_iff.mpr h
  rwa [hopens.indent_eq]

theorem Lead.derived_iff {lead : Lead} {text : Text} {token : Token} :
    lead.Derived text token ↔ token.1 = .lead lead ∧
      ∃ more, Line.lead? (some token.2) = some (lead, more) ∧ text = more.trim := by
  constructor
  · rintro ⟨ind, more, line, hopens, rfl, rfl⟩
    exact ⟨rfl, more, hopens.lead?_eq, rfl⟩
  · obtain ⟨kind, line⟩ := token
    rintro ⟨rfl, more, hlead, rfl⟩
    exact ⟨_, more, line, Lead.opens_of_lead? hlead, rfl, rfl⟩

theorem isDescriptionLine_iff {line : Text} : IsDescriptionLine line ↔
    Line.description? (some line) = some line.trim := by
  rw [IsDescriptionLine, Line.description?]
  simp [List.isPrefixOf_iff_prefix]

theorem description?_eq_some_iff {line text : Text} : Line.description? (some line) = some text ↔
    IsDescriptionLine line ∧ text = line.trim := by
  rw [isDescriptionLine_iff, Line.description?]
  split
  · simp
  · simp [eq_comm]

namespace Reply

variable {α β : Type} {r s : Reply α} {f : α → Place → Reply β} {p q : Place} {a : α} {b : β}

theorem bind_eq_done_iff : r.bind f = .done b q ↔ ∃ a p, r = .done a p ∧ f a p = .done b q := by
  cases r <;> simp [bind]

theorem map_eq_done_iff {f : α → β} : r.map f = .done b q ↔ ∃ a, r = .done a q ∧ f a = b := by
  cases r with
  | done a p => simp [map, bind, and_comm]
  | pass => simp [map, bind]
  | stop e => simp [map, bind]

theorem orElse_eq_done_iff :
    r.orElse s = .done a q ↔ r = .done a q ∨ (r = .pass ∧ s = .done a q) := by
  cases r <;> simp [orElse]

theorem optional_eq_done_iff {found : Option α} : r.optional p = .done found q ↔
    (∃ a, found = some a ∧ r = .done a q) ∨ (found = none ∧ q = p ∧ r = .pass) := by
  cases r with
  | done a next =>
    simp only [optional, Reply.done.injEq, reduceCtorEq, and_false, or_false]
    constructor
    · rintro ⟨rfl, rfl⟩
      exact ⟨a, rfl, rfl, rfl⟩
    · rintro ⟨_, rfl, rfl, rfl⟩
      exact ⟨rfl, rfl⟩
  | pass =>
    simp [optional, eq_comm]
  | stop e => simp [optional]

theorem bind_eq_pass_iff :
    r.bind f = .pass ↔ r = .pass ∨ ∃ a p, r = .done a p ∧ f a p = .pass := by
  cases r <;> simp [bind]

theorem map_eq_pass_iff {f : α → β} : r.map f = .pass ↔ r = .pass := by
  cases r <;> simp [map, bind]

theorem orElse_eq_pass_iff : r.orElse s = .pass ↔ r = .pass ∧ s = .pass := by
  cases r <;> simp [orElse]

end Reply

namespace Place

variable {p q r : Place} {token : Token} {tokens front back : List Token}

/-- The lines of the tokens stand between two places. -/
def Spans (p : Place) (tokens : List Token) (q : Place) : Prop :=
  p.rest = tokens.map (some ·.2) ++ q.rest ∧ q.line = p.line + tokens.length

theorem spans_nil_iff : p.Spans [] q ↔ p = q := by
  obtain ⟨n, rest⟩ := p
  obtain ⟨m, more⟩ := q
  simp [Spans, and_comm, eq_comm]

theorem Spans.refl (p : Place) : p.Spans [] p :=
  spans_nil_iff.mpr rfl

theorem Spans.trans (h : p.Spans front q) (hmore : q.Spans back r) : p.Spans (front ++ back) r := by
  refine ⟨?_, ?_⟩
  · rw [h.1, hmore.1, List.map_append, List.append_assoc]
  · rw [hmore.2, h.2, List.length_append, Nat.add_assoc]

theorem spans_append_iff :
    p.Spans (front ++ back) r ↔ ∃ q, p.Spans front q ∧ q.Spans back r := by
  constructor
  · rintro ⟨hrest, hline⟩
    refine ⟨⟨p.line + front.length, back.map (some ·.2) ++ r.rest⟩, ⟨?_, rfl⟩, rfl, ?_⟩
    · rw [hrest, List.map_append, List.append_assoc]
    · rw [hline, List.length_append, Nat.add_assoc]
  · rintro ⟨q, hfront, hback⟩
    exact hfront.trans hback

theorem spans_cons_iff :
    p.Spans (token :: tokens) r ↔ ∃ q, p.Spans [token] q ∧ q.Spans tokens r :=
  (spans_append_iff : p.Spans ([token] ++ tokens) r ↔ _)

theorem Spans.line_eq (h : p.Spans tokens q) : q.line = p.line + tokens.length :=
  h.2

theorem Spans.length_rest (h : p.Spans tokens q) :
    p.rest.length = tokens.length + q.rest.length := by
  rw [h.1, List.length_append, List.length_map]

theorem Spans.head? (h : p.Spans (token :: tokens) q) : p.rest.head? = some (some token.2) := by
  rw [h.1]
  rfl

theorem Spans.reaches (h : p.Spans tokens q) (hfillers : Fillers tokens) : p.Reaches q := by
  refine ⟨tokens.map (some ·.2), h.1, ?_, by rw [List.length_map]; exact h.2⟩
  intro line hline
  obtain ⟨token, htoken, rfl⟩ := List.mem_map.mp hline
  exact isFiller_iff.mp (hfillers token htoken).2

theorem skipIgnorable_eq_iff :
    p.skipIgnorable = q ↔ ∃ fillers, Fillers fillers ∧ p.Spans fillers q ∧ q.Counts := by
  constructor
  · rintro rfl
    obtain ⟨skipped, hrest, hskipped, hline⟩ := p.reaches_skipIgnorable
    have hsome : ∃ lines : List Text, skipped = lines.map some := by
      refine ⟨skipped.map fun line => line.getD [], ?_⟩
      rw [List.map_map]
      refine (List.map_id skipped).symm.trans (List.map_congr_left fun line hmem => ?_)
      cases line with
      | none => cases hskipped none hmem
      | some t => rfl
    obtain ⟨lines, rfl⟩ := hsome
    refine ⟨lines.map (Kind.filler, ·), ?_, ⟨?_, ?_⟩, p.isIgnorable_head_skipIgnorable⟩
    · intro token htoken
      obtain ⟨line, hmem, rfl⟩ := List.mem_map.mp htoken
      exact ⟨rfl, isFiller_iff.mpr (hskipped _ (List.mem_map.mpr ⟨line, hmem, rfl⟩))⟩
    · rw [List.map_map]
      exact hrest
    · rw [List.length_map, hline, List.length_map]
  · rintro ⟨fillers, hfillers, hspans, hcounts⟩
    rw [← (hspans.reaches hfillers).skipIgnorable_eq]
    exact skipIgnorable_of_head hcounts

theorem Spans.skipIgnorable_eq (h : p.Spans tokens q) (hfillers : Fillers tokens)
    (hcounts : q.Counts) : p.skipIgnorable = q :=
  skipIgnorable_eq_iff.mpr ⟨tokens, hfillers, h, hcounts⟩

theorem counts_of_head (h : p.Spans (token :: tokens) q) (htoken : ¬ IsFiller token.2) :
    p.Counts := by
  intro line hline
  rw [h.head?] at hline
  rw [← Option.some.inj hline, Bool.eq_false_iff]
  exact fun hignorable => htoken (isFiller_iff.mpr hignorable)

section Take

variable {α : Type} {test : Line → Option α} {a : α}

/-- A test that accepts no unreadable line reads one line, whatever its use. -/
theorem take_eq_done_iff_spans (htest : test none = none) (kind : Text → Kind) :
    p.take test = .done a q ↔ ∃ line, p.Spans [(kind line, line)] q ∧ test (some line) = some a := by
  rw [take_eq_done_iff]
  constructor
  · rintro ⟨line, rest, hrest, ha, rfl⟩
    cases line with
    | none =>
      rw [htest] at ha
      cases ha
    | some line => exact ⟨line, ⟨hrest, rfl⟩, ha⟩
  · rintro ⟨line, ⟨hrest, hline⟩, ha⟩
    refine ⟨some line, q.rest, hrest, ha, ?_⟩
    rw [List.length_singleton] at hline
    rw [← hline]

theorem take_eq_pass_of_spans (h : p.Spans (token :: tokens) q)
    (htest : test (some token.2) = none) : p.take test = .pass := by
  rw [take_eq_pass_iff]
  intro line hline
  rw [h.head?] at hline
  rw [← Option.some.inj hline, htest]

end Take

section Many

variable {α : Type} {read : Place → Reply α} {Derived : Nat → List Token → α → Prop}
  {Sequel : α → Place → Prop} {as : List α} {a : α}

/-- Reading with a reader until it passes. -/
inductive Repeats (read : Place → Reply α) : Place → List α → Place → Prop
  | nil {p : Place} (h : read p = .pass) : Repeats read p [] p
  | cons {p q r : Place} {a : α} {as : List α} (h : read p = .done a q)
      (hlt : q.rest.length < p.rest.length) (hmore : Repeats read q as r) :
      Repeats read p (a :: as) r

theorem many_eq_done_iff : p.many read = .done as q ↔ Repeats read p as q := by
  constructor
  · revert as q
    refine many_induction (P := fun p reply => ∀ {as q}, reply = .done as q → Repeats read p as q)
      ?_ ?_ ?_ p
    · intro p hpass as q h
      cases h
      exact .nil hpass
    · intro p e _ as q h
      cases h
    · intro p a next hdone ih as q h
      split at h
      · rename_i hlt
        obtain ⟨as, hmany, rfl⟩ := Reply.map_eq_done_iff.mp h
        exact .cons hdone hlt (ih hlt hmany)
      · cases h
  · intro h
    induction h with
    | nil h => exact many_of_pass h
    | cons h hlt _ ih =>
      rw [many_of_done h hlt, ih]
      rfl

/-- A reader takes exactly the lines of the nodes that it is for, where `Sequel` tells what may
    follow a node. -/
structure Exact (read : Place → Reply α) (Derived : Nat → List Token → α → Prop)
    (Sequel : α → Place → Prop) : Prop where
  done_iff : ∀ {p q a}, read p = .done a q ↔
    ∃ tokens, p.Spans tokens q ∧ Derived p.line tokens a ∧ Sequel a q
  ne_nil : ∀ {n tokens a}, Derived n tokens a → tokens ≠ []

/-- Where there are no lines, there are no nodes. -/
theorem nodes_eq_nil (hne : ∀ {n tokens a}, Derived n tokens a → tokens ≠ []) {n : Nat}
    (h : Series Derived n [] as) : as = [] := by
  generalize hnil : ([] : List Token) = tokens at h
  cases h with
  | nil => rfl
  | cons hnode _ => exact absurd (List.append_eq_nil_iff.mp hnil.symm).1 (hne hnode)

/-- A reader that takes exactly its nodes, and in front of them whatever does not count. -/
theorem Exact.behindFillers (h : Exact read Derived Sequel)
    (hstart : ∀ {n tokens a}, Derived n tokens a →
      ∃ token rest, tokens = token :: rest ∧ ¬ IsFiller token.2) :
    Exact (behindIgnorable read) (BehindFillers Derived) Sequel where
  done_iff := by
    intro p q a
    rw [behindIgnorable, h.done_iff]
    constructor
    · rintro ⟨tokens, hspans, hderived, hsequel⟩
      obtain ⟨fillers, hfillers, hfront, _⟩ := skipIgnorable_eq_iff.mp (rfl : p.skipIgnorable = _)
      rw [hfront.line_eq] at hderived
      exact ⟨fillers ++ tokens, hfront.trans hspans, ⟨fillers, tokens, hfillers, hderived, rfl⟩,
        hsequel⟩
    · rintro ⟨_, hspans, ⟨fillers, tokens, hfillers, hderived, rfl⟩, hsequel⟩
      obtain ⟨s, hfront, hback⟩ := spans_append_iff.mp hspans
      obtain ⟨token, rest, rfl, htoken⟩ := hstart hderived
      rw [hfront.skipIgnorable_eq hfillers (counts_of_head hback htoken)]
      rw [← hfront.line_eq] at hderived
      exact ⟨_, hback, hderived, hsequel⟩
  ne_nil := by
    rintro n _ a ⟨fillers, tokens, _, hderived, rfl⟩ hnil
    exact h.ne_nil hderived (List.append_eq_nil_iff.mp hnil).2

/-- A reader that is done has read something. -/
theorem Exact.length_lt (h : Exact read Derived Sequel) (hread : read p = .done a q) :
    q.rest.length < p.rest.length := by
  obtain ⟨tokens, hspans, hderived, _⟩ := h.done_iff.mp hread
  have hlength := hspans.length_rest
  have hpos := List.length_pos_iff.mpr (h.ne_nil hderived)
  omega

/-- What is read one after the other is a series of nodes. -/
theorem Exact.exists_series (h : Exact read Derived Sequel) (hrepeats : Repeats read p as q) :
    ∃ tokens, p.Spans tokens q ∧ Series Derived p.line tokens as ∧ read q = .pass ∧
      ∀ a ∈ as.getLast?, Sequel a q := by
  induction hrepeats with
  | nil hpass => exact ⟨[], .refl _, .nil, hpass, by simp⟩
  | @cons p q r a as hread _ _ ih =>
    obtain ⟨front, hfront, hderived, hsequel⟩ := h.done_iff.mp hread
    obtain ⟨tokens, hspans, hseries, hpass, hlast⟩ := ih
    rw [hfront.line_eq] at hseries
    refine ⟨front ++ tokens, hfront.trans hspans, .cons hderived hseries, hpass, ?_⟩
    intro b hb
    cases as with
    | nil =>
      cases hseries
      cases hb
      rwa [← spans_nil_iff.mp hspans]
    | cons c as => exact hlast b hb

/-- It makes no difference from where the first node is read. -/
theorem Exact.repeats_of_eq (h : Exact read Derived Sequel) (hrepeats : Repeats read p as q)
    (hne : as ≠ []) (hsame : read r = read p) : Repeats read r as q := by
  cases hrepeats with
  | nil _ => exact absurd rfl hne
  | cons hread _ hmore =>
    rw [← hsame] at hread
    exact .cons hread (h.length_lt hread) hmore

/-- A series of nodes is read one after the other, if in front of a node another one is read up to
    where the node is read from. -/
theorem Exact.repeats_of_series (h : Exact read Derived Sequel)
    (hnext : ∀ {front tokens a b p q r}, p.Spans front q → Derived p.line front a →
      q.Spans tokens r → Derived q.line tokens b → ∃ s, read p = .done a s ∧ read s = read q)
    (hspans : p.Spans tokens q) (hseries : Series Derived p.line tokens as) (hpass : read q = .pass)
    (hlast : ∀ a ∈ as.getLast?, Sequel a q) : Repeats read p as q := by
  generalize hn : p.line = n at hseries
  induction hseries generalizing p with
  | nil =>
    cases spans_nil_iff.mp hspans
    exact .nil hpass
  | @cons n front more a as hderived hseries ih =>
    obtain ⟨r, hfront, hback⟩ := spans_append_iff.mp hspans
    subst hn
    have hmore := ih hback (fun b hb => hlast b (List.mem_getLast?_cons hb)) hfront.line_eq
    cases hseries with
    | nil =>
      cases spans_nil_iff.mp hback
      have hread := h.done_iff.mpr ⟨front, hfront, hderived, hlast a rfl⟩
      exact .cons hread (h.length_lt hread) hmore
    | cons hnode _ =>
      obtain ⟨_, hnodeSpans, _⟩ := spans_append_iff.mp hback
      obtain ⟨s, hread, hsame⟩ := hnext hfront hderived hnodeSpans (hfront.line_eq ▸ hnode)
      exact .cons hread (h.length_lt hread) (h.repeats_of_eq hmore (by simp) hsame)

/-- Reading nodes one after the other, where another node may follow a node. -/
theorem Exact.repeats_iff (h : Exact read Derived Sequel)
    (hfollow : ∀ {tokens a b p q}, Derived p.line tokens b → p.Spans tokens q → Sequel a p) :
    Repeats read p as q ↔ ∃ tokens, p.Spans tokens q ∧ Series Derived p.line tokens as ∧
      read q = .pass ∧ ∀ a ∈ as.getLast?, Sequel a q := by
  refine ⟨h.exists_series, ?_⟩
  rintro ⟨tokens, hspans, hseries, hpass, hlast⟩
  refine h.repeats_of_series ?_ hspans hseries hpass hlast
  intro front tokens a b p q r hfront hderived hspans hnode
  exact ⟨q, h.done_iff.mpr ⟨front, hfront, hderived, hfollow hnode hspans⟩, rfl⟩

/-- Reading a node that may be missing. -/
theorem Exact.optional_iff (h : Exact read Derived Sequel) {found : Option α} :
    (read p).optional p = .done found q ↔ ∃ tokens, p.Spans tokens q ∧
      Series Derived p.line tokens found.toList ∧ (found = none → read q = .pass) ∧
      ∀ a ∈ found, Sequel a q := by
  rw [Reply.optional_eq_done_iff]
  cases found with
  | none =>
    simp only [reduceCtorEq, false_and, exists_false, false_or, true_and, Option.toList_none,
      forall_const, Option.not_mem_none, false_implies, implies_true, and_true]
    constructor
    · rintro ⟨rfl, hpass⟩
      exact ⟨[], .refl _, .nil, hpass⟩
    · rintro ⟨tokens, hspans, hseries, hpass⟩
      cases hseries
      cases spans_nil_iff.mp hspans
      exact ⟨rfl, hpass⟩
  | some a =>
    simp only [Option.some.injEq, exists_eq_left', reduceCtorEq, false_and, or_false, h.done_iff,
      Option.toList_some, false_implies, true_and, Option.mem_some_iff, forall_eq']
    constructor
    · rintro ⟨tokens, hspans, hderived, hsequel⟩
      refine ⟨tokens, hspans, ?_, hsequel⟩
      have hseries := Series.cons hderived .nil
      rwa [List.append_nil] at hseries
    · rintro ⟨tokens, hspans, hseries, hsequel⟩
      cases hseries with
      | cons hderived hnil =>
        cases hnil
        rw [List.append_nil] at hspans
        exact ⟨_, hspans, hderived, hsequel⟩

end Many

end Place

end ScenarioLint.Gherkin
