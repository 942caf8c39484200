import ScenarioLint.Proofs.Gherkin.Leaf
import ScenarioLint.Proofs.Gherkin.Stage

/-!
The readers and the walk over the lines agree.  What a reader reads takes the walk from one stage to
another, and where a reader stops with an error the walk fails.
-/

namespace ScenarioLint.Gherkin

namespace Reply

variable {α β : Type} {walked : Option (List Docstring)}

/-- What is asked of a reply: a condition on what was read, one on the lines that the reader passes
    by, and that the walk fails where the reading stops. -/
def Tells (r : Reply α) (walked : Option (List Docstring)) (skip : Prop)
    (post : α → Place → Prop) : Prop :=
  match r with
  | done a q => post a q
  | pass => skip
  | stop _ => walked = none

theorem Tells.bind {r : Reply α} {f : α → Place → Reply β} {skip : Prop}
    {post : β → Place → Prop}
    (h : r.Tells walked skip fun a q => (f a q).Tells walked skip post) :
    (r.bind f).Tells walked skip post := by
  cases r with
  | done a q => exact h
  | pass => exact h
  | stop e => exact h

/-- A reading that goes on where another one ends. -/
theorem Tells.bind_of_eq {r : Reply α} {f : α → Place → Reply β} {skip otherSkip : Prop}
    {first : α → Place → Prop} {post : β → Place → Prop} (h : r.Tells walked skip first)
    (hskip : skip → otherSkip)
    (hf : ∀ a q, r = done a q → first a q → (f a q).Tells walked otherSkip post) :
    (r.bind f).Tells walked otherSkip post := by
  cases r with
  | done a q => exact hf a q rfl h
  | pass => exact hskip h
  | stop e => exact h

theorem Tells.map {r : Reply α} {f : α → β} {skip : Prop} {post : β → Place → Prop}
    (h : r.Tells walked skip fun a q => post (f a) q) : (r.map f).Tells walked skip post :=
  Tells.bind h

theorem Tells.mono {r : Reply α} {skip otherSkip : Prop} {post other : α → Place → Prop}
    (h : r.Tells walked skip post) (hskip : skip → otherSkip)
    (himp : ∀ a q, post a q → other a q) : r.Tells walked otherSkip other := by
  cases r with
  | done a q => exact himp a q h
  | pass => exact hskip h
  | stop e => exact h

theorem Tells.orElse {r other : Reply α} {skip otherSkip : Prop} {post : α → Place → Prop}
    (h : r.Tells walked skip post) (hother : skip → other.Tells walked otherSkip post) :
    (r.orElse other).Tells walked otherSkip post := by
  cases r with
  | done a q => exact h
  | pass => exact hother h
  | stop e => exact h

theorem Tells.optional {r : Reply α} {p : Place} {skip : Prop} {post : Option α → Place → Prop}
    (h : r.Tells walked skip fun a q => post (some a) q) (hskip : skip → post none p) :
    (r.optional p).Tells walked False post := by
  cases r with
  | done a q => exact h
  | pass => exact hskip h
  | stop e => exact h

end Reply

namespace Place

/-- The docstrings behind a place that is reached in a stage. -/
def walk (p : Place) (σ : Stage) : Option (List Docstring) :=
  Gherkin.walk p.line σ p.rest

/-- The walk from one place to another reads docstrings and changes the stage. -/
structure Walked (σ : Stage) (p : Place) (docs : List Docstring) (τ : Stage) (q : Place) : Prop where
  walk_eq : p.walk σ = (q.walk τ).map (docs ++ ·)
  length_le : q.rest.length ≤ p.rest.length

namespace Walked

variable {σ τ υ : Stage} {p q r : Place} {docs more : List Docstring}

theorem of_eq (h : p.walk σ = p.walk τ) : Walked σ p [] τ p :=
  ⟨by rw [h]; simp, Nat.le_refl _⟩

theorem refl (σ : Stage) (p : Place) : Walked σ p [] σ p :=
  of_eq rfl

theorem trans (h : Walked σ p docs τ q) (hmore : Walked τ q more υ r) :
    Walked σ p (docs ++ more) υ r := by
  refine ⟨?_, Nat.le_trans hmore.length_le h.length_le⟩
  rw [h.walk_eq, hmore.walk_eq, Option.map_map]
  congr 1
  funext docs
  simp

/-- A reading that goes on behind a walk. -/
theorem tells (h : Walked σ p docs τ q) {α : Type} {reply : Reply α} {skip : Prop}
    {post : α → Place → Prop} (hreply : reply.Tells (q.walk τ) skip post) :
    reply.Tells (p.walk σ) skip post := by
  cases reply with
  | done a r => exact hreply
  | pass => exact hreply
  | stop e =>
    have hnone : q.walk τ = none := hreply
    change p.walk σ = none
    rw [h.walk_eq, hnone]
    rfl

end Walked

end Place

def Argument.docstrings : Argument → List Docstring
  | docstring d => [d]
  | table _ => []

theorem Step.docstrings_eq (s : Step) : s.docstrings = s.argument.elim [] Argument.docstrings := by
  rw [docstrings]
  cases s.argument with
  | none => rfl
  | some argument => cases argument <;> rfl

namespace Stage

/-- No docstring is open. -/
def isOutside : Stage → Bool
  | docstring _ _ _ => false
  | _ => true

theorem ended?_eq_none {σ : Stage} (h : σ.isOutside = true) (n : Nat) (line : Line) :
    σ.ended? n line = none := by
  cases σ with
  | docstring w o body => cases h
  | _ => rfl

/-- The stage stays the same at lines that do not count. -/
def skips : Stage → Bool
  | between _ | tagged _ | header _ | step _ => true
  | docstring _ _ _ | table _ _ => false

theorem next_of_isIgnorable {σ : Stage} (h : σ.skips = true) {line : Line}
    (hline : line.isIgnorable = true) : σ.next line = some σ := by
  cases σ with
  | docstring w o body => cases h
  | table w width => cases h
  | _ => simp [next, hline]

theorem isOutside_of_skips {σ : Stage} (h : σ.skips = true) : σ.isOutside = true := by
  cases σ with
  | docstring w o body => cases h
  | _ => rfl

end Stage

namespace Place

variable {σ τ : Stage} {p q : Place} {w : Within}

theorem walk_cons (hσ : σ.isOutside = true) (n : Nat) (line : Line) (rest : List Line) :
    (Place.mk n (line :: rest)).walk σ =
      (σ.next line).bind fun τ => (Place.mk (n + 1) rest).walk τ := by
  rw [walk, Gherkin.walk, Stage.ended?_eq_none hσ]
  cases σ.next line with
  | none => rfl
  | some τ => simp [walk]

/-- A line that is taken takes the walk to the stage behind the line. -/
theorem walked_next (n : Nat) (rest : List Line) (hσ : σ.isOutside = true) {line : Line}
    (h : σ.next line = some τ) : Walked σ ⟨n, line :: rest⟩ [] τ ⟨n + 1, rest⟩ := by
  refine ⟨?_, by simp⟩
  rw [walk_cons hσ, h]
  simp

theorem take_eq_done_iff {α : Type} {test : Line → Option α} {a : α} :
    p.take test = .done a q ↔
      ∃ line rest, p.rest = line :: rest ∧ test line = some a ∧ q = ⟨p.line + 1, rest⟩ := by
  obtain ⟨n, rest⟩ := p
  cases rest with
  | nil => simp [take]
  | cons line rest =>
    rw [take]
    cases htest : test line with
    | none => simp [htest]
    | some b =>
      simp only [next, List.tail_cons, Reply.done.injEq, List.cons.injEq, htest]
      constructor
      · rintro ⟨rfl, rfl⟩
        exact ⟨line, rest, ⟨rfl, rfl⟩, htest, rfl⟩
      · rintro ⟨_, _, ⟨rfl, rfl⟩, hb, rfl⟩
        rw [htest] at hb
        exact ⟨Option.some.inj hb, rfl⟩

theorem take_eq_pass_iff {α : Type} {test : Line → Option α} :
    p.take test = .pass ↔ ∀ line, p.rest.head? = some line → test line = none := by
  obtain ⟨n, rest⟩ := p
  cases rest with
  | nil => simp [take]
  | cons line rest =>
    rw [take]
    cases htest : test line <;> simp [htest]

theorem take_ne_stop {α : Type} {test : Line → Option α} {e : ParseError} :
    p.take test ≠ .stop e := by
  rw [take]
  split
  · simp
  · split <;> simp

theorem tells_take {α : Type} {test : Line → Option α} {walked : Option (List Docstring)}
    {post : α → Place → Prop}
    (h : ∀ line rest a, p.rest = line :: rest → test line = some a →
      post a ⟨p.line + 1, rest⟩) :
    (p.take test).Tells walked (∀ line, p.rest.head? = some line → test line = none) post := by
  cases htake : p.take test with
  | done a q =>
    obtain ⟨line, rest, hrest, htest, rfl⟩ := take_eq_done_iff.mp htake
    exact h line rest a hrest htest
  | pass => exact take_eq_pass_iff.mp htake
  | stop e => exact absurd htake take_ne_stop

/-- The walk is not changed by lines that do not count. -/
theorem walk_of_reaches (hσ : σ.skips = true) (h : p.Reaches q) : q.walk σ = p.walk σ := by
  obtain ⟨skipped, hrest, hskipped, hline⟩ := h
  obtain ⟨n, rest⟩ := p
  obtain ⟨m, more⟩ := q
  dsimp only at hrest hline
  subst hrest hline
  induction skipped generalizing n with
  | nil => rfl
  | cons line skipped ih =>
    have hnext := Stage.next_of_isIgnorable hσ (hskipped line List.mem_cons_self)
    rw [List.cons_append, walk_cons (Stage.isOutside_of_skips hσ), hnext, Option.bind_some,
      ← ih (fun other hother => hskipped other (List.mem_cons_of_mem _ hother)) (n + 1)]
    congr 2
    rw [List.length_cons]
    omega

theorem walk_skipIgnorable (hσ : σ.skips = true) (p : Place) :
    p.skipIgnorable.walk σ = p.walk σ :=
  walk_of_reaches hσ p.reaches_skipIgnorable

theorem walked_skipIgnorable (hσ : σ.skips = true) (p : Place) :
    Walked σ p [] σ p.skipIgnorable := by
  refine ⟨?_, p.reaches_skipIgnorable.length_le⟩
  rw [walk_skipIgnorable hσ]
  simp

/-- The line in front of which the place is counts, or the document ends there. -/
def Counts (p : Place) : Prop :=
  ∀ line, p.rest.head? = some line → line.isIgnorable = false

section Many

variable {α ι : Type} {read : Place → Reply α}

/-- Reading with a reader again and again, from the last reading to the first one. -/
theorem many_induction {P : Place → Reply (List α) → Prop}
    (hpass : ∀ p, read p = .pass → P p (.done [] p))
    (hstop : ∀ p e, read p = .stop e → P p (.stop e))
    (hdone : ∀ p a q, read p = .done a q →
      (q.rest.length < p.rest.length → P q (q.many read)) →
      P p (if q.rest.length < p.rest.length then (q.many read).map (a :: ·) else .pass))
    (p : Place) : P p (p.many read) := by
  induction hlength : p.rest.length using Nat.strongRecOn generalizing p with
  | ind m ih =>
    rw [many]
    cases hread : read p with
    | pass => exact hpass p hread
    | stop e => exact hstop p e hread
    | done a q => exact hdone p a q hread fun hlt => ih _ (hlength ▸ hlt) q rfl

/-- If one reading takes the walk from a stage to another one of the same family and moves on, so
    does reading again and again. -/
theorem tells_many (stage : ι → Stage) (Ok : ι → Place → Prop) (docs : α → List Docstring)
    {skip : Place → Prop}
    (hread : ∀ i p, Ok i p → (read p).Tells (p.walk (stage i)) (skip p) fun a q =>
      ∃ j, Ok j q ∧ Walked (stage i) p (docs a) (stage j) q ∧ q.rest.length < p.rest.length)
    {i : ι} {p : Place} (hp : Ok i p) :
    (p.many read).Tells (p.walk (stage i)) False fun as q =>
      ∃ j, Ok j q ∧ Walked (stage i) p (as.flatMap docs) (stage j) q ∧ skip q := by
  refine many_induction (P := fun p r => ∀ i, Ok i p → r.Tells (p.walk (stage i)) False
    fun as q => ∃ j, Ok j q ∧ Walked (stage i) p (as.flatMap docs) (stage j) q ∧ skip q)
    ?_ ?_ ?_ p i hp
  · intro p hpass i hi
    have hp := hread i p hi
    rw [hpass] at hp
    exact ⟨i, hi, Walked.refl _ _, hp⟩
  · intro p e hstop i hi
    have hp := hread i p hi
    rw [hstop] at hp
    exact hp
  · intro p a q hdone hmore i hi
    have hp := hread i p hi
    rw [hdone] at hp
    obtain ⟨j, hj, hwalked, hlt⟩ := hp
    rw [if_pos hlt]
    refine Reply.Tells.map (hwalked.tells ((hmore hlt j hj).mono id ?_))
    rintro as r ⟨k, hk, hagain, hskip⟩
    exact ⟨k, hk, hwalked.trans hagain, hskip⟩

end Many

section Argument

/-- The lines of a docstring up to its closing mark are one docstring for the walk. -/
theorem tells_docstringBody (w : Within) (o : Line.Opening) (start : Nat) (lines : List Line)
    {n : Nat} (body : List Text) (hn : n = start + (body.length + 1)) :
    (docstringBody start o n lines).Tells ((Place.mk n lines).walk (.docstring w o body))
      ((Place.mk n lines).walk (.docstring w o body) = none) fun more q =>
        Walked (.docstring w o body) ⟨n, lines⟩
          [⟨if o.rest.trim.isEmpty then none else some o.rest.trim,
            Text.join ['\n'] (body ++ more), start⟩] (.between w) q := by
  induction lines generalizing n body with
  | nil => rfl
  | cons line rest ih =>
    cases line with
    | none => rfl
    | some t =>
      rw [docstringBody]
      by_cases hclosing : t.trim = o.mark
      · rw [if_pos hclosing]
        refine ⟨?_, by simp⟩
        have hstart : n - (body.length + 1) = start := by omega
        simp [walk, Gherkin.walk, Stage.next, Stage.ended?, hclosing, hstart]
      · rw [if_neg hclosing]
        have hstep : (Place.mk n (some t :: rest)).walk (.docstring w o body) =
            (Place.mk (n + 1) rest).walk (.docstring w o (body ++ [unindent o.indent t])) := by
          simp [walk, Gherkin.walk, Stage.next, Stage.ended?, hclosing]
        have hrest := ih (n := n + 1) (body ++ [unindent o.indent t])
          (by rw [List.length_append, List.length_singleton]; omega)
        rw [hstep]
        refine Reply.Tells.map (hrest.mono id ?_)
        intro more q hwalked
        rw [List.append_assoc, List.singleton_append] at hwalked
        exact ⟨hstep ▸ hwalked.walk_eq, Nat.le_succ_of_le hwalked.length_le⟩

theorem next_step {line : Line} (w : Within) (hline : line.isIgnorable = false) :
    (Stage.step w).next line =
      (line.opening?.map (.docstring w · [])).or
        ((line.width?.map (.table w)).or (w.opensLine line)) := by
  rw [Stage.next, hline]
  rfl

/-- A docstring under a step is one docstring for the walk. -/
theorem tells_docstring (w : Within) (hcounts : p.Counts) :
    p.docstring.Tells (p.walk (.step w))
      (∀ line, p.rest.head? = some line → line.opening?.isSome = true → p.walk (.step w) = none)
      fun d q => Walked (.step w) p [d] (.between w) q := by
  rw [docstring]
  refine Reply.Tells.bind ((tells_take ?_).mono ?_ fun _ _ => id)
  case refine_2 =>
    intro hnone line hline hopening
    rw [hnone line hline] at hopening
    cases hopening
  intro line rest o hrest hopening
  obtain ⟨n, lines⟩ := p
  dsimp only at hrest
  subst hrest
  have hnext : (Stage.step w).next line = some (.docstring w o []) := by
    rw [next_step w (hcounts line rfl), hopening]
    rfl
  have hwalked := walked_next n rest (σ := .step w) rfl hnext
  have hbody := tells_docstringBody w o n rest (n := n + 1) [] rfl
  refine Reply.Tells.map (hwalked.tells (hbody.mono ?_ ?_))
  · intro hnone _ _ _
    rw [hwalked.walk_eq, hnone]
    rfl
  · intro body q hq
    exact hwalked.trans hq

/-- A row is read where the line has a width. -/
theorem tells_row (hσ : σ.isOutside = true)
    (hreject : ∀ line more, line.lead? = some (.bar, more) → line.width? = none →
      σ.next line = none) :
    p.row.Tells (p.walk σ) (∀ line, p.rest.head? = some line → line.row? = none) fun row q =>
      ∃ line rest, p.rest = line :: rest ∧ line.width? = some row.cells.length ∧
        q = ⟨p.line + 1, rest⟩ := by
  rw [row]
  refine Reply.Tells.bind (tells_take ?_)
  intro line rest text hrest hrow
  obtain ⟨n, lines⟩ := p
  dsimp only at hrest
  subst hrest
  dsimp only
  split
  · rename_i hbar
    refine ⟨line, rest, rfl, ?_, rfl⟩
    rw [Line.width?, hrow, Option.bind_some, if_pos hbar, List.length_map]
  · rename_i hbar
    have hwidth : line.width? = none := by
      rw [Line.width?, hrow, Option.bind_some, if_neg hbar]
    have hlead := Line.lead?_of_behind? ((Line.row?_eq line).symm.trans hrow)
    change (Place.mk n (line :: rest)).walk σ = none
    rw [walk_cons hσ, hreject line text hlead hwidth]
    rfl

theorem isIgnorable_of_lead? {line : Line} {lead : Lead} {more : Text}
    (h : line.lead? = some (lead, more)) : line.isIgnorable = false := by
  cases line with
  | none => cases h
  | some t =>
    obtain ⟨c, hc, _, _, hcomment, _⟩ := lead.exists_head
    obtain ⟨rest, hrest⟩ := List.head?_eq_some_iff.mp hc
    rw [Line.isIgnorable, Line.lead?_eq_some_iff.mp h, hrest]
    simpa using hcomment

theorem opensLine_of_lead? {line : Line} {lead : Lead} {more : Text}
    (h : line.lead? = some (lead, more)) (w : Within) : w.opensLine line = w.opens lead := by
  rw [Within.opensLine, h]
  rfl

theorem row?_of_width? {line : Line} {k : Nat} (h : line.width? = some k) :
    ∃ more, line.lead? = some (.bar, more) := by
  obtain ⟨text, htext, _⟩ := Option.bind_eq_some_iff.mp h
  exact ⟨text, Line.lead?_of_behind? ((Line.row?_eq line).symm.trans htext)⟩

theorem tells_rowOfWidth (w : Within) (width : Nat) (p : Place) :
    (p.rowOfWidth width).Tells (p.walk (.table w width))
      (∀ line, p.rest.head? = some line → line.row? = none) fun _ q =>
        Walked (.table w width) p [] (.table w width) q ∧ q.rest.length < p.rest.length := by
  have hreject : ∀ line more, line.lead? = some (.bar, more) → line.width? ≠ some width →
      (Stage.table w width).next line = none := by
    intro line more hlead hwidth
    rw [Stage.next, if_neg hwidth, isIgnorable_of_lead? hlead, opensLine_of_lead? hlead]
    rfl
  rw [rowOfWidth]
  refine Reply.Tells.bind ((tells_row (σ := .table w width) rfl ?_).mono id ?_)
  · intro line more hlead hwidth
    exact hreject line more hlead (by simp [hwidth])
  · rintro row q ⟨line, rest, hrest, hwidth, rfl⟩
    obtain ⟨n, lines⟩ := p
    dsimp only at hrest
    subst hrest
    dsimp only
    split
    · rename_i hsame
      refine ⟨walked_next _ _ rfl ?_, by simp⟩
      rw [Stage.next, if_pos (by rw [hwidth, hsame])]
    · rename_i hother
      obtain ⟨more, hlead⟩ := row?_of_width? hwidth
      change (Place.mk n (line :: rest)).walk _ = none
      rw [walk_cons rfl, hreject line more hlead (by simpa [hwidth] using hother)]
      rfl

theorem walk_table_of_row? (w : Within) (width : Nat)
    (h : ∀ line, p.rest.head? = some line → line.row? = none) :
    p.walk (.table w width) = p.walk (.between w) := by
  obtain ⟨n, rest⟩ := p
  cases rest with
  | nil => rfl
  | cons line rest =>
    have hwidth : line.width? = none := by
      rw [Line.width?, h line rfl]
      rfl
    have hsame : (Stage.table w width).next line = (Stage.between w).next line := by
      simp [Stage.next, hwidth]
    rw [walk_cons rfl, walk_cons rfl, hsame]

/-- The rows of a table lead to where nothing may stand under the last line. -/
theorem tells_rows (w : Within) (width : Nat) (p : Place) :
    (p.many (rowOfWidth width)).Tells (p.walk (.table w width)) False fun _ q =>
      Walked (.table w width) p [] (.between w) q := by
  have hread := tells_many (fun _ : Unit => .table w width) (fun _ _ => True) (fun _ => []) (i := ())
    (p := p)
    (fun _ p _ => (tells_rowOfWidth w width p).mono id fun _ q hq => ⟨(), trivial, hq⟩) trivial
  refine hread.mono id ?_
  rintro rows q ⟨_, _, hwalked, hrow⟩
  have hnone : rows.flatMap (fun _ => ([] : List Docstring)) = [] := by simp
  rw [hnone] at hwalked
  exact hwalked.trans (.of_eq (walk_table_of_row? w width hrow))

/-- A table leads to where nothing may stand under the last line. -/
theorem tells_table (w : Within) (hσ : σ.isOutside = true)
    (hopen : ∀ line k, line.width? = some k → σ.next line = some (.table w k))
    (hreject : ∀ line more, line.lead? = some (.bar, more) → line.width? = none →
      σ.next line = none) :
    p.table.Tells (p.walk σ) (∀ line, p.rest.head? = some line → line.row? = none) fun _ q =>
      Walked σ p [] (.between w) q := by
  rw [table]
  refine Reply.Tells.bind ((tells_row hσ hreject).mono id ?_)
  rintro row q ⟨line, rest, hrest, hwidth, rfl⟩
  obtain ⟨n, lines⟩ := p
  dsimp only at hrest
  subst hrest
  have hfirst := walked_next n rest hσ (hopen line _ hwidth)
  have hrows := tells_rows w row.cells.length ⟨n + 1, rest⟩
  exact Reply.Tells.map (hfirst.tells (hrows.mono False.elim fun _ _ hwalked =>
    hfirst.trans hwalked))

theorem lead?_of_opening? {line : Line} {o : Line.Opening} (h : line.opening? = some o) :
    ∃ lead, (lead = .quotes ∨ lead = .backticks) ∧ line.lead? = some (lead, o.rest) := by
  cases line with
  | none => cases h
  | some t =>
    obtain ⟨lead, hquotes, hlead, _⟩ := Line.opening?_eq_some_iff.mp h
    exact ⟨lead, hquotes, hlead⟩

theorem opening?_eq_none_of_lead? {line : Line} {lead : Lead} {more : Text}
    (hlead : line.lead? = some (lead, more)) (hquotes : lead ≠ .quotes)
    (hbackticks : lead ≠ .backticks) : line.opening? = none := by
  rw [Option.eq_none_iff_forall_not_mem]
  intro o ho
  obtain ⟨own, hown, hother⟩ := lead?_of_opening? ho
  cases hlead.symm.trans hother
  exact hown.elim hquotes hbackticks

theorem next_between {line : Line} (w : Within) (hline : line.isIgnorable = false) :
    (Stage.between w).next line = w.opensLine line := by
  rw [Stage.next, hline]
  rfl

theorem next_step_of_width? {line : Line} {k : Nat} (w : Within) (h : line.width? = some k) :
    (Stage.step w).next line = some (.table w k) := by
  obtain ⟨more, hlead⟩ := row?_of_width? h
  have hopening := opening?_eq_none_of_lead? hlead nofun nofun
  rw [next_step w (isIgnorable_of_lead? hlead), hopening, h]
  rfl

theorem next_step_of_bar {line : Line} {more : Text} (w : Within)
    (hlead : line.lead? = some (.bar, more)) (hwidth : line.width? = none) :
    (Stage.step w).next line = none := by
  have hopening := opening?_eq_none_of_lead? hlead nofun nofun
  rw [next_step w (isIgnorable_of_lead? hlead), hopening, hwidth, opensLine_of_lead? hlead]
  rfl

/-- What stands under a step leads to where nothing may stand under the last line. -/
theorem tells_argument (w : Within) (hcounts : p.Counts) :
    p.argument.Tells (p.walk (.step w)) (p.walk (.step w) = p.walk (.between w)) fun argument q =>
      Walked (.step w) p argument.docstrings (.between w) q := by
  rw [argument]
  refine Reply.Tells.orElse (Reply.Tells.map (tells_docstring w hcounts)) fun hdocstring => ?_
  have htable := tells_table (p := p) (σ := .step w) w rfl (fun _ _ => next_step_of_width? w)
    fun _ _ => next_step_of_bar w
  refine Reply.Tells.map (htable.mono ?_ fun _ _ => id)
  intro hrow
  obtain ⟨n, lines⟩ := p
  cases lines with
  | nil => rfl
  | cons line rest =>
    have hline := hcounts line rfl
    cases hopening : line.opening? with
    | none =>
      have hwidth : line.width? = none := by
        rw [Line.width?, hrow line rfl]
        rfl
      rw [walk_cons rfl, walk_cons rfl, next_step w hline, next_between w hline, hopening, hwidth]
      rfl
    | some o =>
      obtain ⟨lead, hquotes, hlead⟩ := lead?_of_opening? hopening
      rw [hdocstring line rfl (by rw [hopening]; rfl), walk_cons rfl, next_between w hline,
        opensLine_of_lead? hlead]
      rcases hquotes with rfl | rfl <;> rfl

/-- What stands under a step, if anything does. -/
theorem tells_underStep (w : Within) (p : Place) :
    ((p.behindIgnorable argument).optional p).Tells (p.walk (.step w)) False fun argument q =>
      Walked (.step w) p (argument.elim [] Argument.docstrings) (.between w) q := by
  have hskip := walked_skipIgnorable (σ := .step w) rfl p
  have hargument := hskip.tells (tells_argument w p.isIgnorable_head_skipIgnorable)
  refine Reply.Tells.optional (hargument.mono id fun _ _ hwalked => hskip.trans hwalked) ?_
  intro hsame
  rw [walk_skipIgnorable rfl, walk_skipIgnorable rfl] at hsame
  exact Walked.of_eq hsame

end Argument

section Steps

/-- A step and what stands under it. -/
theorem tells_step (hw : w.hasSteps = true) (p : Place) :
    p.step.Tells (p.walk (.between w)) (∀ line, p.rest.head? = some line → line.step? = none)
      fun s q => Walked (.between w) p s.docstrings (.between w) q ∧
        q.rest.length < p.rest.length := by
  rw [step]
  refine Reply.Tells.bind (tells_take ?_)
  rintro line rest ⟨word, text⟩ hrest hstep
  obtain ⟨n, lines⟩ := p
  dsimp only at hrest
  subst hrest
  obtain ⟨more, hlead, _⟩ := Line.step?_eq_some_iff.mp hstep
  have hnext : (Stage.between w).next line = some (.step w) := by
    rw [next_between w (isIgnorable_of_lead? hlead), opensLine_of_lead? hlead, Within.opens, hw]
    rfl
  have hfirst := walked_next n rest rfl hnext
  have hunder := hfirst.tells (tells_underStep w ⟨n + 1, rest⟩)
  refine Reply.Tells.map (hunder.mono False.elim ?_)
  intro argument q hwalked
  refine ⟨?_, Nat.lt_succ_of_le hwalked.length_le⟩
  rw [Step.docstrings_eq]
  exact hfirst.trans hwalked

/-- Steps are read up to the first line that counts and is none. -/
theorem tells_steps (hw : w.hasSteps = true) (p : Place) :
    p.steps.Tells (p.walk (.between w)) False fun steps q =>
      Walked (.between w) p (steps.flatMap Step.docstrings) (.between w) q ∧
        ∀ line, q.skipIgnorable.rest.head? = some line → line.step? = none := by
  have hread : ∀ p : Place, (p.behindIgnorable step).Tells (p.walk (.between w))
      (∀ line, p.skipIgnorable.rest.head? = some line → line.step? = none) fun s q =>
        Walked (.between w) p s.docstrings (.between w) q ∧ q.rest.length < p.rest.length := by
    intro p
    have hskip := walked_skipIgnorable (σ := .between w) rfl p
    refine (hskip.tells (tells_step hw p.skipIgnorable)).mono id ?_
    rintro s q ⟨hwalked, hlt⟩
    exact ⟨hskip.trans hwalked, Nat.lt_of_lt_of_le hlt hskip.length_le⟩
  have hmany := tells_many (fun _ : Unit => .between w) (fun _ _ => True) Step.docstrings (i := ())
    (p := p) (fun _ p _ => (hread p).mono id fun _ q hq => ⟨(), trivial, hq⟩) trivial
  refine hmany.mono id ?_
  rintro steps q ⟨_, _, hq⟩
  exact hq

end Steps

section Headers

/-- The stages in front of a header, with or without tags. -/
def front (w : Within) : (tagged : Bool) → Stage
  | false => .between w
  | true => .tagged w

theorem skips_front (w : Within) (tagged : Bool) : (front w tagged).skips = true := by
  cases tagged <;> rfl

theorem next_front {line : Line} {lead : Lead} {more : Text}
    (hlead : line.lead? = some (lead, more)) (htaggable : lead.isTaggable = true) (w : Within)
    (tagged : Bool) : (front w tagged).next line = w.opens lead := by
  have hline := isIgnorable_of_lead? hlead
  cases tagged with
  | false => rw [front, next_between w hline, opensLine_of_lead? hlead]
  | true => simp [front, Stage.next, hline, hlead, htaggable]

/-- Tags lead to the first line that counts and holds none. -/
theorem tells_tags (w : Within) (hcounts : p.Counts) :
    p.tags.Tells (p.walk (.between w)) False fun _ q => ∃ tagged,
      Walked (.between w) p [] (front w tagged) q ∧ q.Counts ∧ (tagged = false → q = p) ∧
        ∀ line more, q.rest.head? = some line → line.lead? ≠ some (.tag, more) := by
  have hread : ∀ (tagged : Bool) (q : Place),
      ((q.take Line.tags?).bind fun tags next => .done tags next.skipIgnorable).Tells
        (q.walk (front w tagged)) (∀ line, q.rest.head? = some line → line.tags? = none)
        fun _ r => r.Counts ∧ Walked (front w tagged) q [] (front w true) r ∧
          r.rest.length < q.rest.length := by
    intro tagged q
    refine Reply.Tells.bind (tells_take ?_)
    intro line rest tags hrest htags
    obtain ⟨n, lines⟩ := q
    dsimp only at hrest
    subst hrest
    have hbehind : (Line.behind? .tag line).isSome = true := by
      rw [← Line.isSome_tags?_eq, htags]
      rfl
    obtain ⟨more, hmore⟩ := Option.isSome_iff_exists.mp hbehind
    have hnext := next_front (Line.lead?_of_behind? hmore) rfl w tagged
    have hfirst := walked_next n rest
      (Stage.isOutside_of_skips (skips_front w tagged)) hnext
    have hskip := walked_skipIgnorable (skips_front w true) ⟨n + 1, rest⟩
    exact ⟨isIgnorable_head_skipIgnorable _, hfirst.trans hskip,
      Nat.lt_succ_of_le hskip.length_le⟩
  have hmany := tells_many (front w) (fun tagged q => q.Counts ∧ (tagged = false → q = p))
    (fun _ => []) (i := false) (p := p) (fun tagged q _ => (hread tagged q).mono id fun _ r hr =>
      ⟨true, ⟨hr.1, Bool.noConfusion⟩, hr.2⟩) ⟨hcounts, fun _ => rfl⟩
  rw [tags]
  refine Reply.Tells.map (hmany.mono id ?_)
  rintro groups q ⟨tagged, ⟨hq, hsame⟩, hwalked, hnone⟩
  have hnil : groups.flatMap (fun _ => ([] : List Docstring)) = [] := by simp
  refine ⟨tagged, hnil ▸ hwalked, hq, hsame, fun line more hline hlead => ?_⟩
  have htags := Line.isSome_tags?_eq line
  rw [hnone line hline, Line.behind?_of_lead? hlead, if_pos rfl] at htags
  cases htags

/-- Behind its tags, a place has no line with one of some leads. -/
def Lacks (ok : Lead → Prop) (p : Place) : Prop :=
  ∀ tags q, p.tags = .done tags q → ∀ line lead more, q.rest.head? = some line →
    line.lead? = some (lead, more) → ¬ ok lead

theorem lacks_of_tags {ok : Lead → Prop} {tags : List Text} (htags : p.tags = .done tags q)
    (h : ∀ line lead more, q.rest.head? = some line → line.lead? = some (lead, more) → ¬ ok lead) :
    p.Lacks ok := by
  intro other r hother
  rw [htags] at hother
  cases hother
  exact h

/-- A header takes the walk to the stage that it opens. -/
theorem tells_header {α : Type} (keywords : List (α × Text)) (leadOf : α → Lead)
    (hkeywords : ∀ pair ∈ keywords, pair.2 ++ [':'] = (leadOf pair.1).text)
    (hσ : σ.isOutside = true)
    (hopen : ∀ line a more, line.lead? = some (leadOf a, more) → σ.next line = some τ) :
    (p.header keywords).Tells (p.walk σ)
      (∀ line, p.rest.head? = some line → ∀ pair ∈ keywords, ∀ more,
        line.lead? ≠ some (leadOf pair.1, more))
      fun _ q => Walked σ p [] τ q ∧ q.rest.length < p.rest.length := by
  rw [header]
  refine (tells_take ?_).mono ?_ fun _ _ => id
  · intro line rest found hrest hfound
    obtain ⟨n, lines⟩ := p
    dsimp only at hrest
    subst hrest
    obtain ⟨⟨a, keyword⟩, hpair, hheader⟩ := List.exists_of_findSome?_eq_some hfound
    dsimp only at hheader
    rw [Line.header?_eq (hkeywords _ hpair), Option.map_map, Option.map_eq_some_iff] at hheader
    obtain ⟨more, hmore, _⟩ := hheader
    exact ⟨walked_next _ _ hσ (hopen line a more (Line.lead?_of_behind? hmore)), by simp⟩
  · intro hnone line hline pair hpair more hlead
    have hheader := List.findSome?_eq_none_iff.mp (hnone line hline) pair hpair
    dsimp only at hheader
    rw [Line.header?_eq (hkeywords pair hpair), Line.behind?_of_lead? hlead, if_pos rfl] at hheader
    cases hheader

theorem tells_header_singleton (keyword : Text) (lead : Lead)
    (hkeyword : keyword ++ [':'] = lead.text) (hσ : σ.isOutside = true)
    (hopen : ∀ line more, line.lead? = some (lead, more) → σ.next line = some τ) :
    (p.header [((), keyword)]).Tells (p.walk σ)
      (∀ line more, p.rest.head? = some line → line.lead? ≠ some (lead, more))
      fun _ q => Walked σ p [] τ q ∧ q.rest.length < p.rest.length := by
  have hheader := tells_header (p := p) [((), keyword)] (fun _ => lead)
    (List.forall_mem_singleton.mpr hkeyword) hσ fun line _ => hopen line
  exact hheader.mono (fun hnone line more hline => hnone line hline _ List.mem_cons_self more)
    fun _ _ => id

/-- The line in front of which the place is counts and is no description. -/
def CountsPlainly (p : Place) : Prop :=
  ∀ line, p.rest.head? = some line → line.isIgnorable = false ∧ line.description? = none

/-- A description leaves the walk under the header. -/
theorem tells_description (w : Within) (p : Place) :
    p.description.Tells (p.walk (.header w)) False fun _ q =>
      Walked (.header w) p [] (.header w) q ∧ q.CountsPlainly := by
  have hread : ∀ p : Place, (p.take descriptionLine?).Tells (p.walk (.header w))
      (∀ line, p.rest.head? = some line → descriptionLine? line = none) fun _ q =>
        Walked (.header w) p [] (.header w) q ∧ q.rest.length < p.rest.length := by
    intro p
    refine tells_take ?_
    intro line rest texts hrest htexts
    obtain ⟨n, lines⟩ := p
    dsimp only at hrest
    subst hrest
    refine ⟨walked_next _ _ rfl ?_, by simp⟩
    have hline : (line.isIgnorable || line.description?.isSome) = true := by
      rw [descriptionLine?] at htexts
      cases hdescription : line.description? with
      | some text => simp
      | none =>
        rw [hdescription, Option.elim_none] at htexts
        split at htexts
        · rename_i hline
          simp [hline]
        · cases htexts
    rw [Stage.next, if_pos hline]
  have hmany := tells_many (fun _ : Unit => .header w) (fun _ _ => True) (fun _ => []) (i := ())
    (p := p)
    (fun _ p _ => (hread p).mono id fun _ q hq => ⟨(), trivial, hq⟩) trivial
  rw [description_eq]
  refine Reply.Tells.map (hmany.mono id ?_)
  rintro groups q ⟨_, _, hwalked, hnone⟩
  have hnil : groups.flatMap (fun _ => ([] : List Docstring)) = [] := by simp
  refine ⟨hnil ▸ hwalked, fun line hline => ?_⟩
  have htest := hnone line hline
  rw [descriptionLine?] at htest
  cases hdescription : line.description? with
  | some text =>
    rw [hdescription] at htest
    cases htest
  | none =>
    rw [hdescription, Option.elim_none] at htest
    refine ⟨?_, rfl⟩
    rw [Bool.eq_false_iff]
    intro hline
    rw [if_pos hline] at htest
    cases htest

/-- Behind its description, a header has nothing that may stand under it alone. -/
theorem walk_header (hw : w ≠ .examples) (hcounts : p.CountsPlainly) :
    p.walk (.header w) = p.walk (.between w) := by
  obtain ⟨n, lines⟩ := p
  cases lines with
  | nil =>
    have hfinal : (Stage.header w).isFinal = true := by simpa [Stage.isFinal] using hw
    rw [walk, walk, Gherkin.walk, Gherkin.walk, hfinal]
    rfl
  | cons line rest =>
    obtain ⟨hline, hdescription⟩ := hcounts line rfl
    have hnext : (Stage.header w).next line = (Stage.between w).next line := by
      rw [next_between w hline]
      simp [Stage.next, hline, hdescription, hw]
    rw [walk_cons rfl, walk_cons rfl, hnext]

end Headers

section Blocks

theorem description?_of_bar {line : Line} {more : Text} (hlead : line.lead? = some (.bar, more)) :
    line.description? = none := by
  cases line with
  | none => rfl
  | some t =>
    have hsplit : t = Line.indent t ++ (Lead.bar.text ++ more) := by
      rw [← Line.lead?_eq_some_iff.mp hlead]
      exact List.takeWhile_append_dropWhile.symm
    have hleads : Leads .bar more t := by
      refine ⟨⟨Line.indent t, fun _ => List.mem_takeWhile_imp, hsplit⟩, prefix_trimEnd_append ?_ _⟩
      intro c hc
      exact Option.some.inj hc ▸ rfl
    exact hleads.description?_eq

/-- The table under a header of examples. -/
theorem tells_examplesTable (p : Place) (hcounts : p.CountsPlainly) (e : ParseError) :
    (p.table.orElse (.stop e)).Tells (p.walk (.header .examples)) False fun _ q =>
      Walked (.header .examples) p [] (.between .examples) q := by
  have hnext : ∀ line more, line.lead? = some (.bar, more) →
      (Stage.header .examples).next line = line.width?.map (.table .examples) := by
    intro line more hlead
    simp [Stage.next, isIgnorable_of_lead? hlead, description?_of_bar hlead]
  have htable := tells_table (p := p) (σ := .header .examples) .examples rfl
    (fun line k hwidth => by
      obtain ⟨more, hlead⟩ := row?_of_width? hwidth
      rw [hnext line more hlead, hwidth, Option.map_some])
    (fun line more hlead hwidth => by rw [hnext line more hlead, hwidth, Option.map_none])
  refine htable.orElse fun hrow => ?_
  change p.walk (.header .examples) = none
  obtain ⟨n, lines⟩ := p
  cases lines with
  | nil => rfl
  | cons line rest =>
    obtain ⟨hline, hdescription⟩ := hcounts line rfl
    have hwidth : line.width? = none := by
      rw [Line.width?, hrow line rfl, Option.bind_none]
    rw [walk_cons rfl]
    simp [Stage.next, hline, hdescription, hwidth]

/-- A table of examples leads to where only headers may stand. -/
theorem tells_examples (hw : w.hasExamples = true) (hcounts : p.Counts) :
    p.examples.Tells (p.walk (.between w)) (p.Lacks (· = .examples)) fun _ q =>
      Walked (.between w) p [] (.between .examples) q ∧ q.rest.length < p.rest.length := by
  rw [examples]
  refine Reply.Tells.bind_of_eq (tells_tags w hcounts) False.elim ?_
  rintro tags atHeader htags ⟨tagged, hfront, _⟩
  have hheader := tells_header_singleton "Examples".toList .examples (p := atHeader)
    (σ := front w tagged) (τ := .header .examples) rfl
    (Stage.isOutside_of_skips (skips_front w tagged)) (fun line more hlead => by
      rw [next_front hlead rfl w tagged, Within.opens, if_pos hw])
  refine Reply.Tells.bind ((hfront.tells hheader).mono ?_ ?_)
  · refine fun hnone => lacks_of_tags htags ?_
    rintro line _ more hline hlead rfl
    exact hnone line more hline hlead
  · rintro ⟨_, name⟩ under ⟨hheaderWalked, hlt⟩
    have hunder := hfront.trans hheaderWalked
    refine Reply.Tells.bind (hunder.tells ((tells_description .examples under).mono False.elim ?_))
    rintro description below ⟨hdescription, hplain⟩
    have hbelow := hunder.trans hdescription
    refine Reply.Tells.map (hbelow.tells ((tells_examplesTable below hplain _).mono False.elim ?_))
    intro rows q htable
    refine ⟨hbelow.trans htable, ?_⟩
    exact Nat.lt_of_le_of_lt (Nat.le_trans htable.length_le hdescription.length_le)
      (Nat.lt_of_lt_of_le hlt hfront.length_le)

/-- What comes behind a block has been looked for in vain, but for headers of scenarios. -/
structure Settled (w : Within) (p : Place) : Prop where
  step : w.hasSteps = true → ∀ line, p.skipIgnorable.rest.head? = some line → line.step? = none
  examples : w.hasExamples = true → p.skipIgnorable.Lacks (· = .examples)
  background : w = .feature → ∀ line more, p.skipIgnorable.rest.head? = some line →
    line.lead? ≠ some (.background, more)

/-- Tables of examples are read up to what is no table of examples. -/
theorem tells_manyExamples {p : Place}
    (hstep : ∀ line, p.skipIgnorable.rest.head? = some line → line.step? = none) :
    (p.many (behindIgnorable examples)).Tells (p.walk (.between .scenario)) False fun _ q =>
      ∃ w, (w = .scenario ∨ w = .examples) ∧ Walked (.between .scenario) p [] (.between w) q ∧
        Settled w q := by
  have hread : ∀ (w : Within) (p : Place), w.hasExamples = true →
      (p.behindIgnorable examples).Tells (p.walk (.between w))
        (p.skipIgnorable.Lacks (· = .examples)) fun _ q =>
          Walked (.between w) p [] (.between .examples) q ∧ q.rest.length < p.rest.length := by
    intro w p hw
    have hskip := walked_skipIgnorable (σ := .between w) rfl p
    refine (hskip.tells (tells_examples hw p.isIgnorable_head_skipIgnorable)).mono id ?_
    rintro _ q ⟨hwalked, hlt⟩
    exact ⟨hskip.trans hwalked, Nat.lt_of_lt_of_le hlt hskip.length_le⟩
  have hmany := tells_many Stage.between (fun w q => (w = .scenario ∨ w = .examples) ∧
      (w.hasSteps = true → ∀ line, q.skipIgnorable.rest.head? = some line → line.step? = none))
    (fun _ => []) (i := .scenario) (p := p)
    (fun w q hq => (hread w q (by rcases hq.1 with rfl | rfl <;> rfl)).mono id fun _ r hr =>
      ⟨.examples, ⟨.inr rfl, Bool.noConfusion⟩, hr⟩) ⟨.inl rfl, fun _ => hstep⟩
  refine hmany.mono id ?_
  rintro tables q ⟨w, ⟨hw, hsteps⟩, hwalked, hlacks⟩
  have hnil : tables.flatMap (fun _ => ([] : List Docstring)) = [] := by simp
  refine ⟨w, hw, hnil ▸ hwalked, hsteps, fun _ => hlacks, ?_⟩
  rcases hw with rfl | rfl <;> exact fun h => by cases h

/-- A scenario with its steps and its tables of examples. -/
theorem tells_scenario (hw : w ≠ .top) (hcounts : p.Counts) :
    p.scenario.Tells (p.walk (.between w)) (p.Lacks fun lead => ∃ word, lead = .scenario word)
      fun s q => ∃ w', (w' = .scenario ∨ w' = .examples) ∧ Settled w' q ∧
        Walked (.between w) p (s.steps.flatMap Step.docstrings) (.between w') q ∧
        q.rest.length < p.rest.length := by
  rw [scenario]
  refine Reply.Tells.bind_of_eq (tells_tags w hcounts) False.elim ?_
  rintro tags atHeader htags ⟨tagged, hfront, _⟩
  have hheader := tells_header (p := atHeader) (σ := front w tagged) (τ := .header .scenario)
    (ScenarioWord.all.map fun word => (word, word.word)) Lead.scenario
    (by
      intro pair hpair
      obtain ⟨word, _, rfl⟩ := List.mem_map.mp hpair
      rfl)
    (Stage.isOutside_of_skips (skips_front w tagged)) (fun line word more hlead => by
      rw [next_front hlead rfl w tagged, Within.opens, if_neg hw])
  refine Reply.Tells.bind ((hfront.tells hheader).mono ?_ ?_)
  · refine fun hnone => lacks_of_tags htags ?_
    rintro line _ more hline hlead ⟨word, rfl⟩
    refine hnone line hline (word, word.word) (List.mem_map.mpr ⟨word, ?_, rfl⟩) more hlead
    cases word <;> decide
  · rintro ⟨word, name⟩ under ⟨hheaderWalked, hlt⟩
    have hunder := hfront.trans hheaderWalked
    refine Reply.Tells.bind (hunder.tells ((tells_description .scenario under).mono False.elim ?_))
    rintro description below ⟨hdescription, hplain⟩
    have hbelow := (hunder.trans hdescription).trans (.of_eq (walk_header (by decide) hplain))
    refine Reply.Tells.bind (hbelow.tells ((tells_steps rfl below).mono False.elim ?_))
    rintro steps behind ⟨hsteps, hnone⟩
    have hend := hbelow.trans hsteps
    refine Reply.Tells.map (hend.tells ((tells_manyExamples hnone).mono False.elim ?_))
    rintro examples q ⟨w', hw', hexamples, hsettled⟩
    have hwalked := hend.trans hexamples
    rw [List.append_nil] at hwalked
    refine ⟨w', hw', hsettled, hwalked, ?_⟩
    have hle := Nat.le_trans hexamples.length_le (Nat.le_trans hsteps.length_le
      hdescription.length_le)
    exact Nat.lt_of_le_of_lt hle (Nat.lt_of_lt_of_le hlt hfront.length_le)

theorem tells_background (p : Place) :
    p.background.Tells (p.walk (.between .feature))
      (∀ line more, p.rest.head? = some line → line.lead? ≠ some (.background, more)) fun b q =>
        Settled .background q ∧
          Walked (.between .feature) p (b.steps.flatMap Step.docstrings) (.between .background) q := by
  rw [background]
  have hheader := tells_header_singleton "Background".toList .background (p := p)
    (σ := .between .feature) (τ := .header .background) rfl rfl (fun line more hlead => by
      rw [next_between _ (isIgnorable_of_lead? hlead), opensLine_of_lead? hlead]
      rfl)
  refine Reply.Tells.bind (hheader.mono id ?_)
  rintro ⟨_, name⟩ under ⟨hunder, _⟩
  refine Reply.Tells.bind (hunder.tells ((tells_description .background under).mono False.elim ?_))
  rintro description below ⟨hdescription, hplain⟩
  have hbelow := (hunder.trans hdescription).trans (.of_eq (walk_header (by decide) hplain))
  refine Reply.Tells.map (hbelow.tells ((tells_steps rfl below).mono False.elim ?_))
  rintro steps q ⟨hsteps, hnone⟩
  exact ⟨⟨fun _ => hnone, Bool.noConfusion, fun h => by cases h⟩, hbelow.trans hsteps⟩

/-- The scenarios of a feature are read up to what is no scenario. -/
theorem tells_scenarios (hw : w ≠ .top) (hsettled : Settled w p) :
    (p.many (behindIgnorable scenario)).Tells (p.walk (.between w)) False fun scenarios q =>
      ∃ w', w' ≠ .top ∧ Settled w' q ∧
        (q.skipIgnorable.Lacks fun lead => ∃ word, lead = .scenario word) ∧
        Walked (.between w) p ((scenarios.flatMap Scenario.steps).flatMap Step.docstrings)
          (.between w') q := by
  have hread : ∀ (w : Within) (p : Place), w ≠ .top ∧ Settled w p →
      (p.behindIgnorable scenario).Tells (p.walk (.between w))
        (p.skipIgnorable.Lacks fun lead => ∃ word, lead = .scenario word) fun s q =>
          ∃ w', (w' ≠ .top ∧ Settled w' q) ∧
            Walked (.between w) p (s.steps.flatMap Step.docstrings) (.between w') q ∧
            q.rest.length < p.rest.length := by
    rintro w p ⟨hw, _⟩
    have hskip := walked_skipIgnorable (σ := .between w) rfl p
    refine (hskip.tells (tells_scenario hw p.isIgnorable_head_skipIgnorable)).mono id ?_
    rintro s q ⟨w', hw', hsettled, hwalked, hlt⟩
    refine ⟨w', ⟨?_, hsettled⟩, hskip.trans hwalked, Nat.lt_of_lt_of_le hlt hskip.length_le⟩
    rcases hw' with rfl | rfl <;> decide
  refine (tells_many Stage.between _ _ hread ⟨hw, hsettled⟩).mono id ?_
  rintro scenarios q ⟨w', ⟨hw', hsettled'⟩, hwalked, hlacks⟩
  refine ⟨w', hw', hsettled', hlacks, ?_⟩
  rwa [List.flatMap_assoc]

/-- The docstrings of a document whose remaining lines do not count, and nothing if a line counts. -/
def unread (p : Place) : Option (List Docstring) :=
  if p.skipIgnorable.rest = [] then some [] else none

/-- A line with a lead that has been looked for in vain opens nothing. -/
theorem next_front_of_settled {q r : Place} {line : Line} {lead : Lead} {more : Text}
    {tagged : Bool} {tags : List Text} (hsettled : Settled w p) (hq : q = p.skipIgnorable)
    (hfeature : w = .top → q.Lacks (· = .feature))
    (hscenario : w ≠ .top → q.Lacks fun lead => ∃ word, lead = .scenario word)
    (htags : q.tags = .done tags r) (hsame : tagged = false → r = q)
    (hline : r.rest.head? = some line) (hlead : line.lead? = some (lead, more))
    (htag : lead ≠ .tag) : (front w tagged).next line = none := by
  subst hq
  have huntagged : lead.isTaggable = false → (tagged = false → w.opens lead = none) →
      (front w tagged).next line = none := by
    intro htaggable hopens
    cases tagged with
    | true => simp [front, Stage.next, isIgnorable_of_lead? hlead, hlead, htaggable]
    | false => rw [front, next_between w (isIgnorable_of_lead? hlead), opensLine_of_lead? hlead,
        hopens rfl]
  cases lead with
  | tag => exact absurd rfl htag
  | feature =>
    rw [next_front hlead rfl, Within.opens, if_neg]
    intro hw
    exact hfeature hw tags r htags line _ more hline hlead rfl
  | background =>
    refine huntagged rfl fun huntag => ?_
    rw [Within.opens, if_neg]
    rintro rfl
    exact hsettled.background rfl line more (hsame huntag ▸ hline) hlead
  | scenario word =>
    rw [next_front hlead rfl, Within.opens]
    by_cases hw : w = .top
    · rw [if_pos hw]
    · exact absurd ⟨word, rfl⟩ (hscenario hw tags r htags line _ more hline hlead)
  | examples =>
    rw [next_front hlead rfl, Within.opens, if_neg]
    intro hw
    exact hsettled.examples hw tags r htags line _ more hline hlead rfl
  | step word =>
    refine huntagged rfl fun huntag => ?_
    rw [Within.opens, if_neg]
    intro hw
    have hstep := hsettled.step hw line (hsame huntag ▸ hline)
    rw [Line.step?_eq_some_iff.mpr ⟨more, hlead, rfl⟩] at hstep
    cases hstep
  | quotes => exact huntagged rfl fun _ => rfl
  | backticks => exact huntagged rfl fun _ => rfl
  | bar => exact huntagged rfl fun _ => rfl

/-- Where all that may follow has been looked for in vain, a line that counts cannot be read. -/
theorem walk_of_settled (hsettled : Settled w p)
    (hfeature : w = .top → p.skipIgnorable.Lacks (· = .feature))
    (hscenario : w ≠ .top → p.skipIgnorable.Lacks fun lead => ∃ word, lead = .scenario word) :
    p.walk (.between w) = p.unread := by
  rw [← walk_skipIgnorable (σ := .between w) rfl, unread]
  cases hrest : p.skipIgnorable.rest with
  | nil =>
    rw [walk, hrest]
    rfl
  | cons first rest =>
    rw [if_neg (by simp)]
    have htells := tells_tags w p.isIgnorable_head_skipIgnorable
    cases htags : p.skipIgnorable.tags with
    | pass =>
      rw [htags] at htells
      exact htells.elim
    | stop e =>
      rw [htags] at htells
      exact htells
    | done tags r =>
      rw [htags] at htells
      obtain ⟨tagged, hfront, hr, hsame, hnotag⟩ := htells
      have hnone : r.walk (front w tagged) = none := by
        obtain ⟨n, lines⟩ := r
        cases lines with
        | nil =>
          cases tagged with
          | true => rfl
          | false =>
            have hq := hsame rfl
            rw [← hq] at hrest
            cases hrest
        | cons line lines =>
          rw [walk_cons (Stage.isOutside_of_skips (skips_front w tagged))]
          cases hlead : line.lead? with
          | none => cases tagged <;> simp [front, Stage.next, Within.opensLine, hr line rfl, hlead]
          | some found =>
            obtain ⟨lead, more⟩ := found
            rw [next_front_of_settled hsettled rfl hfeature hscenario htags hsame rfl hlead
              fun htag => hnotag line more rfl (htag ▸ hlead)]
            rfl
      rw [hfront.walk_eq, hnone]
      rfl

/-- A feature leads to the lines that cannot be read any more. -/
theorem tells_feature (hcounts : p.Counts) :
    p.feature.Tells (p.walk (.between .top)) (p.Lacks (· = .feature)) fun f q =>
      p.walk (.between .top) = q.unread.map (f.steps.flatMap Step.docstrings ++ ·) := by
  rw [feature]
  refine Reply.Tells.bind_of_eq (tells_tags .top hcounts) False.elim ?_
  rintro tags atHeader htags ⟨tagged, hfront, _⟩
  have hheader := tells_header_singleton "Feature".toList .feature (p := atHeader)
    (σ := front .top tagged) (τ := .header .feature) rfl
    (Stage.isOutside_of_skips (skips_front .top tagged)) (fun line more hlead => by
      rw [next_front hlead rfl .top tagged]
      rfl)
  refine Reply.Tells.bind ((hfront.tells hheader).mono ?_ ?_)
  · refine fun hnone => lacks_of_tags htags ?_
    rintro line _ more hline hlead rfl
    exact hnone line more hline hlead
  · rintro ⟨_, name⟩ under ⟨hheaderWalked, _⟩
    have hunder := hfront.trans hheaderWalked
    refine Reply.Tells.bind (hunder.tells ((tells_description .feature under).mono False.elim ?_))
    rintro description below ⟨hdescription, hplain⟩
    have hbelow := (hunder.trans hdescription).trans (.of_eq (walk_header (by decide) hplain))
    have hskip := walked_skipIgnorable (σ := .between .feature) rfl below
    have hbackground : ((below.behindIgnorable background).optional below).Tells
        (below.walk (.between .feature)) False fun b q => ∃ w, w ≠ .top ∧ Settled w q ∧
          Walked (.between .feature) below
            ((b.elim [] Background.steps).flatMap Step.docstrings) (.between w) q := by
      refine Reply.Tells.optional ((hskip.tells (tells_background _)).mono id ?_) ?_
      · rintro b q ⟨hsettled, hwalked⟩
        exact ⟨.background, by decide, hsettled, hskip.trans hwalked⟩
      · intro hnone
        exact ⟨.feature, by decide, ⟨Bool.noConfusion, Bool.noConfusion, fun _ => hnone⟩,
          Walked.refl _ _⟩
    refine Reply.Tells.bind (hbelow.tells (hbackground.mono False.elim ?_))
    rintro b behind ⟨w, hw, hsettled, hwalked⟩
    have hend := hbelow.trans hwalked
    refine Reply.Tells.map (hend.tells ((tells_scenarios hw hsettled).mono False.elim ?_))
    rintro scenarios q ⟨w', hw', hsettled', hlacks, hscenarios⟩
    have hall := (hend.trans hscenarios).walk_eq
    rw [walk_of_settled hsettled' (fun h => absurd h hw') fun _ => hlacks] at hall
    rw [hall, Feature.steps, List.flatMap_append]
    rfl

end Blocks

end Place

/-- Reading a document and walking over its lines come to the same docstrings, and fail on the same
    texts. -/
theorem walk_eq_parse (text : Text) :
    walk 1 (.between .top) (Line.all text) = (parse text).toOption.map Document.docstrings := by
  have hskip := Place.walk_skipIgnorable (σ := .between .top) rfl ⟨1, Line.all text⟩
  have htells := Place.tells_feature
    (Place.isIgnorable_head_skipIgnorable ⟨1, Line.all text⟩)
  have hsame := (Place.mk 1 (Line.all text)).skipIgnorable_skipIgnorable
  change (Place.mk 1 (Line.all text)).walk (.between .top) = _
  rw [← hskip, parse, Place.document]
  generalize (Place.mk 1 (Line.all text)).skipIgnorable = p at htells hsame
  cases hfeature : p.feature with
  | stop e =>
    rw [hfeature] at htells
    exact htells
  | done f q =>
    rw [hfeature] at htells
    have hwalk : p.walk (.between .top) = q.unread.map (f.steps.flatMap Step.docstrings ++ ·) :=
      htells
    rw [hwalk, Place.unread]
    simp only [Reply.optional]
    cases q.skipIgnorable.rest with
    | nil =>
      rw [if_pos rfl, Option.map_some, List.append_nil]
      rfl
    | cons line rest => cases line <;> rfl
  | pass =>
    rw [hfeature] at htells
    have hwalk := Place.walk_of_settled (p := p) (w := .top)
      ⟨Bool.noConfusion, Bool.noConfusion, fun h => by cases h⟩ (fun _ => hsame.symm ▸ htells)
      (fun h => absurd rfl h)
    rw [hwalk, Place.unread]
    simp only [Reply.optional]
    cases p.skipIgnorable.rest with
    | nil => rfl
    | cons line rest => cases line <;> rfl

/-- A text that the walk gets through is accepted, and has the docstrings that the walk tells. -/
theorem exists_parse_of_walk {text : Text} {docstrings : List Docstring}
    (h : walk 1 (.between .top) (Line.all text) = some docstrings) :
    ∃ doc, parse text = .ok doc ∧ doc.docstrings = docstrings := by
  rw [walk_eq_parse] at h
  obtain ⟨doc, hdoc, hdocstrings⟩ := Option.map_eq_some_iff.mp h
  cases hparse : parse text with
  | error e =>
    rw [hparse] at hdoc
    cases hdoc
  | ok other =>
    rw [hparse] at hdoc
    cases hdoc
    exact ⟨doc, rfl, hdocstrings⟩

end ScenarioLint.Gherkin
