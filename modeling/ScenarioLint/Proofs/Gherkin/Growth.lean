import ScenarioLint.Proofs.Gherkin.StepPlace

/-!
What becomes of the steps of a file that gets new steps put in between its lines.

A new step may stand directly behind the line of another one, which then has nothing under it, but
nowhere else among the lines of a step.
-/

namespace ScenarioLint.Gherkin

/-- No step goes on over a line with the use: nothing that stands behind it belongs to the step. -/
def Kind.Free : Kind → Prop
  | description | closing => True
  | filler | content => False
  | lead own => own.isArgument = false

/-- A line that takes the place of another one.  It may be another line with the same use if that is
    the first one of a step, and it may be anything in the place of a description. -/
inductive Token.Replaces : (other token : Token) → Prop
  | same {token : Token} : Token.Replaces token token
  | lead {own : Lead} {ind more line other : Text} (hargument : own.isArgument = false)
      (hopens : own.Opens ind more other) : Token.Replaces (.lead own, other) (.lead own, line)
  | description {line : Text} {other : Token} : Token.Replaces other (.description, line)

/-- Lines of a file, the first of which has the index `k`, and the lines when some have been put in.
    For each of the latter `origins` tells which line it was, if it was one.  New lines start with a
    step, and `free` tells whether they may stand here: they may behind a line that is `Free` and
    behind other new lines.  Blank lines and comments may go at the end. -/
inductive Grown : (free : Prop) → (k : Nat) → (tokens : List Token) →
    (origins : List (Option Nat)) → (result : List Token) → Prop
  | nil {free : Prop} {k : Nat} {tokens : List Token} (hfillers : Fillers tokens) :
      Grown free k tokens [] []
  | keep {free next : Prop} {k : Nat} {token other : Token} {tokens result : List Token}
      {origins : List (Option Nat)} (hother : Token.Replaces other token)
      (hnext : next → token.1.Free) (h : Grown next (k + 1) tokens origins result) :
      Grown free k (token :: tokens) (some k :: origins) (other :: result)
  | put {free : Prop} {k : Nat} {tokens block result : List Token} {origins : List (Option Nat)}
      {word : StepWord} {ind more line : Text} (hfree : free)
      (hopens : (Lead.step word).Opens ind more line) (h : Grown free k tokens origins result) :
      Grown free k tokens (none :: (block.map (fun _ => none) ++ origins))
        ((.lead (.step word), line) :: (block ++ result))

/-- Lines that belong together.  A new one could stand behind the last of them only. -/
structure Coherent (init : List Token) (last : Token) : Prop where
  init : ∀ token ∈ init, ¬ token.1.Free
  filler : last.1 ≠ .filler
  description : last.1 ≠ .description
  argument : ∀ own, last.1 = .lead own → own.isArgument = true

section Coherent

variable {n : Nat} {tokens : List Token}

/-- The rows of a table have one use. -/
theorem bar_of_rows {rows : List Row} (h : Series Row.Derived n tokens rows) :
    ∀ token ∈ tokens, token.1 = .lead .bar := by
  induction h with
  | nil => simp
  | cons hrow _ ih =>
    obtain ⟨_, _, _, _, _, _, _, rfl⟩ := hrow
    exact List.forall_mem_cons.mpr ⟨rfl, ih⟩

theorem Argument.Derived.exists_coherent {a : Argument} (h : a.Derived n tokens) :
    ∃ init last, tokens = init ++ [last] ∧ Coherent init last := by
  cases a with
  | docstring d =>
    obtain ⟨lead, _, _, opening, body, _, closing, hlead, _, _, _, _, _, rfl⟩ := h
    refine ⟨(.lead lead, opening) :: body.map (Kind.content, ·), (.closing, closing), rfl, ?_,
      nofun, nofun, nofun⟩
    rw [List.forall_mem_cons]
    refine ⟨?_, fun token htoken => ?_⟩
    · rcases hlead with rfl | rfl <;> exact Bool.noConfusion
    · obtain ⟨line, _, rfl⟩ := List.mem_map.mp htoken
      exact id
  | table rows =>
    obtain ⟨⟨hrows, _⟩, hseries⟩ := h
    have hbar := bar_of_rows hseries
    have hne : tokens ≠ [] := by
      cases hseries with
      | nil => exact absurd rfl hrows
      | cons hrow _ =>
        obtain ⟨_, _, _, _, _, _, _, rfl⟩ := hrow
        exact List.cons_ne_nil _ _
    obtain ⟨init, last, rfl⟩ := (List.eq_nil_or_concat tokens).resolve_left hne
    rw [List.concat_eq_append, List.forall_mem_append, List.forall_mem_singleton] at hbar
    obtain ⟨hinit, hlast⟩ := hbar
    refine ⟨init, last, List.concat_eq_append, fun token htoken => ?_, ?_, ?_, ?_⟩
    · rw [hinit token htoken]
      exact Bool.noConfusion
    all_goals rw [hlast]
    · nofun
    · nofun
    · rintro _ ⟨⟩
      rfl

/-- What belongs to a step, if anything does, belongs together. -/
theorem Step.Derived.exists_coherent {s : Step} (h : s.Derived n tokens) :
    ∃ ind more line under, (Lead.step s.word).Opens ind more line ∧
      tokens = (.lead (.step s.word), line) :: under ∧
      (under = [] ∨ ∃ init last, under = init ++ [last] ∧ Coherent init last) := by
  obtain ⟨_, under, ⟨ind, more, line, hopens, _, rfl⟩, _, hunder, rfl⟩ := h
  refine ⟨ind, more, line, under, hopens, rfl, ?_⟩
  cases hargument : s.argument with
  | none =>
    rw [hargument] at hunder
    cases hunder
    exact .inl rfl
  | some a =>
    rw [hargument] at hunder
    cases hunder with
    | cons hnode hmore =>
      cases hmore
      obtain ⟨fillers, own, hfillers, hderived, rfl⟩ := hnode
      obtain ⟨init, last, rfl, hcoherent⟩ := hderived.exists_coherent
      refine .inr ⟨fillers ++ init, last, by simp, { hcoherent with init := ?_ }⟩
      refine List.forall_mem_append.mpr ⟨fun token htoken => ?_, hcoherent.init⟩
      rw [(hfillers token htoken).1]
      exact id

end Coherent

namespace Grown

variable {free : Prop} {k i : Nat} {tokens result own under back init : List Token} {last : Token}
  {origins : List (Option Nat)} {s : Step} {n : Nat}

/-- New lines in front do not change what a step above goes on with. -/
theorem calm (h : Grown free k tokens origins result) (hcalm : Calm tokens) : Calm result := by
  induction h with
  | nil => exact .nil
  | put _ hopens _ _ => exact .lead hopens rfl
  | keep hother _ _ ih =>
    cases hcalm with
    | filler hline hrest =>
      cases hother
      exact .filler hline (ih hrest)
    | lead hline hargument =>
      cases hother with
      | same => exact .lead hline hargument
      | lead _ hopens => exact .lead hopens hargument

/-- Lines that belong together are kept together, unless a new line is put in in front of them. -/
theorem exists_append (h : Grown free k (init ++ last :: back) origins result)
    (hcoherent : Coherent init last) (hfirst : free → origins.head? ≠ some none)
    (hcalm : Calm back) : ∃ more, result = init ++ last :: more ∧ Calm more := by
  obtain ⟨hinit, hfiller, hdescription, hargument⟩ := hcoherent
  induction init generalizing free k origins result with
  | nil =>
    cases h with
    | nil hfillers => exact absurd (hfillers last List.mem_cons_self).1 hfiller
    | put hfree _ _ => exact absurd rfl (hfirst hfree)
    | keep hother _ hmore =>
      cases hother with
      | same => exact ⟨_, rfl, hmore.calm hcalm⟩
      | lead hnot _ =>
        rw [hargument _ rfl] at hnot
        cases hnot
      | description => exact absurd rfl hdescription
  | cons token init ih =>
    obtain ⟨htoken, hrest⟩ := List.forall_mem_cons.mp hinit
    cases h with
    | nil hfillers =>
      have hmem : last ∈ token :: init ++ last :: back :=
        List.mem_append_right _ List.mem_cons_self
      exact absurd (hfillers last hmem).1 hfiller
    | put hfree _ _ => exact absurd rfl (hfirst hfree)
    | keep hother hnext hmore =>
      cases hother with
      | same =>
        obtain ⟨more, rfl, hcalmMore⟩ := ih hmore (fun hfree => absurd (hnext hfree) htoken) hrest
        exact ⟨more, rfl, hcalmMore⟩
      | lead hnot _ => exact absurd hnot htoken
      | description => exact absurd trivial htoken

/-- Where a new line stands in front, it is that of a step. -/
theorem calm_of_head (h : Grown free k tokens origins result) (hnew : origins[0]? = some none) :
    Calm result := by
  cases h with
  | nil | keep => cases hnew
  | put _ hopens _ => exact .lead hopens rfl

/-- What belongs to a step is still there, unless a new line has been put in in front of it. -/
theorem exists_under (h : Grown free k (under ++ back) origins result)
    (hunder : under = [] ∨ ∃ init last, under = init ++ [last] ∧ Coherent init last)
    (hcalm : Calm back) :
    ∃ more, Calm more ∧ result = (if origins[0]? = some none then [] else under) ++ more := by
  by_cases hnew : origins[0]? = some none
  · exact ⟨result, h.calm_of_head hnew, by rw [if_pos hnew, List.nil_append]⟩
  · rw [if_neg hnew]
    rcases hunder with rfl | ⟨init, last, rfl, hcoherent⟩
    · exact ⟨result, h.calm hcalm, rfl⟩
    · have hfirst : origins.head? ≠ some none := by rwa [List.head?_eq_getElem?]
      rw [List.append_assoc, List.singleton_append] at h
      obtain ⟨more, rfl, hmore⟩ := h.exists_append hcoherent (fun _ => hfirst) hcalm
      exact ⟨more, hmore, by simp⟩

/-- Behind the line of a step stands what stood there, unless there is a new line now. -/
theorem exists_drop (h : Grown free k tokens origins result)
    (hdrop : tokens.drop i = own ++ back) (hstep : s.Derived n own) (hcalm : Calm back) :
    ∃ j other text more, origins[j]? = some (some (k + i)) ∧
      (Lead.step s.word).Derived text other ∧ Calm more ∧
      result.drop j =
        other :: ((if origins[j + 1]? = some none then [] else own.tail) ++ more) := by
  obtain ⟨ind, rest, line, under, hopens, rfl, hunder⟩ := hstep.exists_coherent
  induction h generalizing i with
  | @nil _ _ tokens hfillers =>
    have hmem : (Kind.lead (.step s.word), line) ∈ tokens.drop i := by
      rw [hdrop]
      exact List.mem_cons_self
    cases (hfillers _ (List.mem_of_mem_drop hmem)).1
  | @put _ k tokens block result origins word _ _ _ _ _ _ ih =>
    obtain ⟨j, other, text, more, horigin, hother, hmore, hresult⟩ := ih hdrop
    have hlength : (block.map fun _ => (none : Option Nat)).length = block.length :=
      List.length_map _
    refine ⟨block.length + j + 1, other, text, more, ?_, hother, hmore, ?_⟩
    · rw [List.getElem?_cons_succ, List.getElem?_append_right (by omega), hlength,
        Nat.add_sub_cancel_left, horigin]
    · rw [List.drop_succ_cons, List.drop_length_add_append, hresult, List.getElem?_cons_succ,
        List.getElem?_append_right (by omega), hlength, Nat.add_assoc, Nat.add_sub_cancel_left]
  | @keep _ _ k token other tokens result origins hother hnext hmore ih =>
    cases i with
    | succ i =>
      obtain ⟨j, other, text, more, horigin, hother, hmore, hresult⟩ := ih hdrop
      refine ⟨j + 1, other, text, more, ?_, hother, hmore, hresult⟩
      rw [List.getElem?_cons_succ, horigin, Nat.add_assoc, Nat.add_comm 1]
    | zero =>
      obtain ⟨rfl, hrest⟩ := List.cons.inj hdrop
      have htokens : tokens = under ++ back := hrest
      have hlead : ∃ text, (Lead.step s.word).Derived text other := by
        cases hother with
        | same => exact ⟨_, _, _, _, hopens, rfl, rfl⟩
        | lead _ hopens => exact ⟨_, _, _, _, hopens, rfl, rfl⟩
      obtain ⟨text, hlead⟩ := hlead
      obtain ⟨more, hcalmMore, hresult⟩ := (htokens ▸ hmore).exists_under hunder hcalm
      refine ⟨0, other, text, more, rfl, hlead, hcalmMore, ?_⟩
      rw [List.drop_zero, List.getElem?_cons_succ, hresult]
      rfl

/-- A step of the lines is a step of the document that is read when new ones were put in, with the
    same argument up to its line numbers.  If a new line stands directly behind its own one, it has
    no argument any more. -/
theorem exists_step (h : Grown free k tokens origins result) {doc : Document}
    (hdoc : doc.Derived result) (hdrop : tokens.drop i = own ++ back) (hstep : s.Derived n own)
    (hcalm : Calm back) :
    ∃ t ∈ doc.steps, origins[t.line - 1]? = some (some (k + i)) ∧ t.word = s.word ∧
      t.argument.map (Argument.numbered 0) =
        if origins[t.line]? = some none then none else s.argument.map (Argument.numbered 0) := by
  obtain ⟨j, other, text, more, horigin, hother, hmore, hresult⟩ := h.exists_drop hdrop hstep hcalm
  have hread : ∃ t : Step, t.Derived (j + 1)
      (other :: if origins[j + 1]? = some none then [] else own.tail) ∧ t.word = s.word ∧
      t.argument.map (Argument.numbered 0) =
        if origins[j + 1]? = some none then none else s.argument.map (Argument.numbered 0) := by
    split
    · exact ⟨⟨s.word, text, j + 1, none⟩, ⟨other, [], hother, rfl, .nil, rfl⟩, rfl, rfl⟩
    · obtain ⟨_, _, _, _, _, rfl, _⟩ := hstep.exists_coherent
      exact hstep.exists_numbered hother (j + 1)
  obtain ⟨t, hderived, hword, hargument⟩ := hread
  have hline : result[j]? = some other := by
    rw [← Nat.add_zero j, ← List.getElem?_drop, hresult]
    rfl
  obtain ⟨_, _, line, _, _, rfl⟩ := hother
  obtain ⟨u, hu, hnumber, _, hstands⟩ := hdoc.exists_step hline
  obtain rfl : u = t := hstands.eq ⟨_, more, hresult, hderived, hmore⟩
  refine ⟨u, hu, ?_, hword, ?_⟩
  · rw [hnumber, Nat.add_sub_cancel, horigin]
  · rw [hargument, hnumber]

end Grown

end ScenarioLint.Gherkin
