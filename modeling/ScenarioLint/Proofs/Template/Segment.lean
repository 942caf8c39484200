import ScenarioLint.Proofs.Text.Decision
import ScenarioLint.Template.Segment

/-!
Cutting a template into segments.  It goes on from segment to segment: a template that starts with a
token is the token and the segments of the rest, and any other one is literal text up to the next
token and the segments from there on.
-/

namespace ScenarioLint

namespace Placeholder

variable {t : Text} {p : Placeholder}

/-- The placeholder is one of the table, and no token that starts the text is longer than its own. -/
structure IsLongest (p : Placeholder) (t : Text) : Prop where
  mem : p ∈ table
  starts : p.token <+: t
  longest : ∀ q ∈ table, q.token <+: t → q.token.length ≤ p.token.length

section Search

variable {ps : List Placeholder} {best : Option Placeholder}

/-- One step of the search for the longest token: a longer one takes the place of the best. -/
private def longer (t : Text) (best : Option Placeholder) (p : Placeholder) : Option Placeholder :=
  if p.starts t && best.all (·.token.length < p.token.length) then some p else best

/-- What the search has found among some placeholders. -/
private def Finds (t : Text) (ps : List Placeholder) : Option Placeholder → Prop
  | none => ∀ p ∈ ps, ¬ p.token <+: t
  | some p => p ∈ ps ∧ p.token <+: t ∧ ∀ q ∈ ps, q.token <+: t → q.token.length ≤ p.token.length

private theorem Finds.longer (h : Finds t ps best) (p : Placeholder) :
    Finds t (ps ++ [p]) (longer t best p) := by
  rw [Placeholder.longer, starts]
  by_cases hp : p.token <+: t
  · rw [List.isPrefixOf_iff_prefix.mpr hp]
    cases best with
    | none =>
      exact ⟨by simp, hp, List.forall_mem_append.mpr
        ⟨fun q hq hstarts => absurd hstarts (h q hq),
          List.forall_mem_singleton.mpr fun _ => Nat.le_refl _⟩⟩
    | some b =>
      obtain ⟨hb, hstarts, hlongest⟩ := h
      rw [Option.all_some, Bool.true_and]
      split
      · rename_i hlt
        rw [decide_eq_true_eq] at hlt
        exact ⟨by simp, hp, List.forall_mem_append.mpr
          ⟨fun q hq hqstarts => Nat.le_trans (hlongest q hq hqstarts) (Nat.le_of_lt hlt),
            List.forall_mem_singleton.mpr fun _ => Nat.le_refl _⟩⟩
      · rename_i hle
        rw [decide_eq_true_eq, Nat.not_lt] at hle
        exact ⟨by simp [hb], hstarts, List.forall_mem_append.mpr
          ⟨hlongest, List.forall_mem_singleton.mpr fun _ => hle⟩⟩
  · have hnot : p.token.isPrefixOf t = false := by
      rwa [← Bool.not_eq_true, List.isPrefixOf_iff_prefix]
    rw [hnot]
    cases best with
    | none => exact List.forall_mem_append.mpr ⟨h, List.forall_mem_singleton.mpr hp⟩
    | some b =>
      obtain ⟨hb, hstarts, hlongest⟩ := h
      exact ⟨by simp [hb], hstarts, List.forall_mem_append.mpr
        ⟨hlongest, List.forall_mem_singleton.mpr fun hpstarts => absurd hpstarts hp⟩⟩

private theorem Finds.foldl (h : Finds t ps best) (more : List Placeholder) :
    Finds t (ps ++ more) (more.foldl (Placeholder.longer t) best) := by
  induction more generalizing ps best with
  | nil => rwa [List.append_nil]
  | cons p more ih =>
    rw [List.foldl_cons, List.append_cons]
    exact ih (h.longer p)

private theorem finds_at? (t : Text) : Finds t table (at? t) := by
  have hnone : Finds t [] none := List.forall_mem_nil _
  exact hnone.foldl table

end Search

/-- Different placeholders have different tokens. -/
theorem eq_of_token_eq {p q : Placeholder} (hp : p ∈ table) (hq : q ∈ table)
    (h : p.token = q.token) : p = q := by
  have hall : ∀ p ∈ table, ∀ q ∈ table, p.token = q.token → p = q := by decide +kernel
  exact hall p hp q hq h

theorem token_ne_nil (hp : p ∈ table) : p.token ≠ [] := by
  have hall : ∀ p ∈ table, p.token ≠ [] := by decide
  exact hall p hp

theorem IsLongest.eq {q : Placeholder} (hp : p.IsLongest t) (hq : q.IsLongest t) : p = q := by
  refine eq_of_token_eq hp.mem hq.mem ?_
  have hlength := Nat.le_antisymm (hq.longest p hp.mem hp.starts) (hp.longest q hq.mem hq.starts)
  exact (List.prefix_of_prefix_length_le hp.starts hq.starts (Nat.le_of_eq hlength)).eq_of_length hlength

theorem isLongest_of_at? (h : at? t = some p) : p.IsLongest t := by
  have hfinds := finds_at? t
  rw [h] at hfinds
  exact ⟨hfinds.1, hfinds.2.1, hfinds.2.2⟩

theorem at?_eq_none_iff : at? t = none ↔ ∀ p ∈ table, ¬ p.token <+: t := by
  have hfinds := finds_at? t
  cases hat : at? t with
  | none =>
    rw [hat] at hfinds
    exact iff_of_true rfl hfinds
  | some p =>
    rw [hat] at hfinds
    exact iff_of_false (by simp) fun h => h p hfinds.1 hfinds.2.1

/-- The placeholder that is found is the one with the longest token. -/
theorem at?_eq_some_iff : at? t = some p ↔ p.IsLongest t := by
  refine ⟨isLongest_of_at?, fun h => ?_⟩
  cases hat : at? t with
  | none => exact absurd h.starts (at?_eq_none_iff.mp hat p h.mem)
  | some q => rw [(isLongest_of_at? hat).eq h]

/-- A placeholder that is found is one of the table, and its token starts the text. -/
theorem at?_eq_some (h : at? t = some p) : p ∈ table ∧ ∃ rest, t = p.token ++ rest := by
  obtain ⟨hmem, ⟨rest, hrest⟩, _⟩ := isLongest_of_at? h
  exact ⟨hmem, rest, hrest.symm⟩

end Placeholder

namespace Template.Segment

open Placeholder (at? table)

variable {skip : Nat} {run t rest : Text} {done : List Segment} {p : Placeholder}

/-- Wherever a reader stands in a text that another one follows, no token starts. -/
def TokenFree (t rest : Text) : Prop :=
  ∀ front back, t = front ++ back → back ≠ [] → ∀ p ∈ table, ¬ p.token <+: back ++ rest

section Split

theorem ofRun_of_ne_nil (h : run ≠ []) : ofRun run = [literal run.reverse] := by
  rw [ofRun, if_neg (by simpa using h)]

private theorem split_append (done before : List Segment) :
    split skip run (done ++ before) t = before.reverse ++ split skip run done t := by
  induction t generalizing skip run done with
  | nil => simp [split]
  | cons c t ih =>
    rw [split, split]
    split
    · exact ih done
    · split
      · rw [← List.append_assoc, ← List.cons_append, ih]
      · exact ih done

/-- The characters that belong to the last segment are passed over. -/
private theorem split_length_append (t rest : Text) :
    split t.length run done (t ++ rest) = split 0 run done rest := by
  induction t with
  | nil => rfl
  | cons c t ih =>
    rw [List.cons_append, split, if_pos (by simp), List.length_cons, Nat.add_sub_cancel, ih]

/-- A token that starts a text ends the literal text in front of it. -/
private theorem split_of_at? (h : at? t = some p) :
    split 0 run [] t = ofRun run ++ split 0 [] [] t := by
  cases t with
  | nil => cases (show at? [] = none by decide) ▸ h
  | cons c t =>
    have hreverse : (ofRun run).reverse = ofRun run := by
      rw [ofRun]
      split <;> rfl
    have hfirst : ∀ run, split 0 run [] (c :: t) =
        (ofRun run).reverse ++ split (p.token.length - 1) [] [placeholder p] t := by
      intro run
      rw [split, if_neg (Nat.lt_irrefl 0), h, List.append_nil]
      exact split_append [placeholder p] (ofRun run)
    rw [hfirst, hfirst, hreverse]
    rfl

private theorem split_of_tokenFree (h : TokenFree t rest) :
    split 0 run done (t ++ rest) = split 0 (t.reverse ++ run) done rest := by
  induction t generalizing run with
  | nil => rfl
  | cons c t ih =>
    have hnone : at? (c :: (t ++ rest)) = none :=
      Placeholder.at?_eq_none_iff.mpr (h [] (c :: t) rfl (List.cons_ne_nil c t))
    have htail : TokenFree t rest := fun front back heq hne =>
      h (c :: front) back (by rw [heq, List.cons_append]) hne
    rw [List.cons_append, split, if_neg (Nat.lt_irrefl 0), hnone]
    dsimp only
    rw [ih htail, List.reverse_cons, List.append_assoc, List.singleton_append]

end Split

theorem ofTemplate_nil : ofTemplate [] = [] :=
  rfl

/-- The longest token that starts a template is its first segment. -/
theorem ofTemplate_token_append (h : at? (p.token ++ rest) = some p) :
    ofTemplate (p.token ++ rest) = placeholder p :: ofTemplate rest := by
  obtain ⟨c, token, htoken⟩ := List.exists_cons_of_ne_nil
    (Placeholder.token_ne_nil (Placeholder.at?_eq_some h).1)
  rw [htoken, List.cons_append] at h ⊢
  rw [ofTemplate, split, if_neg (Nat.lt_irrefl 0), h]
  dsimp only
  rw [htoken, List.length_cons, Nat.add_sub_cancel, split_length_append]
  exact split_append [] [placeholder p]

/-- Literal text up to the next token is the first segment. -/
theorem ofTemplate_literal_append (hne : t ≠ []) (hfree : TokenFree t rest)
    (hrest : rest = [] ∨ ∃ p, at? rest = some p) :
    ofTemplate (t ++ rest) = literal t :: ofTemplate rest := by
  have hrun : ofRun (t.reverse ++ []) = [literal t] := by
    rw [List.append_nil, ofRun_of_ne_nil (by simpa using hne), List.reverse_reverse]
  rw [ofTemplate, split_of_tokenFree hfree]
  obtain rfl | ⟨p, hp⟩ := hrest
  · rw [split, hrun]
    rfl
  · rw [split_of_at? hp, hrun]
    rfl

/-- A text is literal text without tokens in front of its end or of its first token. -/
theorem exists_tokenFree (body : Text) : ∃ t rest, body = t ++ rest ∧ TokenFree t rest ∧
    (rest = [] ∨ ∃ p, at? rest = some p) := by
  induction body with
  | nil => exact ⟨[], [], rfl, by simp [TokenFree], .inl rfl⟩
  | cons c body ih =>
    cases hat : at? (c :: body) with
    | some p => exact ⟨[], c :: body, rfl, by simp [TokenFree], .inr ⟨p, hat⟩⟩
    | none =>
      obtain ⟨t, rest, rfl, hfree, hrest⟩ := ih
      refine ⟨c :: t, rest, rfl, fun front back heq hne => ?_, hrest⟩
      rcases List.cons_eq_append_iff.mp heq with ⟨_, rfl⟩ | ⟨front, _, rfl⟩
      · exact Placeholder.at?_eq_none_iff.mp hat
      · exact hfree front back rfl hne

/-- What holds of the empty template and is handed on by tokens and by literal text in front of a
    token holds of all templates. -/
theorem cutting_induction {P : Text → Prop} (nil : P [])
    (token : ∀ p rest, at? (p.token ++ rest) = some p → P rest → P (p.token ++ rest))
    (literal : ∀ t rest, t ≠ [] → TokenFree t rest → (rest = [] ∨ ∃ p, at? rest = some p) → P rest →
      P (t ++ rest)) (body : Text) : P body := by
  induction hn : body.length using Nat.strongRecOn generalizing body with
  | ind n ih =>
    subst hn
    obtain ⟨t, rest, rfl, hfree, hrest⟩ := exists_tokenFree body
    by_cases ht : t = []
    · subst ht
      obtain rfl | ⟨p, hp⟩ := hrest
      · exact nil
      · obtain ⟨hmem, more, rfl⟩ := Placeholder.at?_eq_some hp
        have hlength := List.length_pos_iff.mpr (Placeholder.token_ne_nil hmem)
        exact token p more hp (ih _ (by simp; omega) more rfl)
    · have hlength := List.length_pos_iff.mpr ht
      exact literal t rest ht hfree hrest (ih _ (by simp; omega) rest rfl)

/-- The segments of a template make up the template. -/
theorem flatMap_text_ofTemplate (body : Text) : (ofTemplate body).flatMap text = body := by
  induction body using cutting_induction with
  | nil => rfl
  | token p rest hp ih => rw [ofTemplate_token_append hp, List.flatMap_cons, ih, text]
  | literal t rest hne hfree hrest ih =>
    rw [ofTemplate_literal_append hne hfree hrest, List.flatMap_cons, ih, text]

/-- Every literal segment stands in the template. -/
theorem isInfix_of_literal_mem {body t : Text} (h : literal t ∈ ofTemplate body) : t <:+: body := by
  obtain ⟨front, back, hsegments⟩ := List.append_of_mem h
  have hbody := flatMap_text_ofTemplate body
  rw [hsegments, List.flatMap_append, List.flatMap_cons, text] at hbody
  exact ⟨front.flatMap text, back.flatMap text, by rw [List.append_assoc, hbody]⟩

/-- A segment as cutting makes it: literal text that is not empty, or a placeholder of the table. -/
def IsCut : Segment → Prop
  | literal t => t ≠ []
  | placeholder p => p ∈ Placeholder.table

theorem isCut_of_mem_ofTemplate {body : Text} {segment : Segment} (h : segment ∈ ofTemplate body) :
    segment.IsCut := by
  induction body using cutting_induction with
  | nil => cases h
  | token p rest hp ih =>
    rw [ofTemplate_token_append hp, List.mem_cons] at h
    obtain rfl | h := h
    · exact (Placeholder.at?_eq_some hp).1
    · exact ih h
  | literal t rest hne hfree hrest ih =>
    rw [ofTemplate_literal_append hne hfree hrest, List.mem_cons] at h
    obtain rfl | h := h
    · exact hne
    · exact ih h

/-- A placeholder that starts a template is the first segment. -/
theorem exists_ofTemplate_eq_placeholder {body : Text} (h : at? body = some p) :
    ∃ segments, ofTemplate body = placeholder p :: segments := by
  obtain ⟨_, rest, rfl⟩ := Placeholder.at?_eq_some h
  exact ⟨ofTemplate rest, ofTemplate_token_append h⟩

/-- Where no placeholder starts a template, literal text does. -/
theorem exists_ofTemplate_eq_literal {c : Char} {rest : Text} (h : at? (c :: rest) = none) :
    ∃ more segments, ofTemplate (c :: rest) = literal (c :: more) :: segments := by
  obtain ⟨t, behind, hbody, hfree, hbehind⟩ := exists_tokenFree (c :: rest)
  cases t with
  | nil =>
    rw [List.nil_append] at hbody
    subst hbody
    simp [h] at hbehind
  | cons d t =>
    obtain ⟨rfl, rfl⟩ := List.cons.inj hbody
    exact ⟨t, ofTemplate behind, ofTemplate_literal_append (List.cons_ne_nil c t) hfree hbehind⟩

end Template.Segment

end ScenarioLint
