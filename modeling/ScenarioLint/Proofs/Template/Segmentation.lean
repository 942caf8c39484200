import ScenarioLint.Proofs.Template.Segment

/-!
The cutting of a template as a segmentation.  What makes it the leftmost one is said of the positions
of the template alone: no token starts inside literal text, and no token that starts where a
placeholder does is longer than its own.  No other segmentation is leftmost.
-/

namespace ScenarioLint.Template.Segment

open Placeholder (at? table)

/-- The segments make up a text, and they cut it at every token from left to right. -/
structure IsLeftmost (body : Text) (segments : List Segment) : Prop where
  flatMap_text : segments.flatMap text = body
  literal_ne_nil : ∀ t, literal t ∈ segments → t ≠ []
  not_adjacent : ∀ front s t back, segments ≠ front ++ literal s :: literal t :: back
  /-- No token of the table starts at a position inside literal text, wherever it ends. -/
  tokenFree : ∀ front s t back, segments = front ++ literal (s ++ t) :: back → t ≠ [] →
    ∀ p ∈ table, ¬ p.token <+: t ++ back.flatMap text
  longest : ∀ front p back, segments = front ++ placeholder p :: back →
    p ∈ table ∧ ∀ q ∈ table, q.token <+: p.token ++ back.flatMap text →
      q.token.length ≤ p.token.length

variable {body t rest : Text} {segment : Segment} {segments : List Segment} {p : Placeholder}

namespace IsLeftmost

theorem nil : IsLeftmost [] [] where
  flatMap_text := rfl
  literal_ne_nil := nofun
  not_adjacent := by simp
  tokenFree := by simp
  longest := by simp

/-- What follows a segment is cut the same way. -/
theorem tail (h : IsLeftmost body (segment :: segments)) :
    IsLeftmost (segments.flatMap text) segments where
  flatMap_text := rfl
  literal_ne_nil t ht := h.literal_ne_nil t (List.mem_cons_of_mem _ ht)
  not_adjacent front s t back heq :=
    h.not_adjacent (segment :: front) s t back (by rw [heq, List.cons_append])
  tokenFree front s t back heq :=
    h.tokenFree (segment :: front) s t back (by rw [heq, List.cons_append])
  longest front p back heq :=
    h.longest (segment :: front) p back (by rw [heq, List.cons_append])

theorem body_eq (h : IsLeftmost body (segment :: segments)) :
    body = segment.text ++ segments.flatMap text := by
  rw [← h.flatMap_text, List.flatMap_cons]

/-- A placeholder in front has the longest token that starts the text. -/
theorem at?_eq (h : IsLeftmost body (placeholder p :: segments)) : at? body = some p := by
  obtain ⟨hmem, hlongest⟩ := h.longest [] p segments rfl
  rw [Placeholder.at?_eq_some_iff, h.body_eq, text]
  exact ⟨hmem, List.prefix_append _ _, hlongest⟩

theorem tokenFree_head (h : IsLeftmost body (literal t :: segments)) :
    TokenFree t (segments.flatMap text) := fun front back heq =>
  h.tokenFree [] front back segments (by rw [heq, List.nil_append])

/-- Behind literal text the text ends, or a token starts. -/
theorem behind_literal (h : IsLeftmost body (literal t :: segments)) :
    segments.flatMap text = [] ∨ ∃ p, at? (segments.flatMap text) = some p := by
  cases segments with
  | nil => exact .inl rfl
  | cons next segments =>
    cases next with
    | literal s => exact absurd rfl (h.not_adjacent [] t s segments)
    | placeholder p => exact .inr ⟨p, h.tail.at?_eq⟩

theorem cons_placeholder (hp : at? (p.token ++ rest) = some p) (h : IsLeftmost rest segments) :
    IsLeftmost (p.token ++ rest) (placeholder p :: segments) where
  flatMap_text := by rw [List.flatMap_cons, h.flatMap_text, text]
  literal_ne_nil t ht := h.literal_ne_nil t (by simpa using ht)
  not_adjacent front s t back heq := by
    rcases List.cons_eq_append_iff.mp heq with ⟨_, heq⟩ | ⟨front, _, heq⟩
    · cases heq
    · exact h.not_adjacent front s t back heq
  tokenFree front s t back heq := by
    rcases List.cons_eq_append_iff.mp heq with ⟨_, heq⟩ | ⟨front, _, heq⟩
    · cases heq
    · exact h.tokenFree front s t back heq
  longest front q back heq := by
    rcases List.cons_eq_append_iff.mp heq with ⟨_, heq⟩ | ⟨front, _, heq⟩
    · cases heq
      obtain ⟨hmem, _, hlongest⟩ := Placeholder.at?_eq_some_iff.mp hp
      rw [h.flatMap_text]
      exact ⟨hmem, hlongest⟩
    · exact h.longest front q back heq

theorem cons_literal (hne : t ≠ []) (hfree : TokenFree t rest)
    (hrest : rest = [] ∨ ∃ p, at? rest = some p) (h : IsLeftmost rest segments) :
    IsLeftmost (t ++ rest) (literal t :: segments) where
  flatMap_text := by rw [List.flatMap_cons, h.flatMap_text, text]
  literal_ne_nil s hs := by
    rcases List.mem_cons.mp hs with heq | hs
    · cases heq
      exact hne
    · exact h.literal_ne_nil s hs
  not_adjacent front s u back heq := by
    rcases List.cons_eq_append_iff.mp heq with ⟨_, heq⟩ | ⟨front, _, heq⟩
    · cases heq
      have hu : u ≠ [] := h.literal_ne_nil u List.mem_cons_self
      rw [← h.flatMap_text, List.flatMap_cons, text] at hrest
      obtain hnil | ⟨p, hp⟩ := hrest
      · exact hu (List.append_eq_nil_iff.mp hnil).1
      · obtain ⟨hmem, hstarts, _⟩ := Placeholder.at?_eq_some_iff.mp hp
        exact h.tokenFree_head [] u rfl hu p hmem hstarts
    · exact h.not_adjacent front s u back heq
  tokenFree front s u back heq hu := by
    rcases List.cons_eq_append_iff.mp heq with ⟨_, heq⟩ | ⟨front, _, heq⟩
    · cases heq
      rw [h.flatMap_text]
      exact hfree s u rfl hu
    · exact h.tokenFree front s u back heq hu
  longest front q back heq := by
    rcases List.cons_eq_append_iff.mp heq with ⟨_, heq⟩ | ⟨front, _, heq⟩
    · cases heq
    · exact h.longest front q back heq

end IsLeftmost

theorem isLeftmost_ofTemplate (body : Text) : IsLeftmost body (ofTemplate body) := by
  induction body using cutting_induction with
  | nil => exact .nil
  | token p rest hp ih =>
    rw [ofTemplate_token_append hp]
    exact ih.cons_placeholder hp
  | literal t rest hne hfree hrest ih =>
    rw [ofTemplate_literal_append hne hfree hrest]
    exact ih.cons_literal hne hfree hrest

/-- A bracket in front of a token and a token that the table does not know are literal text. -/
example : IsLeftmost "a <<url>b <urls> ".toList
    [.literal "a <".toList, .placeholder ⟨"<url>".toList, "\\S+".toList⟩,
      .literal "b <urls> ".toList] :=
  have hcut : ofTemplate "a <<url>b <urls> ".toList = [.literal "a <".toList,
      .placeholder ⟨"<url>".toList, "\\S+".toList⟩, .literal "b <urls> ".toList] := by decide
  hcut ▸ isLeftmost_ofTemplate _

/-- A leftmost segmentation starts like the cutting, and goes on like it. -/
theorem IsLeftmost.eq_ofTemplate (h : IsLeftmost body segments) : segments = ofTemplate body := by
  induction segments generalizing body with
  | nil => rw [← h.flatMap_text, List.flatMap_nil, ofTemplate_nil]
  | cons segment segments ih =>
    have htail := ih h.tail
    cases segment with
    | literal t =>
      rw [h.body_eq, text, ofTemplate_literal_append
        (h.literal_ne_nil t List.mem_cons_self) h.tokenFree_head h.behind_literal, ← htail]
    | placeholder p =>
      have hp := h.at?_eq
      rw [h.body_eq, text] at hp ⊢
      rw [ofTemplate_token_append hp, ← htail]

/-- The segments of a template are its leftmost segmentation, and there is no other one. -/
theorem isLeftmost_iff_eq_ofTemplate (body : Text) (segments : List Segment) :
    IsLeftmost body segments ↔ segments = ofTemplate body :=
  ⟨IsLeftmost.eq_ofTemplate, fun h => h ▸ isLeftmost_ofTemplate body⟩

end ScenarioLint.Template.Segment
