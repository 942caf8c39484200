import ScenarioLint.Proofs.Gherkin.Relaid
import ScenarioLint.Proofs.Gherkin.Rendering

/-!
The layout of a feature file.  Blank lines and comments may be put between its lines, and its lines
may be indented at will, but for those of docstrings: the document that is read stays the same.
-/

namespace ScenarioLint.Gherkin

/-- A line starts behind the text. -/
def EndsLine (above : Text) : Prop :=
  above = [] ∨ above.getLast? = some '\n'

instance (above : Text) : Decidable (EndsLine above) :=
  inferInstanceAs (Decidable (_ ∨ _))

def IsLineEnding (ending : Text) : Prop :=
  ending = ['\n'] ∨ ending = ['\r', '\n']

instance (ending : Text) : Decidable (IsLineEnding ending) :=
  inferInstanceAs (Decidable (_ ∨ _))

namespace Line

variable {above ind line : Text}

theorem all_append (h : EndsLine above) (below : Text) :
    all (above ++ below) = all above ++ all below := by
  obtain rfl | hlast := h
  · rfl
  obtain ⟨front, rfl⟩ := List.getLast?_eq_some_iff.mp hlast
  have hsplit : front ++ ['\n'] ++ below = front ++ '\n' :: below := by simp
  have hbelow := Text.pieces_ne_nil '\n' below
  rw [hsplit, all, all, all, Text.pieces_append_cons, Text.pieces_append_cons, Text.pieces_nil]
  rw [List.getLast?_concat, if_pos rfl, List.dropLast_concat, List.getLast?_append_of_ne_nil _ hbelow,
    List.dropLast_append_of_ne_nil hbelow]
  split <;> rw [List.map_append]

/-- A whole line in front of a text. -/
theorem all_cons {ending : Text} (hfeed : '\n' ∉ line) (hreturn : '\r' ∉ line)
    (hending : IsLineEnding ending) (below : Text) :
    all (line ++ (ending ++ below)) = some line :: all below := by
  obtain ⟨raw, hraw, hplain, hline⟩ : ∃ raw, line ++ ending = raw ++ ['\n'] ∧ '\n' ∉ raw ∧
      ofRaw raw = some line := by
    rcases hending with rfl | rfl
    · exact ⟨line, rfl, hfeed, ofRaw_of_not_mem hreturn⟩
    · exact ⟨line ++ ['\r'], by simp, by simpa using hfeed,
        ofRaw_eq_some_iff.mpr ⟨(Text.dropReturn_concat line).symm, hreturn⟩⟩
  have hall : all (raw ++ ['\n']) = [some line] := by
    rw [all, Text.pieces_append_cons, Text.pieces_of_not_mem hplain, Text.pieces_nil]
    rw [List.getLast?_concat, if_pos rfl, List.dropLast_concat, List.map_singleton, hline]
  rw [← List.append_assoc, hraw, all_append (.inr List.getLast?_concat), hall]
  rfl

theorem not_mem_of_isIndentation {c : Char} (hind : IsIndentation ind) (hc : isIndent c = false) :
    c ∉ ind := by
  intro hmem
  rw [hind c hmem] at hc
  cases hc

theorem ofRaw_append (hind : IsIndentation ind) (raw : Text) :
    ofRaw (ind ++ raw) = (ofRaw raw).map (ind ++ ·) := by
  have hreturn := not_mem_of_isIndentation hind (c := '\r') rfl
  have hdrop : (ind ++ raw).dropReturn = ind ++ raw.dropReturn := by
    by_cases hraw : raw = []
    · rw [hraw, List.append_nil]
      exact (Text.dropReturn_of_not_mem hreturn).trans (List.append_nil ind).symm
    · rw [Text.dropReturn, Text.dropReturn, List.getLast?_append_of_ne_nil _ hraw]
      split
      · rw [List.dropLast_append_of_ne_nil hraw]
      · rfl
  rw [ofRaw, ofRaw, hdrop]
  by_cases hmem : '\r' ∈ raw.dropReturn
  · simp [hmem]
  · simp [hmem, hreturn]

/-- Only the first line changes when the indentation in front of a text does. -/
theorem exists_all_append {rest : Text} (hrest : rest ≠ []) :
    ∃ (line : Line) (tail : List Line), ∀ ind, IsIndentation ind →
      all (ind ++ rest) = line.map (ind ++ ·) :: tail := by
  obtain ⟨piece, more, hpieces⟩ := List.exists_cons_of_ne_nil (Text.pieces_ne_nil '\n' rest)
  refine ⟨ofRaw piece, (if more.getLast? = some [] then more.dropLast else more).map ofRaw,
    fun ind hind => ?_⟩
  obtain ⟨first, others, hsame, hall⟩ :=
    Text.exists_pieces_append (not_mem_of_isIndentation hind (c := '\n') rfl) rest
  rw [hpieces] at hsame
  obtain ⟨rfl, rfl⟩ := List.cons.inj hsame
  rw [all, hall]
  cases more with
  | nil =>
    have hline : piece ≠ [] := by
      rintro rfl
      have hjoin := Text.join_pieces '\n' rest
      rw [hpieces] at hjoin
      exact hrest hjoin.symm
    rw [if_neg (by simp [hline]), List.map_singleton, ofRaw_append hind]
    rfl
  | cons next more =>
    rw [List.getLast?_cons_cons, List.dropLast_cons_of_ne_nil (List.cons_ne_nil next more),
      ← ofRaw_append hind]
    split <;> rw [List.map_cons]

/-- A last line of spaces and tabs, if there is any, needs no line feed. -/
theorem all_of_isIndentation (hind : IsIndentation ind) :
    all ind = if ind = [] then [] else [some ind] := by
  have hfeed := not_mem_of_isIndentation hind (c := '\n') rfl
  have hreturn := not_mem_of_isIndentation hind (c := '\r') rfl
  rw [all, Text.pieces_of_not_mem hfeed]
  by_cases hnil : ind = []
  · simp [hnil]
  · simp [hnil, ofRaw_of_not_mem hreturn]

end Line

section Uses

variable {doc : Document} {d : Docstring} {tokens front back : List Token} {token : Token} {n k : Nat}

/-- A line inside a docstring stands under another line of it. -/
theorem Docstring.Takes.exists_pred (h : d.Takes n tokens k) (htoken : tokens[k]? = some token)
    (hinner : token.1.isInner = true) : ∃ j, k = j + 1 ∧ d.Takes n tokens j := by
  obtain ⟨front, own, back, rfl, hderived, hle, hlt⟩ := h
  have hfirst : k ≠ front.length := by
    rintro rfl
    obtain ⟨lead, _, _, opening, _, _, _, _, _, _, _, _, _, rfl⟩ := hderived
    rw [List.getElem?_append_right (Nat.le_refl _), Nat.sub_self] at htoken
    obtain rfl := Option.some.inj htoken
    cases hinner
  obtain ⟨j, rfl⟩ := Nat.exists_eq_add_of_lt (Nat.lt_of_le_of_ne hle (Ne.symm hfirst))
  exact ⟨front.length + j, rfl, front, own, back, rfl, hderived, Nat.le_add_right _ _, by omega⟩

/-- The line that opens a docstring has a line of the docstring under it. -/
theorem exists_inner_of_opening (h : doc.Derived (front ++ token :: back))
    (hopening : token.1 = .lead .quotes ∨ token.1 = .lead .backticks) :
    ∃ next rest, back = next :: rest ∧ next.1.isInner = true := by
  obtain ⟨m, hm, hpasses⟩ := h.clears
  obtain ⟨_, _, hback⟩ := Mode.passes_append_iff.mp hpasses
  obtain ⟨l, hnext, hmore⟩ := Mode.passes_cons_iff.mp hback
  obtain ⟨own, rfl⟩ : ∃ own, l = .inside own := by
    obtain ⟨kind, line⟩ := token
    rcases hopening with rfl | rfl <;> cases hnext <;> exact ⟨_, rfl⟩
  cases hmore with
  | nil => cases hm
  | cons hfirst _ =>
    refine ⟨_, _, rfl, ?_⟩
    cases hfirst with
    | content | closing => rfl
    | filler hout | lead hout => cases hout

theorem Kind.isDocstring_iff {kind : Kind} : kind.isDocstring = true ↔
    kind.isInner = true ∨ kind = .lead .quotes ∨ kind = .lead .backticks := by
  cases kind with
  | lead own => cases own <;> simp [isDocstring, isInner]
  | _ => simp [isDocstring, isInner]

/-- Every line that is used for a docstring belongs to one of the document. -/
theorem Document.Derived.exists_docstring (h : doc.Derived (front ++ token :: back))
    (hkind : token.1.isDocstring = true) :
    ∃ d ∈ doc.docstrings, d.Takes 1 (front ++ token :: back) front.length := by
  have htoken : (front ++ token :: back)[front.length]? = some token := by simp
  rcases Kind.isDocstring_iff.mp hkind with hinner | hopening
  · exact h.innerTaken _ _ htoken hinner
  · obtain ⟨next, rest, rfl, hinner⟩ := exists_inner_of_opening h hopening
    have hnext : (front ++ token :: next :: rest)[front.length + 1]? = some next := by simp
    obtain ⟨d, hd, htakes⟩ := h.innerTaken _ _ hnext hinner
    obtain ⟨j, hj, htakes⟩ := htakes.exists_pred hnext hinner
    obtain rfl := Nat.succ.inj hj
    exact ⟨d, hd, htakes⟩

/-- Outside docstrings, a blank line or a comment does not count. -/
theorem Document.Derived.eq_filler (h : doc.Derived (front ++ token :: back))
    (hline : IsFiller token.2) (hkind : token.1.isDocstring = false) : token.1 = .filler := by
  obtain ⟨_, _, hpasses⟩ := h.clears
  obtain ⟨m, _, hback⟩ := Mode.passes_append_iff.mp hpasses
  obtain ⟨_, hnext, _⟩ := Mode.passes_cons_iff.mp hback
  obtain ⟨kind, line⟩ := token
  by_cases hm : m.Outside
  · exact hnext.kind_eq (.filler hm hline)
  · cases hnext with
    | content | closing => cases hkind
    | filler hout | lead hout => exact absurd hout hm
    | description => exact absurd trivial hm

end Uses

section Laid

variable {f : Nat → Nat} {n m c : Nat} {tokens front back left right : List Token}

/-- Lines may stay as they are, all of them further down. -/
theorem Relaid.shifted (h : ∀ j, n ≤ j → j < n + tokens.length → f j = j + c) :
    Relaid f n tokens (n + c) tokens := by
  induction tokens generalizing n with
  | nil => exact .nil
  | cons token tokens ih =>
    refine .keep (h n (Nat.le_refl n) (by simp)) (.refl token) ?_
    rw [Nat.add_right_comm]
    refine ih fun j hle hlt => h j (Nat.le_of_succ_le hle) ?_
    rw [List.length_cons]
    omega

theorem Relaid.kept (tokens : List Token) (n : Nat) : Relaid id n tokens n tokens :=
  shifted (c := 0) fun _ _ _ => rfl

theorem Relaid.dropped (h : Fillers tokens) : Relaid f n tokens m [] := by
  induction tokens generalizing n with
  | nil => exact .nil
  | cons token tokens ih =>
    obtain ⟨⟨hkind, hline⟩, hrest⟩ := List.forall_mem_cons.mp h
    obtain ⟨kind, line⟩ := token
    obtain rfl : kind = .filler := hkind
    exact .drop hline (ih hrest)

theorem Relaid.append (hfront : Relaid f n front m left)
    (hback : Relaid f (n + front.length) back (m + left.length) right) :
    Relaid f n (front ++ back) m (left ++ right) := by
  induction hfront with
  | nil => exact hback
  | keep hm hnext _ ih =>
    refine .keep hm hnext (ih ?_)
    rwa [Nat.add_assoc, Nat.add_comm 1, Nat.add_assoc, Nat.add_comm 1]
  | put hline htoken _ ih =>
    refine .put hline htoken (ih ?_)
    rwa [Nat.add_assoc _ 1, Nat.add_comm 1]
  | drop hline _ ih =>
    refine .drop hline (ih ?_)
    rwa [Nat.add_assoc, Nat.add_comm 1]

end Laid

/-- The number of a line when another line comes to stand behind the first `k` ones. -/
def pushed (k n : Nat) : Nat :=
  if n ≤ k then n else n + 1

/-- Behind the first `k` lines neither a docstring nor a table goes on. -/
structure Document.HasGap (doc : Document) (lines : List Line) (k : Nat) : Prop where
  docstrings : ∀ d ∈ doc.docstrings, ¬ (d.Covers lines k ∧ d.Covers lines (k + 1))
  tables : ∀ rows ∈ doc.tables, ∀ row ∈ rows, ∀ other ∈ rows, ¬ (row.line ≤ k ∧ k < other.line)

section Tokens

variable {doc : Document} {front back fillers : List Token} {token : Token} {line : Text}

theorem Document.HasGap.tight {lines : List Line} {k : Nat} (h : doc.HasGap lines k) :
    ∀ rows ∈ doc.tables, Tight (pushed k) rows := by
  intro rows hrows row hrow other hother hline
  have hbetween := h.tables rows hrows row hrow other hother
  rw [pushed, pushed]
  split <;> split <;> omega

/-- The line behind a gap does not go on with a docstring. -/
theorem Document.HasGap.isInner_eq_false (h : doc.Derived (front ++ token :: back))
    (hgap : doc.HasGap ((front ++ token :: back).map (some ·.2)) front.length) :
    token.1.isInner = false := by
  rw [← Bool.not_eq_true]
  intro hinner
  have htoken : (front ++ token :: back)[front.length]? = some token := by simp
  obtain ⟨d, hd, htakes⟩ := h.innerTaken _ _ htoken hinner
  obtain ⟨j, hj, hpred⟩ := htakes.exists_pred htoken hinner
  have hcovers := hpred.covers
  rw [← hj] at hcovers
  exact hgap.docstrings d hd ⟨hcovers, htakes.covers⟩

theorem Document.Derived.put (h : doc.Derived (front ++ back)) (hline : IsFiller line)
    (hgap : doc.HasGap ((front ++ back).map (some ·.2)) front.length) :
    (doc.moved (pushed front.length)).Derived (front ++ (.filler, line) :: back) := by
  have hkept : Relaid (pushed front.length) 1 front 1 front :=
    Relaid.shifted (c := 0) fun j _ hlt => if_pos (by omega)
  cases back with
  | nil =>
    rw [List.append_nil] at h
    exact h.relaid hgap.tight hkept (List.forall_mem_singleton.mpr ⟨rfl, hline⟩)
  | cons token back =>
    have hinner := HasGap.isInner_eq_false h hgap
    have hmoved : Relaid (pushed front.length) (1 + front.length) (token :: back)
        (1 + front.length + 1) (token :: back) :=
      Relaid.shifted fun j hle _ => if_neg (by omega)
    have hresult := h.relaid hgap.tight (hkept.append (.put hline hinner hmoved)) fillers_nil
    rwa [List.append_nil] at hresult

/-- Lines that stay where they are. -/
theorem Document.Derived.relaid_id {tokens result : List Token} (h : doc.Derived tokens)
    (hrelaid : Relaid id 1 tokens 1 result) (hfillers : Fillers fillers) :
    doc.Derived (result ++ fillers) := by
  have hmoved := h.relaid (fun _ _ _ _ _ _ hline => hline) hrelaid hfillers
  rwa [moved_id] at hmoved

theorem Document.Derived.respaced (h : doc.Derived (front ++ token :: back))
    (hkind : token.1.isDocstring = false) (hbody : Line.body line = Line.body token.2) :
    doc.Derived (front ++ (token.1, line) :: back) := by
  have hnext : token.Respaced (token.1, line) :=
    ⟨rfl, hbody, fun hdocstring => absurd (hkind.symm.trans hdocstring) nofun⟩
  have hback := Relaid.keep rfl hnext (Relaid.kept back (1 + front.length + 1))
  have hresult := h.relaid_id ((Relaid.kept front 1).append hback) fillers_nil
  rwa [List.append_nil] at hresult

/-- What does not count at the end of the file may be anything else that does not count. -/
theorem Document.Derived.refilled (h : doc.Derived (front ++ back)) (hback : Fillers back)
    (hfillers : Fillers fillers) : doc.Derived (front ++ fillers) := by
  have hdropped := (Relaid.kept front 1).append (Relaid.dropped hback)
  rw [List.append_nil] at hdropped
  exact h.relaid_id hdropped hfillers

end Tokens

section Texts

variable {above below ind pad rest line ending : Text} {doc : Document}

/-- A line that does not count may be put in. -/
theorem parse_put (habove : EndsLine above) (hline : IsFiller line) (hfeed : '\n' ∉ line)
    (hreturn : '\r' ∉ line) (hending : IsLineEnding ending)
    (hparse : parse (above ++ below) = .ok doc)
    (hgap : doc.HasGap (Line.all (above ++ below)) (Line.all above).length) :
    parse (above ++ (line ++ (ending ++ below))) =
      .ok (doc.moved (pushed (Line.all above).length)) := by
  obtain ⟨tokens, hlines, hderived⟩ := parse_eq_ok_iff.mp hparse
  rw [hlines] at hgap
  rw [Line.all_append habove] at hlines
  obtain ⟨front, back, rfl, hfront, hback⟩ := List.map_eq_append_iff.mp hlines.symm
  have hlength : (Line.all above).length = front.length := by rw [← hfront, List.length_map]
  rw [hlength] at hgap ⊢
  refine parse_eq_ok_iff.mpr ⟨_, ?_, hderived.put hline hgap⟩
  rw [Line.all_append habove, Line.all_cons hfeed hreturn hending, ← hfront, ← hback,
    List.map_append, List.map_cons]

/-- The last line, if it is nothing but indentation. -/
def lastBlank (ind : Text) : List Token :=
  if ind = [] then [] else [(.filler, ind)]

theorem isFiller_of_isIndentation (hind : IsIndentation ind) : IsFiller ind :=
  ⟨ind, [], hind, (List.append_nil ind).symm, .inl rfl⟩

theorem fillers_lastBlank (hind : IsIndentation ind) : Fillers (lastBlank ind) := by
  rw [lastBlank]
  split
  · exact fillers_nil
  · exact List.forall_mem_singleton.mpr ⟨rfl, isFiller_of_isIndentation hind⟩

theorem all_lastBlank (hind : IsIndentation ind) :
    Line.all ind = (lastBlank ind).map (some ·.2) := by
  rw [Line.all_of_isIndentation hind, lastBlank]
  split <;> rfl

/-- The indentation of a line that is part of no docstring may be another one. -/
theorem parse_indent (habove : EndsLine above) (hind : IsIndentation ind) (hpad : IsIndentation pad)
    (hparse : parse (above ++ (ind ++ rest)) = .ok doc)
    (hdocstrings : ∀ d ∈ doc.docstrings,
      ¬ d.Covers (Line.all (above ++ (ind ++ rest))) ((Line.all above).length + 1)) :
    parse (above ++ (pad ++ rest)) = .ok doc := by
  obtain ⟨tokens, hlines, hderived⟩ := parse_eq_ok_iff.mp hparse
  rw [hlines] at hdocstrings
  rw [Line.all_append habove] at hlines
  obtain ⟨front, back, rfl, hfront, hback⟩ := List.map_eq_append_iff.mp hlines.symm
  have hlength : (Line.all above).length = front.length := by rw [← hfront, List.length_map]
  rw [hlength] at hdocstrings
  have hfree : ∀ token more, back = token :: more → token.1.isDocstring = false := by
    rintro token more rfl
    rw [← Bool.not_eq_true]
    intro hkind
    obtain ⟨d, hd, htakes⟩ := hderived.exists_docstring hkind
    exact hdocstrings d hd htakes.covers
  by_cases hrest : rest = []
  -- the last line, which has no line feed, comes or goes with its indentation
  · rw [hrest, List.append_nil] at hback ⊢
    rw [Line.all_of_isIndentation hind] at hback
    have hfillers : Fillers back := by
      split at hback
      · rw [List.map_eq_nil_iff.mp hback]
        exact fillers_nil
      · obtain ⟨⟨kind, line⟩, rfl, htoken⟩ := List.map_eq_singleton_iff.mp hback
        obtain rfl : line = ind := Option.some.inj htoken
        have hline := isFiller_of_isIndentation hind
        exact List.forall_mem_singleton.mpr ⟨hderived.eq_filler hline (hfree _ _ rfl), hline⟩
    refine parse_eq_ok_iff.mpr ⟨_, ?_, hderived.refilled hfillers (fillers_lastBlank hpad)⟩
    rw [Line.all_append habove, all_lastBlank hpad, ← hfront, List.map_append]
  · obtain ⟨line, tail, hall⟩ := Line.exists_all_append hrest
    rw [hall ind hind] at hback
    obtain ⟨token, more, rfl, htoken, hmore⟩ := List.map_eq_cons_iff.mp hback
    obtain ⟨own, rfl, hown⟩ := Option.map_eq_some_iff.mp htoken.symm
    have hbody : Line.body (pad ++ own) = Line.body token.2 := by
      rw [← hown, Line.body, Line.body, List.dropWhile_append_of_pos hpad,
        List.dropWhile_append_of_pos hind]
    refine parse_eq_ok_iff.mpr ⟨_, ?_, hderived.respaced (hfree token more rfl) hbody⟩
    rw [Line.all_append habove, hall pad hpad, ← hfront, List.map_append, List.map_cons, hmore]
    rfl

/-- Wherever the lines of a file leave a gap, a blank line or a comment may be put in, and every line
    that belongs to no docstring may be indented in another way.  The document is the same but for
    the numbers of the lines behind the one that was put in. -/
theorem parse_layout {text : Text} (hparse : parse text = .ok doc) :
    (∀ above below line ending, text = above ++ below → EndsLine above →
      IsFiller line → '\n' ∉ line → '\r' ∉ line → IsLineEnding ending →
      doc.HasGap (Line.all text) (Line.all above).length →
      parse (above ++ (line ++ (ending ++ below))) =
        .ok (doc.moved (pushed (Line.all above).length))) ∧
    ∀ above ind pad rest, text = above ++ (ind ++ rest) → EndsLine above →
      IsIndentation ind → IsIndentation pad →
      (∀ d ∈ doc.docstrings, ¬ d.Covers (Line.all text) ((Line.all above).length + 1)) →
      parse (above ++ (pad ++ rest)) = .ok doc := by
  constructor
  · rintro above below line ending rfl habove hline hfeed hreturn hending hgap
    exact parse_put habove hline hfeed hreturn hending hparse hgap
  · rintro above ind pad rest rfl habove hind hpad hdocstrings
    exact parse_indent habove hind hpad hparse hdocstrings

/-- A comment is put in behind a table, and the step under it, in front of a docstring, is indented
    with a tab. -/
theorem parse_layout_docstring :
    let above : Text := ("Feature: F\nScenario: s\nGiven x\n| a |\n| b |\n").toList
    let below : Text := ("Then y\n\"\"\"\nz\n\"\"\"\n").toList
    ∃ doc, parse (above ++ below) = .ok doc ∧
      doc.HasGap (Line.all (above ++ below)) (Line.all above).length ∧
      (∀ d ∈ doc.docstrings, ¬ d.Covers (Line.all (above ++ below)) ((Line.all above).length + 1)) ∧
      parse (above ++ ("  # note".toList ++ (['\r', '\n'] ++ below))) = .ok (doc.moved (pushed 5)) ∧
      (doc.moved (pushed 5)).steps.map Step.line = [3, 7] ∧
      parse (above ++ (['\t'] ++ below)) = .ok doc := by
  intro above below
  let d : Docstring := ⟨none, ['z'], 7⟩
  let steps : List Step := [⟨.given, ['x'], 3, some (.table [⟨[['a']], 4⟩, ⟨[['b']], 5⟩])⟩,
    ⟨.then, ['y'], 6, some (.docstring d)⟩]
  let doc : Document :=
    ⟨some ⟨[], ['F'], [], 1, none, [⟨[], .scenario, ['s'], 2, steps, []⟩]⟩⟩
  have hrender : parse (Text.unlines doc.render) = .ok doc.numbered :=
    parse_render (by decide +kernel) (by decide) (by decide)
  have htext : Text.unlines doc.render = above ++ below := by decide +kernel
  have hnumbered : doc.numbered = doc := by decide +kernel
  rw [htext, hnumbered] at hrender
  have hread : d.ReadsTo (Line.all (above ++ below)) ⟨10, []⟩ := rfl
  have hcovers : ∀ number, (∃ d ∈ doc.docstrings, d.Covers (Line.all (above ++ below)) number) →
      7 ≤ number := by
    rintro number ⟨other, hother, hnumber⟩
    obtain rfl : other = d := List.mem_singleton.mp hother
    exact ((Docstring.covers_iff hread number).mp hnumber).1
  have hdocstrings : ∀ d ∈ doc.docstrings, ¬ d.Covers (Line.all (above ++ below)) 6 :=
    fun d hd h => absurd (hcovers 6 ⟨d, hd, h⟩) (by decide)
  have hgap : doc.HasGap (Line.all (above ++ below)) 5 :=
    ⟨fun d hd h => hdocstrings d hd h.2, by decide⟩
  have hlayout := parse_layout hrender
  have hends : EndsLine above := by decide +kernel
  have hnote : IsFiller "  # note".toList := ⟨[' ', ' '], _, by decide, rfl, .inr rfl⟩
  refine ⟨doc, hrender, hgap, hdocstrings, ?_, by decide, ?_⟩
  · exact hlayout.1 above below _ _ rfl hends hnote (by decide) (by decide) (.inr rfl) hgap
  · exact hlayout.2 above [] ['\t'] below rfl hends nofun (by decide) hdocstrings

end Texts

end ScenarioLint.Gherkin
