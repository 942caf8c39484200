import ScenarioLint.Proofs.Gherkin.Accepted
import ScenarioLint.Proofs.Gherkin.ExactBlock

/-!
Files that are refused for a line that is not expected.

The readers have been through all that is in front of such a line, and none of them has a use for it.
Most lines are of use or not whatever follows them.  Only what starts with a tag or with the mark of
a docstring depends on the lines behind it.
-/

namespace ScenarioLint.Gherkin

namespace Reply

variable {α β : Type} {P : ParseError → Prop} {r : Reply α}

/-- What is asked of every error that a reading stops with. -/
def Stops (P : ParseError → Prop) (r : Reply α) : Prop :=
  ∀ e, r = .stop e → P e

theorem Stops.bind {f : α → Place → Reply β} (h : r.Stops P) (hf : ∀ a q, (f a q).Stops P) :
    (r.bind f).Stops P := by
  cases r with
  | done a q => exact hf a q
  | pass => exact fun e he => by cases he
  | stop e => exact fun other he => h other (by cases he; rfl)

theorem Stops.map {f : α → β} (h : r.Stops P) : (r.map f).Stops P :=
  Stops.bind h fun _ _ _ he => by cases he

theorem Stops.orElse {other : Reply α} (h : r.Stops P) (hother : other.Stops P) :
    (r.orElse other).Stops P := by
  cases r with
  | done a q => exact fun e he => by cases he
  | pass => exact hother
  | stop e => exact h

theorem Stops.optional {p : Place} (h : r.Stops P) : (r.optional p).Stops P := by
  cases r with
  | done a q => exact fun e he => by cases he
  | pass => exact fun e he => by cases he
  | stop e => exact fun other he => h other (by cases he; rfl)

theorem optional_ne_pass {p : Place} : r.optional p ≠ .pass := by
  cases r <;> simp [Reply.optional]

end Reply

/-- The start of the message about a line that is not expected. -/
def unexpectedStart : Text :=
  "unexpected line '".toList

/-- An error that is not about a line that is not expected. -/
def ParseError.IsOther (e : ParseError) : Prop :=
  ¬ unexpectedStart <+: e.message

namespace Place

variable {p q r : Place}

section Stops

variable {α : Type} {read : Place → Reply α} {P : ParseError → Prop}

theorem stops_take (test : Line → Option α) : (p.take test).Stops P :=
  fun _ he => absurd he take_ne_stop

theorem stops_many (h : ∀ p, (read p).Stops P) : (p.many read).Stops P := by
  refine many_induction (P := fun _ reply => reply.Stops P) ?_ ?_ ?_ p
  · exact fun _ _ _ he => by cases he
  · intro p e hread other he
    cases he
    exact h p e hread
  · intro p a q _ ih
    split
    · rename_i hlt
      exact (ih hlt).map
    · exact fun _ he => by cases he

/-- A message is not about a line that is not expected if it starts in another way. -/
theorem isOther_of_prefix {e : ParseError} (start : Text) (h : start <+: e.message)
    (hstart : ¬ unexpectedStart <+: start ∧ ¬ start <+: unexpectedStart) : e.IsOther := by
  intro hunexpected
  rcases List.prefix_or_prefix_of_prefix hunexpected h with hle | hle
  · exact hstart.1 hle
  · exact hstart.2 hle

theorem stops_docstringBody (start n : Nat) (o : Line.Opening) (lines : List Line) :
    (docstringBody start o n lines).Stops ParseError.IsOther := by
  induction lines generalizing n with
  | nil =>
    intro e he
    cases he
    refine isOther_of_prefix "unterminated".toList ?_ (by decide)
    exact ⟨" docstring (no closing ".toList ++ (o.mark ++ [')']), by simp⟩
  | cons line rest ih =>
    cases line with
    | none => exact fun _ he => by cases he
    | some t =>
      rw [docstringBody]
      split
      · exact fun _ he => by cases he
      · exact (ih (n + 1)).map

theorem stops_docstring : p.docstring.Stops ParseError.IsOther :=
  (stops_take _).bind fun _ _ => (stops_docstringBody _ _ _ _).map

theorem stops_row : p.row.Stops ParseError.IsOther := by
  refine (stops_take _).bind fun text next => ?_
  dsimp only
  split
  · exact fun _ he => by cases he
  · intro e he
    cases he
    exact isOther_of_prefix "table row must end with '|'".toList (List.prefix_refl _)
      (by decide)

theorem stops_rowOfWidth (width : Nat) : (p.rowOfWidth width).Stops ParseError.IsOther := by
  refine stops_row.bind fun row next => ?_
  split
  · exact fun _ he => by cases he
  · intro e he
    cases he
    refine isOther_of_prefix "inconsistent".toList ?_ (by decide)
    exact ⟨" cell count: expected ".toList ++ (Text.ofNat width ++ (", found ".toList ++
      Text.ofNat row.cells.length)), by simp⟩

theorem stops_table : p.table.Stops ParseError.IsOther :=
  stops_row.bind fun _ _ => (stops_many fun _ => stops_rowOfWidth _).map

theorem stops_step : p.step.Stops ParseError.IsOther :=
  (stops_take _).bind fun _ _ =>
    (Reply.Stops.optional (stops_docstring.map.orElse stops_table.map)).map

theorem stops_steps : p.steps.Stops ParseError.IsOther :=
  stops_many fun _ => stops_step

theorem stops_tags : p.tags.Stops P :=
  (stops_many fun _ => (stops_take _).bind fun _ _ _ he => by cases he).map

theorem stops_description : p.description.Stops P :=
  (stops_many fun _ => stops_take _).map

theorem stops_examples : p.examples.Stops ParseError.IsOther := by
  refine stops_tags.bind fun _ _ => (stops_take _).bind fun _ _ => stops_description.bind
    fun _ _ => (stops_table.orElse fun e he => ?_).map
  cases he
  exact isOther_of_prefix "expected a table under 'Examples:'".toList
    (List.prefix_refl _) (by decide)

theorem stops_scenario : p.scenario.Stops ParseError.IsOther :=
  stops_tags.bind fun _ _ => (stops_take _).bind fun _ _ => stops_description.bind fun _ _ =>
    stops_steps.bind fun _ _ => (stops_many fun _ => stops_examples).map

theorem stops_background : p.background.Stops ParseError.IsOther :=
  (stops_take _).bind fun _ _ => stops_description.bind fun _ _ => stops_steps.map

theorem stops_feature : p.feature.Stops ParseError.IsOther :=
  stops_tags.bind fun _ _ => (stops_take _).bind fun _ _ => stops_description.bind fun _ _ =>
    stops_background.optional.bind fun _ _ => (stops_many fun _ => stops_scenario).map

end Stops

/-- What a file is refused for when a line is left behind all that has been read. -/
def leftOver : Option Feature → Line → Text
  | _, none => "malformed line".toList
  | some _, some t => unexpectedStart ++ (t.trim ++ ['\''])
  | none, some t => "expected 'Feature:' header, found '".toList ++ (t.trim ++ ['\''])

/-- A file is refused because the reader of features stops, or because a line is left. -/
theorem document_eq_error_iff {e : ParseError} : p.document = .error e ↔
    (p.behindIgnorable feature).optional p.skipIgnorable = .stop e ∨
      ∃ found q line rest, (p.behindIgnorable feature).optional p.skipIgnorable = .done found q ∧
        q.skipIgnorable.rest = line :: rest ∧
        e = ⟨q.skipIgnorable.line, leftOver found line⟩ := by
  rw [document, behindIgnorable]
  cases hread : p.skipIgnorable.feature.optional p.skipIgnorable with
  | stop other => simp
  | pass => exact absurd hread Reply.optional_ne_pass
  | done found q =>
    dsimp only
    cases hrest : q.skipIgnorable.rest with
    | nil =>
      constructor
      · intro h
        cases h
      · rintro (hstop | ⟨_, _, _, _, hdone, hline, _⟩)
        · cases hstop
        · cases hdone
          rw [hrest] at hline
          cases hline
    | cons line rest =>
      constructor
      · intro h
        refine .inr ⟨found, q, line, rest, rfl, hrest, ?_⟩
        cases line <;> cases found <;> injection h with he <;> exact he.symm
      · rintro (hstop | ⟨_, _, _, _, hdone, hline, rfl⟩)
        · cases hstop
        · cases hdone
          rw [hrest] at hline
          cases hline
          cases line <;> cases found <;> rfl

/-- A file is refused for a line that is not expected if and only if a feature has been read in front
    of it. -/
theorem document_eq_unexpected_iff {e : ParseError} :
    (p.document = .error e ∧ unexpectedStart <+: e.message) ↔
      ∃ f q t rest, p.behindIgnorable feature = .done f q ∧
        q.skipIgnorable.rest = some t :: rest ∧
        e = ⟨q.skipIgnorable.line, unexpectedStart ++ (t.trim ++ ['\''])⟩ := by
  rw [document_eq_error_iff]
  constructor
  · rintro ⟨hstop | ⟨found, q, line, rest, hread, hrest, rfl⟩, hmessage⟩
    · exact absurd hmessage (stops_feature.optional e hstop)
    · cases line with
      | none =>
        have hother : ParseError.IsOther ⟨q.skipIgnorable.line, leftOver found none⟩ :=
          isOther_of_prefix "malformed line".toList (List.prefix_refl _) (by decide)
        exact absurd hmessage hother
      | some t =>
        rcases Reply.optional_eq_done_iff.mp hread with ⟨f, rfl, hfeature⟩ | ⟨rfl, _⟩
        · exact ⟨f, q, t, rest, hfeature, hrest, rfl⟩
        · have hother : ParseError.IsOther ⟨q.skipIgnorable.line, leftOver none (some t)⟩ :=
            isOther_of_prefix _ (List.prefix_append _ _) (by decide)
          exact absurd hmessage hother
  · rintro ⟨f, q, t, rest, hread, hrest, rfl⟩
    refine ⟨.inr ⟨some f, q, some t, rest, ?_, hrest, rfl⟩, List.prefix_append _ _⟩
    rw [hread]
    rfl

section Pass

variable {α : Type} {read : Place → Reply α}

/-- A reader that always reads something reads as often as it can. -/
theorem many_ne_pass (h : ∀ {p a q}, read p = .done a q → q.rest.length < p.rest.length) :
    p.many read ≠ .pass := by
  refine many_induction (P := fun _ reply => reply ≠ .pass) ?_ ?_ ?_ p
  · simp
  · simp
  · intro p a q hread ih
    rw [if_pos (h hread), ne_eq, Reply.map_eq_pass_iff]
    exact ih (h hread)

theorem length_lt_of_take {test : Line → Option α} {a : α} (h : p.take test = .done a q) :
    q.rest.length < p.rest.length := by
  obtain ⟨line, rest, hrest, _, rfl⟩ := take_eq_done_iff.mp h
  rw [hrest]
  exact Nat.lt_succ_self _

theorem description_ne_pass : p.description ≠ .pass := by
  rw [description_eq, ne_eq, Reply.map_eq_pass_iff]
  exact many_ne_pass length_lt_of_take

theorem steps_ne_pass : p.steps ≠ .pass :=
  many_ne_pass exact_step_behindFillers.length_lt

theorem row_eq_pass_iff : p.row = .pass ↔ p.take Line.row? = .pass := by
  rw [row, Reply.bind_eq_pass_iff]
  refine ⟨fun h => h.resolve_right ?_, .inl⟩
  rintro ⟨text, next, _, hpass⟩
  dsimp only at hpass
  split at hpass <;> cases hpass

theorem table_eq_pass_iff : p.table = .pass ↔ p.take Line.row? = .pass := by
  rw [table, Reply.bind_eq_pass_iff, ← row_eq_pass_iff]
  refine ⟨fun h => h.resolve_right ?_, .inl⟩
  rintro ⟨first, next, _, hpass⟩
  rw [Reply.map_eq_pass_iff] at hpass
  exact many_ne_pass (exact_rowOfWidth _).length_lt hpass

theorem argument_eq_pass_iff (h : p.take Line.opening? = .pass) :
    p.argument = .pass ↔ p.take Line.row? = .pass := by
  rw [argument, docstring, h, ← table_eq_pass_iff, Reply.orElse_eq_pass_iff, Reply.map_eq_pass_iff,
    Reply.map_eq_pass_iff]
  exact ⟨And.right, fun hpass => ⟨rfl, hpass⟩⟩

theorem step_eq_pass_iff : p.step = .pass ↔ p.take Line.step? = .pass := by
  rw [step, Reply.bind_eq_pass_iff]
  refine ⟨fun h => h.resolve_right ?_, .inl⟩
  rintro ⟨⟨word, text⟩, next, _, hpass⟩
  exact Reply.optional_ne_pass (Reply.map_eq_pass_iff.mp hpass)

theorem background_eq_pass_iff :
    p.background = .pass ↔ p.header [((), "Background".toList)] = .pass := by
  rw [background, Reply.bind_eq_pass_iff]
  refine ⟨fun h => h.resolve_right ?_, .inl⟩
  rintro ⟨⟨_, name⟩, next, _, hpass⟩
  rcases Reply.bind_eq_pass_iff.mp hpass with hpass | ⟨_, _, _, hpass⟩
  · exact description_ne_pass hpass
  · exact steps_ne_pass (Reply.map_eq_pass_iff.mp hpass)

/-- Without tags, what may have some is read from its header on. -/
theorem tagged_eq_pass_iff {β : Type} {keywords : List (α × Text)}
    {f : List Text → Place → α × Text → Place → Reply β} (hcounts : p.Counts)
    (htags : p.take Line.tags? = .pass)
    (hf : ∀ tags atHeader found next, f tags atHeader found next ≠ .pass) :
    (p.tags.bind fun tags atHeader => (atHeader.header keywords).bind fun found next =>
      f tags atHeader found next) = .pass ↔ p.header keywords = .pass := by
  rw [tags_of_spans .nil (.refl p) hcounts htags]
  dsimp only [Reply.bind]
  cases p.header keywords with
  | done found next => simpa using hf [] p found next
  | pass => simp
  | stop e => simp

theorem examples_eq_pass_iff (hcounts : p.Counts) (htags : p.take Line.tags? = .pass) :
    p.examples = .pass ↔ p.header [((), "Examples".toList)] = .pass := by
  refine tagged_eq_pass_iff hcounts htags ?_
  rintro tags atHeader ⟨_, name⟩ next hpass
  rcases Reply.bind_eq_pass_iff.mp hpass with hpass | ⟨_, _, _, hpass⟩
  · exact description_ne_pass hpass
  · cases (Reply.orElse_eq_pass_iff.mp (Reply.map_eq_pass_iff.mp hpass)).2

theorem scenario_eq_pass_iff (hcounts : p.Counts) (htags : p.take Line.tags? = .pass) :
    p.scenario = .pass ↔
      p.header (ScenarioWord.all.map fun word => (word, word.word)) = .pass := by
  refine tagged_eq_pass_iff hcounts htags ?_
  rintro tags atHeader ⟨word, name⟩ next hpass
  rcases Reply.bind_eq_pass_iff.mp hpass with hpass | ⟨_, _, _, hpass⟩
  · exact description_ne_pass hpass
  · rcases Reply.bind_eq_pass_iff.mp hpass with hpass | ⟨_, _, _, hpass⟩
    · exact steps_ne_pass hpass
    · exact many_ne_pass exact_examples_behindFillers.length_lt (Reply.map_eq_pass_iff.mp hpass)

end Pass

section Same

variable {s u : Place} {fillers : List Token} {ask : Ask}

theorem take_pass_congr {α : Type} {test : Line → Option α} (h : p.rest.head? = q.rest.head?) :
    p.take test = .pass ↔ q.take test = .pass := by
  rw [take_eq_pass_iff, take_eq_pass_iff, h]

theorem head?_congr (hq : q.Spans fillers s) (hr : r.Spans fillers u)
    (h : s.rest.head? = u.rest.head?) : q.rest.head? = r.rest.head? := by
  rw [hq.1, hr.1]
  cases fillers with
  | nil => exact h
  | cons filler fillers => rfl

/-- Whether a line is of use does not depend on what follows it, unless it starts with a tag or with
    the mark of a docstring. -/
theorem without_congr (hfillers : Fillers fillers) (hq : q.Spans fillers s)
    (hr : r.Spans fillers u) (hsame : s.rest.head? = u.rest.head?) (hcounts : s.Counts)
    (htags : s.take Line.tags? = .pass) (hopening : s.take Line.opening? = .pass) :
    q.Without ask ↔ r.Without ask := by
  have hucounts : u.Counts := by
    rw [Counts, ← hsame]
    exact hcounts
  have hutags := (take_pass_congr hsame).mp htags
  have hfirst := head?_congr hq hr hsame
  have hskip : q.skipIgnorable = s := hq.skipIgnorable_eq hfillers hcounts
  have huskip : r.skipIgnorable = u := hr.skipIgnorable_eq hfillers hucounts
  cases ask with
  | description => rw [Without, Without, CountsPlainly, CountsPlainly, hfirst]
  | argument =>
    rw [Without, Without, behindIgnorable, behindIgnorable, hskip, huskip,
      argument_eq_pass_iff hopening, argument_eq_pass_iff ((take_pass_congr hsame).mp hopening)]
    exact take_pass_congr hsame
  | row =>
    rw [Without, Without, row_eq_pass_iff, row_eq_pass_iff]
    exact take_pass_congr hfirst
  | step =>
    rw [Without, Without, behindIgnorable, behindIgnorable, hskip, huskip, step_eq_pass_iff,
      step_eq_pass_iff]
    exact take_pass_congr hsame
  | examples =>
    rw [Without, Without, behindIgnorable, behindIgnorable, hskip, huskip,
      examples_eq_pass_iff hcounts htags, examples_eq_pass_iff hucounts hutags]
    exact take_pass_congr hsame
  | background =>
    rw [Without, Without, behindIgnorable, behindIgnorable, hskip, huskip, background_eq_pass_iff,
      background_eq_pass_iff]
    exact take_pass_congr hsame
  | scenario =>
    rw [Without, Without, behindIgnorable, behindIgnorable, hskip, huskip,
      scenario_eq_pass_iff hcounts htags, scenario_eq_pass_iff hucounts hutags]
    exact take_pass_congr hsame

/-- What is not to be found in front of a line is not to be found where the file ends there. -/
theorem without_of_cut (hfillers : Fillers fillers) (hq : q.Spans fillers s) (hr : r.Spans fillers u)
    (hend : u.rest = []) (h : q.Without ask) : r.Without ask := by
  by_cases hask : ask = .description
  · subst hask
    cases fillers with
    | nil =>
      rw [spans_nil_iff.mp hr, Without, CountsPlainly, hend]
      simp
    | cons filler fillers =>
      have hfirst := (h _ hq.head?).1
      rw [isFiller_iff.mp (hfillers filler List.mem_cons_self).2] at hfirst
      cases hfirst
  · refine without_of_end ?_ hask
    rw [hr.skipIgnorable_eq hfillers (by rw [Counts, hend]; simp), hend]

end Same

end Place

/-- The first lines of a text alone. -/
def firstLines (n : Nat) (text : Text) : Text :=
  Text.unlines ((text.pieces '\n').take n)

theorem all_firstLines {n : Nat} {text : Text} (h : n < (Line.all text).length) :
    Line.all (firstLines n text) = (Line.all text).take n := by
  have hfeed : ∀ line ∈ (text.pieces '\n').take n, '\n' ∉ line := fun line hline =>
    Text.not_mem_of_mem_pieces (List.mem_of_mem_take hline)
  rw [firstLines, Line.all_unlines_eq hfeed, Line.all, List.map_take]
  split
  · rename_i hlast
    rw [Line.all] at h
    simp only [hlast, if_true, List.length_map, List.length_dropLast] at h
    rw [List.map_dropLast, List.dropLast_eq_take, List.take_take, List.length_map,
      Nat.min_eq_left (Nat.le_of_lt h)]
  · rfl

/-- A line that starts with no tag is none of tags. -/
theorem take_tags?_eq_pass {p : Place} {t : Text} {rest : List Line} (hrest : p.rest = some t :: rest)
    (htag : (Line.body t).head? ≠ some '@') : p.take Line.tags? = .pass := by
  rw [Place.take_eq_pass_iff, hrest]
  rintro line hline
  rw [← Option.some.inj hline, Line.tags?, if_neg htag]

/-- A line that starts with no mark of a docstring opens none. -/
theorem take_opening?_eq_pass {p : Place} {t : Text} {rest : List Line}
    (hrest : p.rest = some t :: rest)
    (hmark : ∀ mark ∈ Line.docstringMarks, ¬ mark <+: Line.body t) :
    p.take Line.opening? = .pass := by
  rw [Place.take_eq_pass_iff, hrest]
  intro line hline
  rw [← Option.some.inj hline, Line.opening?, List.findSome?_eq_none_iff]
  intro mark hmem
  rw [Option.map_eq_none_iff, Option.eq_none_iff_forall_not_mem]
  intro more hmore
  exact hmark mark hmem ⟨more, (Text.after?_eq_some_iff.mp hmore).symm⟩

/-- Lines that start like other lines go on with what is behind their common start. -/
theorem exists_append_of_take_eq {lines other front rest : List Line} {line : Line}
    (hlines : lines = front ++ line :: rest)
    (h : other.take (front.length + 1) = lines.take (front.length + 1)) :
    ∃ more, other = front ++ line :: more := by
  have htake : other.take (front.length + 1) = front ++ [line] := by
    rw [h, hlines, List.take_append, List.take_of_length_le (Nat.le_succ _),
      Nat.add_sub_cancel_left, List.take_succ_cons, List.take_zero]
  refine ⟨other.drop (front.length + 1), ?_⟩
  rw [List.append_cons, ← htake, List.take_append_drop]

/-- A file that is refused for a line that is not expected is in order up to that line.  If the line
    starts neither with a tag nor with the mark of a docstring, nothing that follows it makes a
    difference. -/
theorem culprit_of_unexpected {text : Text} {e : ParseError} (h : parse text = .error e)
    (hmessage : unexpectedStart <+: e.message) :
    ∃ t, 1 ≤ e.line ∧ (Line.all text)[e.line - 1]? = some (some t) ∧
      e.message = unexpectedStart ++ (t.trim ++ ['\'']) ∧
      (∃ doc, parse (firstLines (e.line - 1) text) = .ok doc ∧ doc.feature.isSome = true) ∧
      ((Line.body t).head? ≠ some '@' → (∀ mark ∈ Line.docstringMarks, ¬ mark <+: Line.body t) →
        ∀ other, (Line.all other).take e.line = (Line.all text).take e.line →
          parse other = .error e) := by
  obtain ⟨f, q, t, rest, hread, hrest, rfl⟩ :=
    Place.document_eq_unexpected_iff.mp ⟨h, hmessage⟩
  obtain ⟨tokens, hspans, hderived, hasks⟩ := Place.exact_feature_behindFillers.done_iff.mp hread
  obtain ⟨fillers, hfillers, hfront, hcounts⟩ :=
    Place.skipIgnorable_eq_iff.mp (rfl : q.skipIgnorable = _)
  obtain ⟨front, hused⟩ : ∃ front, front = (tokens ++ fillers).map fun token => some token.2 :=
    ⟨_, rfl⟩
  have hline : q.skipIgnorable.line = front.length + 1 := by
    rw [(hspans.trans hfront).line_eq, hused, List.length_map, Nat.add_comm]
  have hall : Line.all text = front ++ some t :: rest := by
    rw [hused, ← hrest]
    exact (hspans.trans hfront).1
  -- the feature is read off the same lines whatever replaces the rest of the file
  have hagain : ∀ tail : List Line,
      (∀ ask ∈ f.asks, (Place.mk q.line (fillers.map (some ·.2) ++ tail)).Without ask) →
      (Place.mk 1 (front ++ tail)).behindIgnorable Place.feature =
        .done f ⟨q.line, fillers.map (some ·.2) ++ tail⟩ := by
    intro tail hwithout
    refine Place.exact_feature_behindFillers.done_iff.mpr ⟨tokens, ⟨?_, hspans.line_eq⟩, hderived,
      hwithout⟩
    rw [hused, List.map_append, List.append_assoc]
  have hbehind : ∀ tail : List Line, (Place.mk q.line (fillers.map (some ·.2) ++ tail)).Spans fillers
      ⟨q.skipIgnorable.line, tail⟩ := fun tail => ⟨rfl, hfront.line_eq⟩
  dsimp only
  rw [hline, Nat.add_sub_cancel]
  refine ⟨t, Nat.le_add_left 1 _, by rw [hall]; simp, rfl, ⟨⟨some f⟩, ?_, rfl⟩, ?_⟩
  · have hprefix : Line.all (firstLines front.length text) = front ++ [] := by
      rw [all_firstLines (by rw [hall]; simp), hall, List.take_left, List.append_nil]
    rw [parse, hprefix]
    refine Place.document_eq_ok_iff.mpr ⟨⟨q.line, fillers.map (some ·.2) ++ []⟩, ?_, ?_⟩
    · rw [hagain [] fun ask hask =>
        Place.without_of_cut hfillers hfront (hbehind []) rfl (hasks ask hask)]
      rfl
    · rw [(hbehind []).skipIgnorable_eq hfillers (by simp [Place.Counts])]
  · intro htag hmark other hother
    obtain ⟨more, hmore⟩ := exists_append_of_take_eq hall hother
    have hsame : q.skipIgnorable.rest.head? =
        (Place.mk q.skipIgnorable.line (some t :: more)).rest.head? := by
      rw [hrest]
      rfl
    have hskip := (hbehind (some t :: more)).skipIgnorable_eq hfillers
      (by rw [Place.Counts, ← hsame]; exact hcounts)
    rw [parse, hmore]
    refine (Place.document_eq_unexpected_iff.mpr
      ⟨f, _, t, more, hagain (some t :: more) ?_, by rw [hskip], by rw [hskip, hline]⟩).1
    intro ask hask
    exact (Place.without_congr hfillers hfront (hbehind _) hsame hcounts
      (take_tags?_eq_pass hrest htag) (take_opening?_eq_pass hrest hmark)).mp (hasks ask hask)

/-- A row in a place where no table may stand. -/
theorem culprit_of_unexpected_row :
    let text : Text := "Feature: F\n| x".toList
    let e : ParseError := ⟨2, "unexpected line '| x'".toList⟩
    parse text = .error e ∧
      (∃ doc, parse (firstLines 1 text) = .ok doc ∧ doc.feature.isSome = true) ∧
      parse "Feature: F\n| x\nScenario: s\n".toList = .error e := by
  intro text e
  have hfeature : Feature.Derived 1 [(.lead .feature, "Feature: F".toList)]
      ⟨[], "F".toList, [], 1, none, []⟩ :=
    ⟨[], _, [], [], [], .nil, ⟨[], " F".toList, _, ⟨by decide, rfl⟩, by decide, rfl⟩, rfl, .nil,
      by simp [StartsPlainly], .nil, .nil, rfl⟩
  have hspans : (Place.mk 2 [some "| x".toList]).Spans [(.lead .bar, "| x".toList)] ⟨3, []⟩ :=
    ⟨rfl, rfl⟩
  have hfronted : Place.Fronted .bar [(.lead .bar, "| x".toList)] :=
    ⟨[], [], _, [], " x".toList, .nil, by simp, by decide, rfl⟩
  have hparse : parse text = .error e := by
    refine (Place.document_eq_unexpected_iff.mpr ⟨_, ⟨2, [some "| x".toList]⟩, "| x".toList, [],
      Place.exact_feature_behindFillers.done_iff.mpr ⟨_, ⟨rfl, rfl⟩,
        ⟨[], _, fillers_nil, hfeature, rfl⟩, ?_⟩, by decide, by decide⟩).1
    intro ask hask
    by_cases hdescription : ask = .description
    · subst hdescription
      exact Place.without_description_of_fronted hfronted (by simp) hspans
    · refine Place.without_of_fronted fillers_nil hfronted hspans ?_
      simp only [Feature.asks, List.getLast?_nil, Option.elim_none, List.mem_cons, List.not_mem_nil,
        or_false] at hask
      rcases hask with rfl | rfl | rfl
      · rfl
      · exact absurd rfl hdescription
      · rfl
  obtain ⟨t, _, ht, _, hfirst, hlast⟩ :=
    culprit_of_unexpected hparse (List.isPrefixOf_iff_prefix.mp (by decide))
  obtain rfl : "| x".toList = t := Option.some.inj (Option.some.inj ht)
  exact ⟨hparse, hfirst, hlast (by decide) (by decide) _ (by decide)⟩

end ScenarioLint.Gherkin
