import ScenarioLint.Proofs.Gherkin.Rejection

/-!
Errors say what is wrong, and where.

A reader that is done has been through whole lines, and a reader that stops has found a fault in
front of one.  Both are handed on from reader to reader, so the error of a file names a line of it
and says what is wrong there.  A reader that is repeated takes a line each time, so no file is read
without end.
-/

namespace ScenarioLint.Gherkin

namespace Place

variable {p q r : Place}

/-- The place behind some of the lines that follow. -/
def behind (p : Place) (k : Nat) : Place :=
  ⟨p.line + k, p.rest.drop k⟩

/-- Only whole lines stand between two places. -/
def Upto (p q : Place) : Prop :=
  ∃ k ≤ p.rest.length, q = p.behind k

theorem Upto.refl (p : Place) : p.Upto p :=
  ⟨0, Nat.zero_le _, rfl⟩

theorem Upto.trans (h : p.Upto q) (hmore : q.Upto r) : p.Upto r := by
  obtain ⟨k, hk, rfl⟩ := h
  obtain ⟨l, hl, rfl⟩ := hmore
  refine ⟨k + l, ?_, ?_⟩
  · simp only [behind, List.length_drop] at hl
    omega
  · simp only [behind, List.drop_drop, Nat.add_assoc]

theorem upto_of_append {lines : List Line} (hrest : p.rest = lines ++ q.rest)
    (hline : q.line = p.line + lines.length) : p.Upto q := by
  refine ⟨lines.length, by simp [hrest], ?_⟩
  rw [behind, hrest, List.drop_left, ← hline]

theorem Spans.upto {tokens : List Token} (h : p.Spans tokens q) : p.Upto q :=
  upto_of_append h.1 (by rw [h.2, List.length_map])

theorem upto_skipIgnorable (p : Place) : p.Upto p.skipIgnorable := by
  obtain ⟨skipped, hrest, _, hline⟩ := p.reaches_skipIgnorable
  exact upto_of_append hrest hline

/-- What is wrong at a place where the reading stops, and the message that says so. -/
inductive Fault (p : Place) : (message : Text) → Prop
  /-- The line stands behind all that belongs to the feature. -/
  | unexpected {t : Text} (hline : p.rest.head? = some (some t)) :
      Fault p ("unexpected line '".toList ++ (t.trim ++ ['\'']))
  /-- The first line that counts starts no feature. -/
  | noFeature {t : Text} (hline : p.rest.head? = some (some t)) :
      Fault p ("expected 'Feature:' header, found '".toList ++ (t.trim ++ ['\'']))
  /-- No row stands where a table of examples has to start. -/
  | noTable (hrow : p.take Line.row? = .pass) :
      Fault p "expected a table under 'Examples:'".toList
  /-- No line closes the docstring that is opened. -/
  | unterminated {o : Line.Opening} {next : Place} (hopening : p.take Line.opening? = .done o next)
      (hclosing : ∀ line ∈ next.rest, ∃ t, line = some t ∧ t.trim ≠ o.mark) :
      Fault p ("unterminated docstring (no closing ".toList ++ o.mark ++ [')'])
  /-- No bar stands behind the last cell. -/
  | unclosed {text : Text} {next : Place} (hrow : p.take Line.row? = .done text next)
      (hbar : text.trimEnd.getLast? ≠ some '|') : Fault p "table row must end with '|'".toList
  /-- The row is not as wide as the first one of its table. -/
  | uneven {width : Nat} {row : Row} {next : Place} (hrow : p.row = .done row next)
      (hwidth : row.cells.length ≠ width) :
      Fault p ("inconsistent cell count: expected ".toList ++ Text.ofNat width ++
        ", found ".toList ++ Text.ofNat row.cells.length)

/-- The starts of the messages that say what is wrong. -/
private def starts : List Text :=
  ["unexpected line '", "expected 'Feature:' header", "expected a table under 'Examples:'",
    "unterminated docstring", "table row must end with '|'", "inconsistent cell count"].map
      String.toList

private theorem Fault.exists_start {message : Text} (h : p.Fault message) :
    ∃ start ∈ starts, start <+: message := by
  cases h with
  | @unexpected t _ =>
    exact ⟨"unexpected line '".toList, by decide, t.trim ++ ['\''], rfl⟩
  | @noFeature t _ =>
    exact ⟨"expected 'Feature:' header".toList, by decide,
      ", found '".toList ++ (t.trim ++ ['\'']), by simp⟩
  | noTable _ => exact ⟨_, by decide, List.prefix_refl _⟩
  | @unterminated o _ _ _ =>
    exact ⟨"unterminated docstring".toList, by decide,
      " (no closing ".toList ++ (o.mark ++ [')']), by simp⟩
  | unclosed _ _ => exact ⟨_, by decide, List.prefix_refl _⟩
  | @uneven width row _ _ _ =>
    exact ⟨"inconsistent cell count".toList, by decide, ": expected ".toList ++ (Text.ofNat width ++
      (", found ".toList ++ Text.ofNat row.cells.length)), by simp⟩

/-- Messages that only tell that a line is no concern of a reader, or that nobody knows what is
    wrong. -/
def withheld : List Text :=
  ["malformed line", "unexpected end of input", "expected Feature:", "expected Background:",
    "expected Scenario Outline: or Scenario: or Example:", "expected Examples:",
    "expected description text", "expected a step"].map String.toList

theorem Fault.not_mem_withheld {message : Text} (h : p.Fault message) : message ∉ withheld := by
  obtain ⟨start, hstart, hprefix⟩ := h.exists_start
  have hother : ∀ start ∈ starts, ∀ other ∈ withheld, ¬ start <+: other := by decide
  exact fun hmem => hother start hstart message hmem hprefix

end Place

namespace Reply

variable {α β : Type} {r : Reply α} {p q : Place}

/-- Whole lines have been read, or a fault has been found behind whole lines. -/
def Regular (p : Place) : Reply α → Prop
  | done _ q => p.Upto q
  | pass => True
  | stop e => ∃ q, p.Upto q ∧ e.line = q.line ∧ q.Fault e.message

theorem Regular.upto {a : α} (h : r.Regular p) (hr : r = .done a q) : p.Upto q := by
  subst hr
  exact h

theorem Regular.trans (hpq : p.Upto q) (h : r.Regular q) : r.Regular p := by
  cases r with
  | done a next => exact hpq.trans h
  | pass => trivial
  | stop e =>
    obtain ⟨faulty, hat, hfault⟩ := h
    exact ⟨faulty, hpq.trans hat, hfault⟩

theorem Regular.bind {f : α → Place → Reply β} (h : r.Regular p)
    (hf : ∀ a q, r = .done a q → (f a q).Regular q) : (r.bind f).Regular p := by
  cases r with
  | done a q => exact (hf a q rfl).trans h
  | pass => trivial
  | stop e => exact h

theorem Regular.map {f : α → β} (h : r.Regular p) : (r.map f).Regular p :=
  h.bind fun _ q _ => .refl q

theorem Regular.orElse {other : Reply α} (h : r.Regular p) (hother : r = .pass → other.Regular p) :
    (r.orElse other).Regular p := by
  cases r with
  | done a q => exact h
  | pass => exact hother rfl
  | stop e => exact h

theorem Regular.optional (h : r.Regular p) : (r.optional p).Regular p := by
  cases r with
  | done a q => exact h
  | pass => exact .refl p
  | stop e => exact h

end Reply

namespace Place

variable {p q : Place}

section Regular

variable {α : Type} {read : Place → Reply α}

theorem regular_take (test : Line → Option α) : (p.take test).Regular p := by
  cases htake : p.take test with
  | done a q =>
    obtain ⟨line, rest, hrest, _, rfl⟩ := take_eq_done_iff.mp htake
    exact ⟨1, by simp [hrest], by rw [behind, hrest]; rfl⟩
  | pass => trivial
  | stop e => exact absurd htake take_ne_stop

theorem regular_behindIgnorable (h : ∀ p, (read p).Regular p) :
    (p.behindIgnorable read).Regular p :=
  (h p.skipIgnorable).trans p.upto_skipIgnorable

theorem regular_many (h : ∀ p, (read p).Regular p) : (p.many read).Regular p := by
  refine many_induction (P := fun p reply => reply.Regular p) ?_ ?_ ?_ p
  · exact fun p _ => .refl p
  · intro p e hread
    have hstop := h p
    rwa [hread] at hstop
  · intro p a q hread ih
    have hpq := (h p).upto hread
    split
    · rename_i hlt
      exact ((ih hlt).trans hpq).map
    · trivial

/-- The body of a docstring is not read to its end only if there is none. -/
theorem docstringBody_stop {start n : Nat} {o : Line.Opening} {lines : List Line} {e : ParseError}
    (h : docstringBody start o n lines = .stop e) :
    e = ⟨start, "unterminated docstring (no closing ".toList ++ o.mark ++ [')']⟩ ∧
      ∀ line ∈ lines, ∃ t, line = some t ∧ t.trim ≠ o.mark := by
  induction lines generalizing n with
  | nil =>
    cases h
    exact ⟨rfl, by simp⟩
  | cons line rest ih =>
    cases line with
    | none => cases h
    | some t =>
      rw [docstringBody] at h
      split at h
      · cases h
      · rename_i hopen
        cases hmore : docstringBody start o (n + 1) rest with
        | stop other =>
          rw [hmore] at h
          cases h
          obtain ⟨he, hrest⟩ := ih hmore
          exact ⟨he, List.forall_mem_cons.mpr ⟨⟨t, rfl, hopen⟩, hrest⟩⟩
        | done body q =>
          rw [hmore] at h
          cases h
        | pass =>
          rw [hmore] at h
          cases h

theorem regular_docstring : p.docstring.Regular p := by
  cases hdocstring : p.docstring with
  | done d q =>
    obtain ⟨tokens, hspans, _⟩ := docstring_eq_done_iff.mp hdocstring
    exact hspans.upto
  | pass => trivial
  | stop e =>
    rw [docstring] at hdocstring
    cases hopening : p.take Line.opening? with
    | stop other => exact absurd hopening take_ne_stop
    | pass =>
      rw [hopening] at hdocstring
      cases hdocstring
    | done o next =>
      rw [hopening] at hdocstring
      dsimp only [Reply.bind] at hdocstring
      cases hbody : docstringBody p.line o next.line next.rest with
      | stop other =>
        rw [hbody] at hdocstring
        cases hdocstring
        obtain ⟨rfl, hclosing⟩ := docstringBody_stop hbody
        exact ⟨p, .refl p, rfl, .unterminated hopening hclosing⟩
      | done body q =>
        rw [hbody] at hdocstring
        cases hdocstring
      | pass =>
        rw [hbody] at hdocstring
        cases hdocstring

theorem regular_row : p.row.Regular p := by
  cases htake : p.take Line.row? with
  | stop e => exact absurd htake take_ne_stop
  | pass =>
    rw [row, htake]
    trivial
  | done text next =>
    have hnext := (regular_take Line.row?).upto htake
    rw [row, htake]
    dsimp only [Reply.bind]
    split
    · exact hnext
    · rename_i hbar
      exact ⟨p, .refl p, rfl, .unclosed htake hbar⟩

theorem regular_rowOfWidth (width : Nat) : (p.rowOfWidth width).Regular p := by
  cases hrow : p.row with
  | stop e =>
    have hregular := regular_row (p := p)
    rw [hrow] at hregular
    rw [rowOfWidth, hrow]
    exact hregular
  | pass =>
    rw [rowOfWidth, hrow]
    trivial
  | done row next =>
    have hnext := regular_row.upto hrow
    rw [rowOfWidth, hrow]
    dsimp only [Reply.bind]
    split
    · exact hnext
    · rename_i hwidth
      exact ⟨p, .refl p, rfl, .uneven hrow hwidth⟩

theorem regular_table : p.table.Regular p :=
  regular_row.bind fun _ _ _ => (regular_many fun _ => regular_rowOfWidth _).map

theorem regular_argument : p.argument.Regular p :=
  regular_docstring.map.orElse fun _ => regular_table.map

theorem regular_step : p.step.Regular p :=
  (regular_take _).bind fun _ _ _ => (regular_behindIgnorable fun _ => regular_argument).optional.map

theorem regular_steps : p.steps.Regular p :=
  regular_many fun _ => regular_behindIgnorable fun _ => regular_step

theorem regular_tagLine : p.tagLine.Regular p :=
  (regular_take _).bind fun _ q _ => q.upto_skipIgnorable

theorem regular_tags : p.tags.Regular p :=
  Reply.Regular.map (r := p.many tagLine) (regular_many fun _ => regular_tagLine)

theorem regular_description : p.description.Regular p := by
  rw [description_eq]
  exact (regular_many fun _ => regular_take _).map

theorem regular_examples : p.examples.Regular p := by
  refine regular_tags.bind fun _ _ _ => (regular_take _).bind fun _ _ _ =>
    regular_description.bind fun _ next _ => (regular_table.orElse fun htable => ?_).map
  exact ⟨next, .refl next, rfl, .noTable (table_eq_pass_iff.mp htable)⟩

theorem regular_scenario : p.scenario.Regular p :=
  regular_tags.bind fun _ _ _ => (regular_take _).bind fun _ _ _ =>
    regular_description.bind fun _ _ _ => regular_steps.bind fun _ _ _ =>
      (regular_many fun _ => regular_behindIgnorable fun _ => regular_examples).map

theorem regular_background : p.background.Regular p :=
  (regular_take _).bind fun _ _ _ => regular_description.bind fun _ _ _ => regular_steps.map

theorem regular_feature : p.feature.Regular p :=
  regular_tags.bind fun _ _ _ => (regular_take _).bind fun _ _ _ =>
    regular_description.bind fun _ _ _ =>
      (regular_behindIgnorable fun _ => regular_background).optional.bind fun _ _ _ =>
        (regular_many fun _ => regular_behindIgnorable fun _ => regular_scenario).map

end Regular

/-- The error of a document is about a fault that is found in it, if it is not about a line that cannot
    be read. -/
theorem malformed_or_fault_of_error {e : ParseError} (h : p.document = .error e) :
    (none ∈ p.rest ∧ e.message = "malformed line".toList) ∨
      ∃ q, p.Upto q ∧ e.line = q.line ∧ q.Fault e.message := by
  have hfeature : ((p.behindIgnorable feature).optional p.skipIgnorable).Regular p :=
    regular_feature.optional.trans p.upto_skipIgnorable
  obtain hstop | ⟨found, q, line, rest, hread, hrest, rfl⟩ := document_eq_error_iff.mp h
  · rw [hstop] at hfeature
    exact .inr hfeature
  · rw [hread] at hfeature
    have hupto : p.Upto q.skipIgnorable := Upto.trans hfeature q.upto_skipIgnorable
    have hhead : q.skipIgnorable.rest.head? = some line := by rw [hrest]; rfl
    cases line with
    | none =>
      obtain ⟨k, _, hq⟩ := hupto
      refine .inl ⟨List.mem_of_mem_drop (i := k) ?_, rfl⟩
      rw [← show q.skipIgnorable.rest = p.rest.drop k from congrArg Place.rest hq, hrest]
      exact List.mem_cons_self
    | some t =>
      refine .inr ⟨q.skipIgnorable, hupto, rfl, ?_⟩
      cases found with
      | none => exact .noFeature hhead
      | some f => exact .unexpected hhead

/-- Where every line can be read, the error of a document is about a fault that is found in it. -/
theorem exists_fault_of_error {e : ParseError} (hlines : none ∉ p.rest)
    (h : p.document = .error e) : ∃ q, p.Upto q ∧ e.line = q.line ∧ q.Fault e.message :=
  (malformed_or_fault_of_error h).resolve_left fun hmalformed => hlines hmalformed.1

/-- Whenever a reader is done, it has read whole lines, at least one of them, so it can be repeated
    until it passes or stops. -/
def Progresses {α : Type} (read : Place → Reply α) : Prop :=
  (∀ (p : Place) (a : α) (q : Place), read p = .done a q →
    ∃ k, 0 < k ∧ k ≤ p.rest.length ∧ q = p.behind k) ∧
    ∀ p : Place, p.many read ≠ .pass

theorem progresses_of_regular {α : Type} {read : Place → Reply α}
    (hregular : ∀ p, (read p).Regular p)
    (hlt : ∀ {p a q}, read p = .done a q → q.rest.length < p.rest.length) : Progresses read := by
  refine ⟨fun p a q hread => ?_, fun p => many_ne_pass hlt⟩
  obtain ⟨k, hk, rfl⟩ := (hregular p).upto hread
  refine ⟨k, Nat.pos_of_ne_zero ?_, hk, rfl⟩
  rintro rfl
  exact Nat.lt_irrefl _ (hlt hread)

theorem progresses_take {α : Type} (test : Line → Option α) :
    Progresses fun p => p.take test :=
  progresses_of_regular (fun _ => regular_take test) length_lt_of_take

theorem progresses_tagLine : Progresses tagLine := by
  refine progresses_of_regular (fun _ => regular_tagLine) fun {p words q} h => ?_
  obtain ⟨tags, next, htake, hdone⟩ := Reply.bind_eq_done_iff.mp h
  cases hdone
  exact Nat.lt_of_le_of_lt next.reaches_skipIgnorable.length_le (length_lt_of_take htake)

/-- One line that does not count. -/
def ignorable (p : Place) : Reply Unit :=
  p.take fun line => if line.isIgnorable then some () else none

/-- To skip lines that do not count is to read one of them again and again. -/
theorem exists_many_ignorable (p : Place) :
    ∃ units, p.many ignorable = .done units p.skipIgnorable := by
  obtain ⟨n, rest⟩ := p
  induction rest generalizing n with
  | nil => exact ⟨[], many_of_pass rfl⟩
  | cons line rest ih =>
    by_cases hline : Line.isIgnorable line = true
    · obtain ⟨units, hmany⟩ := ih (n + 1)
      refine ⟨() :: units, ?_⟩
      have hread : ignorable ⟨n, line :: rest⟩ = .done () ⟨n + 1, rest⟩ := by
        simp [ignorable, take, hline, next]
      rw [many_of_done hread (Nat.lt_succ_self _), hmany, skipIgnorable, skipIgnorable, skipWhile,
        if_pos hline]
      rfl
    · refine ⟨[], ?_⟩
      have hread : ignorable ⟨n, line :: rest⟩ = .pass := by
        rw [ignorable, take_eq_pass_iff]
        intro other hother
        rw [← Option.some.inj hother, if_neg hline]
      rw [many_of_pass hread, skipIgnorable, skipWhile, if_neg hline]

end Place

theorem Line.exists_piece_of_mem_all {text : Text} {line : Line} (h : line ∈ Line.all text) :
    ∃ piece ∈ text.pieces '\n', Line.ofRaw piece = line := by
  rw [Line.all, List.mem_map] at h
  obtain ⟨piece, hmem, hraw⟩ := h
  refine ⟨piece, ?_, hraw⟩
  split at hmem
  · exact List.dropLast_subset _ hmem
  · exact hmem

/-- A text in which a line feed follows each carriage return has no line that cannot be read. -/
theorem none_not_mem_all {text : Text}
    (h : ∀ i : Nat, text[i]? = some '\r' → text[i + 1]? = some '\n') : none ∉ Line.all text := by
  intro hnone
  obtain ⟨piece, hpiece, hraw⟩ := Line.exists_piece_of_mem_all hnone
  have hreturn : '\r' ∈ piece.dropReturn := by
    by_contra hreturn
    rw [Line.ofRaw_eq_some_iff.mpr ⟨rfl, hreturn⟩] at hraw
    cases hraw
  -- a return that is kept is not the last character of its line
  obtain ⟨front, c, back, rfl⟩ : ∃ front c back, piece = front ++ '\r' :: c :: back := by
    obtain ⟨front, back, hsplit⟩ := List.append_of_mem hreturn
    rw [Text.dropReturn] at hsplit
    split at hsplit
    · rename_i hlast
      have hconcat := List.dropLast_append_getLast? '\r' hlast
      rw [hsplit, List.append_assoc, List.cons_append] at hconcat
      cases back with
      | nil => exact ⟨front, '\r', [], hconcat.symm⟩
      | cons c back => exact ⟨front, c, back ++ ['\r'], hconcat.symm⟩
    · rename_i hlast
      cases back with
      | nil => exact absurd (by rw [hsplit, List.getLast?_concat]) hlast
      | cons c back => exact ⟨front, c, back, hsplit⟩
  obtain ⟨pre, post, htext, _⟩ := Text.exists_of_mem_pieces hpiece
  have hindex : text = (pre ++ front) ++ '\r' :: c :: (back ++ post) := by simp [htext]
  have hnext := h (pre ++ front).length (by rw [hindex]; simp)
  have hc : text[(pre ++ front).length + 1]? = some c := by
    rw [hindex, List.getElem?_append_right (Nat.le_add_right _ 1), Nat.add_sub_cancel_left]
    rfl
  obtain rfl : c = '\n' := Option.some.inj (hc.symm.trans hnext)
  exact Text.not_mem_of_mem_pieces hpiece (by simp)

/-- If a line feed follows each carriage return, an error names a line of the file, or the one behind
    its last line, and says what is wrong there.  Whatever is repeated takes a whole line each time,
    so reading it again and again comes to an end. -/
theorem explained_of_error {text : Text}
    (h : ∀ i : Nat, text[i]? = some '\r' → text[i + 1]? = some '\n') :
    (∀ e, parse text = .error e → 1 ≤ e.line ∧ e.line ≤ (Line.all text).length + 1 ∧
      (Place.mk e.line ((Line.all text).drop (e.line - 1))).Fault e.message ∧
      e.message ∉ Place.withheld) ∧
    (∀ p : Place, (∃ units, p.many Place.ignorable = .done units p.skipIgnorable) ∧
      p.tags = (p.many Place.tagLine).map List.flatten ∧
      p.description = (p.many fun p => p.take descriptionLine?).map List.flatten) ∧
    Place.Progresses Place.ignorable ∧ Place.Progresses Place.tagLine ∧
    Place.Progresses (fun p => p.take descriptionLine?) ∧
    (∀ width, Place.Progresses (Place.rowOfWidth width)) ∧
    Place.Progresses (Place.behindIgnorable Place.step) ∧
    Place.Progresses (Place.behindIgnorable Place.examples) ∧
    Place.Progresses (Place.behindIgnorable Place.scenario) := by
  refine ⟨fun e herror => ?_, fun p => ⟨p.exists_many_ignorable, rfl, description_eq p⟩,
    Place.progresses_take _, Place.progresses_tagLine, Place.progresses_take _, fun width => ?_,
    ?_, ?_, ?_⟩
  · obtain ⟨q, ⟨k, hk, rfl⟩, hline, hfault⟩ :=
      Place.exists_fault_of_error (none_not_mem_all h) herror
    rw [Place.behind] at hline hfault
    dsimp only at hline hfault hk
    rw [Nat.add_comm] at hline hfault
    rw [hline, Nat.add_sub_cancel]
    exact ⟨Nat.le_add_left 1 k, Nat.succ_le_succ hk, hfault, hfault.not_mem_withheld⟩
  · exact Place.progresses_of_regular (fun _ => Place.regular_rowOfWidth width)
      (Place.exact_rowOfWidth width).length_lt
  · exact Place.progresses_of_regular (fun _ => Place.regular_behindIgnorable fun _ =>
      Place.regular_step) Place.exact_step_behindFillers.length_lt
  · exact Place.progresses_of_regular (fun _ => Place.regular_behindIgnorable fun _ =>
      Place.regular_examples) Place.exact_examples_behindFillers.length_lt
  · exact Place.progresses_of_regular (fun _ => Place.regular_behindIgnorable fun _ =>
      Place.regular_scenario) Place.exact_scenario_behindFillers.length_lt

/-- A file that starts with a row. -/
theorem explained_of_error_row :
    let text : Text := "\r\n| x\r\n".toList
    let e : ParseError := ⟨2, "expected 'Feature:' header, found '| x'".toList⟩
    parse text = .error e ∧ 1 ≤ e.line ∧ e.line ≤ (Line.all text).length + 1 ∧
      (Place.mk e.line [some "| x".toList]).Fault e.message ∧ e.message ∉ Place.withheld := by
  intro text e
  have hreturn : ∀ i : Nat, text[i]? = some '\r' → text[i + 1]? = some '\n' := by
    intro i hi
    have hall : ∀ i < text.length, text[i]? = some '\r' → text[i + 1]? = some '\n' := by decide
    exact hall i (List.getElem?_eq_some_iff.mp hi).1 hi
  have hfeature : (Place.mk 2 [some "| x".toList]).feature = .pass := by
    have htags : (Place.mk 2 [some "| x".toList]).tags = .done [] ⟨2, [some "| x".toList]⟩ := by
      rw [Place.tags, Place.many_of_pass (by rfl)]
      rfl
    rw [Place.feature, htags]
    rfl
  have hparse : parse text = .error e := by
    have hskip : (Place.mk 1 (Line.all text)).skipIgnorable = ⟨2, [some "| x".toList]⟩ := by decide
    rw [parse, Place.document, hskip, hfeature]
    rfl
  exact ⟨hparse, (explained_of_error hreturn).1 e hparse⟩

end ScenarioLint.Gherkin
