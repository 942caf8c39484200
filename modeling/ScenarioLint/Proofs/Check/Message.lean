import ScenarioLint.Check.Checklist
import ScenarioLint.Check.Grammar
import ScenarioLint.Check.Status
import ScenarioLint.Proofs.Check.Vocabulary
import ScenarioLint.Proofs.Gherkin.Explained

/-!
What the messages of the checks quote.  A message is made of fixed words, numbers, names, a line or a
part of one, and the method and the path of an endpoint.  Nothing but the endpoint can bring a line
feed into it, and none ends in a carriage return.
-/

namespace ScenarioLint

namespace Gherkin

/-- The characters that end lines. -/
def breaks : List Char :=
  ['\n', '\r']

theorem isDigit_of_mem_breaks : ∀ c ∈ breaks, c.isDigit = false := by
  decide

/-- The line endings are no part of the lines. -/
theorem Line.not_mem_of_mem_all {c : Char} (hc : c ∈ breaks) {text t : Text}
    (h : some t ∈ Line.all text) : c ∉ t := by
  obtain ⟨piece, hpiece, hraw⟩ := Line.exists_piece_of_mem_all h
  obtain ⟨rfl, hreturn⟩ := Line.ofRaw_eq_some_iff.mp hraw
  rw [breaks, List.mem_pair] at hc
  rcases hc with rfl | rfl
  · exact fun hfeed => Text.not_mem_of_mem_pieces hpiece (Text.mem_of_mem_dropReturn hfeed)
  · exact hreturn

theorem Line.mark_mem_of_opening? {line : Line} {o : Line.Opening} (h : line.opening? = some o) :
    o.mark ∈ Line.docstringMarks := by
  cases line with
  | none => cases h
  | some t =>
    obtain ⟨mark, hmark, hafter⟩ := List.exists_of_findSome?_eq_some h
    obtain ⟨rest, _, rfl⟩ := Option.map_eq_some_iff.mp hafter
    exact hmark

/-- What is said about a fault quotes one line at most. -/
theorem Place.Fault.not_mem {p : Place} {message : Text} (h : p.Fault message) {c : Char}
    (hc : c ∈ breaks) (hlines : ∀ t, some t ∈ p.rest → c ∉ t) : c ∉ message := by
  have hline : ∀ {t : Text}, p.rest.head? = some (some t) → c ∉ t.trim := fun hhead hmem =>
    hlines _ (List.mem_of_head? hhead) (Text.mem_of_mem_trim hmem)
  have hdigit : ∀ n, c ∉ Text.ofNat n := Text.not_mem_ofNat (isDigit_of_mem_breaks c hc)
  have hfixed : ∀ {words : Text}, (∀ c ∈ breaks, c ∉ words) → c ∉ words := fun hwords =>
    hwords c hc
  cases h with
  | unexpected hhead =>
    simp only [List.mem_append, not_or]
    exact ⟨hfixed (by decide), hline hhead, hfixed (by decide)⟩
  | noFeature hhead =>
    simp only [List.mem_append, not_or]
    exact ⟨hfixed (by decide), hline hhead, hfixed (by decide)⟩
  | noTable hrow => exact hfixed (by decide)
  | @unterminated o next hopening hclosing =>
    obtain ⟨line, _, _, hopens, _⟩ := take_eq_done_iff.mp hopening
    have hmark : ∀ mark ∈ Line.docstringMarks, ∀ c ∈ breaks,
        c ∉ "unterminated docstring (no closing ".toList ++ mark ++ [')'] := by decide
    exact hfixed (hmark o.mark (Line.mark_mem_of_opening? hopens))
  | unclosed hrow hbar => exact hfixed (by decide)
  | uneven hrow hwidth =>
    simp only [List.mem_append, not_or]
    exact ⟨⟨⟨hfixed (by decide), hdigit _⟩, hfixed (by decide)⟩, hdigit _⟩

/-- The message of an error has one line. -/
theorem not_mem_message_of_error {text : Text} {e : ParseError} (h : parse text = .error e)
    {c : Char} (hc : c ∈ breaks) : c ∉ e.message := by
  rcases Place.malformed_or_fault_of_error h with ⟨_, hmessage⟩ | ⟨q, ⟨k, _, rfl⟩, _, hfault⟩
  · have hwords : ∀ c ∈ breaks, c ∉ "malformed line".toList := by decide
    rw [hmessage]
    exact hwords c hc
  · exact hfault.not_mem hc fun t ht => Line.not_mem_of_mem_all hc (List.mem_of_mem_drop ht)

end Gherkin

/-- An issue of the given category about the scenario of a context.  Its message has the line feeds of
    the endpoint and no others. -/
structure Issue.Concerns (issue : Issue) (category : Category) (about : Context) : Prop where
  category : issue.category = category
  context : issue.context = some about
  feeds : issue.message.count '\n' = about.endpointText.count '\n'
  ends : issue.message.getLast? ≠ some '\r'

namespace Check

variable {policy : Policy} {text : Text} {context : Context} {issue : Issue}

/-- What stands in front of an endpoint in a message and behind it brings in no line feed. -/
private theorem concerns_of_message {category : Category} {line : Option Nat}
    {message : Text} (front back : Text)
    (hmessage : message = front ++ (context.endpointText ++ back))
    (hfront : '\n' ∉ front) (hback : '\n' ∉ back) (hne : back ≠ [])
    (hends : back.getLast? ≠ some '\r') :
    (Issue.mk category (some context) line message).Concerns category context := by
  subst hmessage
  refine ⟨rfl, rfl, ?_, ?_⟩
  · dsimp only
    rw [List.count_append, List.count_append, List.count_eq_zero.mpr hfront,
      List.count_eq_zero.mpr hback, Nat.zero_add, Nat.add_zero]
  · dsimp only
    rwa [← List.append_assoc, List.getLast?_append_of_ne_nil _ hne]

private theorem feed_not_mem_ofNat (n : Nat) : '\n' ∉ Text.ofNat n :=
  Text.not_mem_ofNat rfl n

private theorem feed_not_mem_kind (kind : ScenarioKind) : '\n' ∉ kind.name := by
  cases kind <;> decide

theorem feed_not_mem_problem (problem : Problem) : '\n' ∉ problem.message := by
  cases problem with
  | disallowed keyword => cases keyword <;> decide
  | unknownContinuation block => cases block <;> decide
  | noKeyword | unknownStep | unknownAssertion => decide

theorem feed_not_mem_excerpt {line : Text} (h : '\n' ∉ line) : '\n' ∉ excerpt line := by
  rw [excerpt]
  split
  · simp only [List.mem_append, not_or]
    exact ⟨fun hmem => h (List.mem_of_mem_take hmem), by decide⟩
  · exact h

theorem concerns_vocabularyIssue (context : Context) (number : Nat) {line : Text}
    (hline : '\n' ∉ line) (problem : Problem) :
    (vocabularyIssue context number line problem).Concerns .vocabulary context := by
  refine concerns_of_message (problem.message ++ " in scenario (".toList)
    (", ".toList ++ context.kind.name ++ ") at L".toList ++ Text.ofNat number ++ ": '".toList ++
      excerpt line ++ ['\'']) ?_ ?_ ?_ (by simp) ?_
  · simp only [Context.text, List.append_assoc]
  · simp [feed_not_mem_problem]
  · simp [feed_not_mem_kind, feed_not_mem_ofNat, feed_not_mem_excerpt hline]
  · rw [List.getLast?_concat]
    decide

theorem concerns_of_mem_vocabulary (h : issue ∈ vocabulary policy text context) :
    issue.Concerns .vocabulary context := by
  rw [vocabulary, vocabularyFrom_eq_filterMap] at h
  obtain ⟨i, _, hi⟩ := List.mem_filterMap.mp h
  obtain ⟨role, line, problem, hmarked, rfl⟩ := exists_of_issueAt? hi
  obtain ⟨_, hline⟩ := List.getElem?_zip_eq_some.mp hmarked
  have hfeed : '\n' ∉ line.trim := fun hmem =>
    Text.feed_not_mem_of_mem_lines (List.mem_of_getElem? hline) (Text.mem_of_mem_trim hmem)
  exact concerns_vocabularyIssue context _ hfeed problem

theorem concerns_noStatusIssue (context : Context) :
    (noStatusIssue context).Concerns .status context := by
  refine concerns_of_message "No explicit status assertion found (".toList
    (", ".toList ++ context.kind.name ++ ").".toList) ?_ (by decide) ?_ (by simp) ?_
  · simp only [Context.text, List.append_assoc]
  · simp [feed_not_mem_kind]
  · rw [List.getLast?_append_of_ne_nil _ (by decide)]
    decide

theorem concerns_unexpectedStatusIssue (context : Context) (found : StatusAssertion)
    (allowed : List StatusCode) :
    (unexpectedStatusIssue context found allowed).Concerns .status context := by
  have hcodes : '\n' ∉ Text.join ", ".toList (allowed.map fun code => Text.ofNat code.toNat) := by
    intro hmem
    rcases Text.mem_join hmem with hmark | ⟨code, hcode, hmem⟩
    · exact absurd hmark (by decide)
    · obtain ⟨_, _, rfl⟩ := List.mem_map.mp hcode
      exact feed_not_mem_ofNat _ hmem
  refine concerns_of_message ("Unexpected status ".toList ++ Text.ofNat found.code ++
    " for ".toList ++ context.kind.name ++ " scenario (".toList) ("); allowed=[".toList ++
      Text.join ", ".toList (allowed.map fun code => Text.ofNat code.toNat) ++ "].".toList)
    ?_ ?_ ?_ (by simp) ?_
  · simp only [List.append_assoc]
  · simp [feed_not_mem_kind, feed_not_mem_ofNat]
  · simp only [List.mem_append, not_or]
    exact ⟨⟨by decide, hcodes⟩, by decide⟩
  · rw [List.getLast?_append_of_ne_nil _ (by decide)]
    decide

theorem concerns_of_mem_status (h : issue ∈ status policy text context) :
    issue.Concerns .status context := by
  rw [status] at h
  split at h
  · obtain rfl := List.mem_singleton.mp h
    exact concerns_noStatusIssue context
  · dsimp only at h
    split at h
    · cases h
    · obtain rfl := List.mem_singleton.mp h
      exact concerns_unexpectedStatusIssue context _ _

theorem concerns_of_mem_grammar (h : issue ∈ grammar text context) :
    issue.Concerns .grammar context := by
  rw [grammar] at h
  cases hparse : Gherkin.parse text with
  | ok d =>
    rw [hparse] at h
    cases h
  | error e =>
    rw [hparse] at h
    obtain rfl := List.mem_singleton.mp h
    have hfeed : '\n' ∉ e.message := Gherkin.not_mem_message_of_error hparse (by decide)
    have hreturn : '\r' ∉ e.message := Gherkin.not_mem_message_of_error hparse (by decide)
    refine concerns_of_message "Gherkin parse error for ".toList (" at L".toList ++
      Text.ofNat e.line ++ ": ".toList ++ e.message) ?_ (by decide) ?_ (by simp) fun hlast => ?_
    · simp only [List.append_assoc]
    · simp [feed_not_mem_ofNat, hfeed]
    · have hmem := List.mem_of_getLast? hlast
      simp [Text.not_mem_ofNat, hreturn] at hmem

/-- The issues of a batch say what they have to say on one line. -/
theorem feed_not_mem_of_mem_checklist {kinds : List ScenarioKind}
    (h : issue ∈ checklist policy kinds) :
    issue.category = .checklist ∧ '\n' ∉ issue.message ∧ issue.message.getLast? ≠ some '\r' := by
  obtain ⟨⟨kind, minimum⟩, _, hissue⟩ := List.mem_filterMap.mp h
  dsimp only at hissue
  split at hissue
  · cases hissue
    refine ⟨rfl, ?_, ?_⟩
    · simp [checklistIssue, feed_not_mem_kind, feed_not_mem_ofNat]
    · rw [checklistIssue, List.getLast?_append_of_ne_nil _ (by decide)]
      decide
  · cases hissue

end Check

end ScenarioLint
