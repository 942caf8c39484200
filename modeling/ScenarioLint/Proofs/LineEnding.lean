import ScenarioLint.Check.Grammar
import ScenarioLint.Check.Status
import ScenarioLint.Check.Vocabulary
import ScenarioLint.Proofs.Gherkin.Accepted
import ScenarioLint.Scenario.Repair

/-!
The ending of a line is no part of it.  A text with carriage returns in front of its line feeds has
the same lines as the text without them, for the reader of feature files as for everyone else, so
it is repaired, checked and read alike.
-/

namespace ScenarioLint

namespace Text

/-- Puts a carriage return in front of every line feed. -/
def crlf (t : Text) : Text :=
  t.flatMap fun c => if c = '\n' then ['\r', '\n'] else [c]

theorem crlf_append (t more : Text) : crlf (t ++ more) = crlf t ++ crlf more :=
  List.flatMap_append

theorem crlf_of_feed_not_mem {t : Text} (h : '\n' ∉ t) : crlf t = t := by
  induction t with
  | nil => rfl
  | cons c rest ih =>
    obtain ⟨hc, hrest⟩ := not_or.mp (List.mem_cons.not.mp h)
    rw [crlf, List.flatMap_cons, if_neg (Ne.symm hc), ← crlf, ih hrest]
    rfl

/-- Every piece but the last one gets a carriage return at its end. -/
theorem crlf_join {front : List Text} {last : Text} (hfront : ∀ piece ∈ front, '\n' ∉ piece)
    (hlast : '\n' ∉ last) : crlf (join ['\n'] (front ++ [last])) =
      join ['\n'] (front.map (· ++ ['\r']) ++ [last]) := by
  induction front with
  | nil => exact crlf_of_feed_not_mem (t := join ['\n'] [last]) (by simpa [join] using hlast)
  | cons piece front ih =>
    obtain ⟨hpiece, hmore⟩ := List.forall_mem_cons.mp hfront
    have hends : crlf ['\n'] = ['\r'] ++ ['\n'] := rfl
    rw [List.cons_append, List.map_cons, List.cons_append, join_cons_of_ne_nil _ _ (by simp),
      join_cons_of_ne_nil _ _ (by simp), ← ih hmore, crlf_append, crlf_append,
      crlf_of_feed_not_mem hpiece, hends]
    simp only [List.append_assoc]

/-- The pieces of a text, of which there is a last one, and those of the text with carriage
    returns. -/
theorem exists_pieces_crlf (t : Text) : ∃ front last, pieces '\n' t = front ++ [last] ∧
    pieces '\n' (crlf t) = front.map (· ++ ['\r']) ++ [last] := by
  obtain ⟨front, last, hpieces⟩ :=
    (List.eq_nil_or_concat' _).resolve_left (pieces_ne_nil '\n' t)
  have hfeed : (∀ piece ∈ front, '\n' ∉ piece) ∧ '\n' ∉ last := by
    have hall : ∀ piece ∈ front ++ [last], '\n' ∉ piece := fun piece hpiece =>
      not_mem_of_mem_pieces (hpieces ▸ hpiece)
    rw [List.forall_mem_append, List.forall_mem_singleton] at hall
    exact hall
  refine ⟨front, last, hpieces, ?_⟩
  have hjoin := crlf_join hfeed.1 hfeed.2
  rw [← hpieces, join_pieces] at hjoin
  rw [hjoin]
  refine pieces_join (by simp) (List.forall_mem_append.mpr ⟨?_, ?_⟩)
  · simpa using hfeed.1
  · simpa using hfeed.2

/-- The pieces of a text hold nothing that the text does not hold. -/
theorem not_mem_piece {c : Char} {t piece : Text} (h : c ∉ t) (hpiece : piece ∈ pieces '\n' t) :
    c ∉ piece := by
  obtain ⟨pre, post, rfl, _⟩ := exists_of_mem_pieces hpiece
  exact fun hc => h (by simp [hc])

theorem lines_crlf {t : Text} (h : '\r' ∉ t) : lines (crlf t) = lines t := by
  obtain ⟨front, last, hpieces, hcrlf⟩ := exists_pieces_crlf t
  have hfront : (front.map (· ++ ['\r'])).map dropReturn = front.map dropReturn := by
    rw [List.map_map]
    refine List.map_congr_left fun piece hpiece => ?_
    have hplain : '\r' ∉ piece := not_mem_piece h (hpieces ▸ List.mem_append_left _ hpiece)
    rw [Function.comp_apply, dropReturn_concat, dropReturn_of_not_mem hplain]
  simp only [lines, hpieces, hcrlf, List.dropLast_concat, List.getLastD_concat, hfront]

end Text

/-- The reader of feature files finds the same lines. -/
theorem Gherkin.Line.all_crlf {t : Text} (h : '\r' ∉ t) : all t.crlf = all t := by
  obtain ⟨front, last, hpieces, hcrlf⟩ := Text.exists_pieces_crlf t
  have hfront : (front.map (· ++ ['\r'])).map ofRaw = front.map ofRaw := by
    rw [List.map_map]
    refine List.map_congr_left fun piece hpiece => ?_
    have hplain : '\r' ∉ piece := Text.not_mem_piece h (hpieces ▸ List.mem_append_left _ hpiece)
    rw [Function.comp_apply, ofRaw_of_not_mem hplain]
    exact ofRaw_eq_some_iff.mpr ⟨(Text.dropReturn_concat piece).symm, hplain⟩
  simp only [all, hpieces, hcrlf, List.getLast?_concat, List.dropLast_concat]
  split
  · exact hfront
  · rw [List.map_append, List.map_append, hfront]

section Reports

open Scenario (RepairOptions)

/-- Whether lines end with a line feed alone or with a carriage return in front of it makes no
    difference to the repair of a scenario for any endpoint, to its issues under any policy, and to
    the document that is read or the error that stops the reading. -/
theorem reports_crlf {text : Text} (h : '\r' ∉ text) :
    (∀ (options : RepairOptions) (e : Endpoint),
      Scenario.repair options e text.crlf = Scenario.repair options e text) ∧
    (∀ (policy : Policy) (context : Context),
      Check.vocabulary policy text.crlf context = Check.vocabulary policy text context ∧
      Check.status policy text.crlf context = Check.status policy text context) ∧
    (∀ context : Context, Check.grammar text.crlf context = Check.grammar text context) ∧
    Gherkin.parse text.crlf = Gherkin.parse text := by
  have hlines := Text.lines_crlf h
  have hparse : Gherkin.parse text.crlf = Gherkin.parse text := by
    rw [Gherkin.parse, Gherkin.parse, Gherkin.Line.all_crlf h]
  refine ⟨fun options e => ?_, fun policy context => ⟨?_, ?_⟩, fun context => ?_, hparse⟩
  · rw [Scenario.repair, Scenario.repair, Scenario.fencelessLines, Scenario.fencelessLines, hlines]
  · rw [Check.vocabulary, Check.vocabulary, hlines]
  · rw [Check.status, Check.status, Check.statusAssertion?, Check.statusAssertion?, hlines]
  · rw [Check.grammar, Check.grammar, hparse]

/-- A scenario with a docstring, a blank line and no line feed at its end. -/
theorem reports_crlf_docstring :
    let text : Text := "Feature: F\nScenario: s\nGiven x\n\"\"\"\n\na\n\"\"\"\nThen status 200".toList
    '\r' ∉ text ∧ text.crlf ≠ text ∧
      (∀ (options : RepairOptions) (e : Endpoint),
        Scenario.repair options e text.crlf = Scenario.repair options e text) ∧
      (∀ (policy : Policy) (context : Context),
        Check.vocabulary policy text.crlf context = Check.vocabulary policy text context ∧
        Check.status policy text.crlf context = Check.status policy text context) ∧
      (∀ context : Context, Check.grammar text.crlf context = Check.grammar text context) ∧
      Gherkin.parse text.crlf = Gherkin.parse text :=
  ⟨by decide, by decide, reports_crlf (by decide)⟩

end Reports

end ScenarioLint
