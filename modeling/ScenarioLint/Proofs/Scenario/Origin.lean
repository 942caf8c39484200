import ScenarioLint.Proofs.Gherkin.Lead
import ScenarioLint.Proofs.Scenario.Preservation

/-!
Where the lines of a repair come from.

What a repair puts in goes to the start of the text, behind a line that leads with a keyword or
starts like a step of the setup, or behind a docstring.  Lines that were put in are such lines
themselves, so more can be put in behind them.
-/

namespace ScenarioLint.Scenario

open Gherkin (Lead StepWord)

/-- What a place between two lines is, for the lines that may be put in there. -/
inductive Spot where
  | ready
  /-- Outside docstrings, where a repair puts nothing in. -/
  | busy
  | inside
  deriving DecidableEq

namespace Spot

/-- The place behind a line. -/
def next (σ : Spot) (line : Text) : Spot :=
  match decide (σ = inside), hasMark line with
  | true, true => ready
  | true, false => inside
  | false, true => inside
  | false, false =>
    if (Keyword.leading? line).isSome || (afterSetup? line).isSome then ready else busy

/-- The place behind several lines. -/
def after (σ : Spot) (lines : List Text) : Spot :=
  lines.foldl next σ

variable {σ : Spot} {lines front back : List Text} {line : Text} {i : Nat}

@[simp]
theorem after_nil (σ : Spot) : σ.after [] = σ :=
  rfl

@[simp]
theorem after_cons (σ : Spot) (line : Text) (lines : List Text) :
    σ.after (line :: lines) = (σ.next line).after lines :=
  rfl

theorem after_append (σ : Spot) (front back : List Text) :
    σ.after (front ++ back) = (σ.after front).after back :=
  List.foldl_append

/-- Nothing but the marks decides whether a docstring is open. -/
theorem next_eq_inside_iff :
    σ.next line = inside ↔ (decide (σ = inside) != hasMark line) = true := by
  rw [next]
  cases decide (σ = inside) <;> cases hasMark line <;> simp
  split <;> simp

theorem after_eq_inside_iff :
    σ.after lines = inside ↔ Role.insideAfter (decide (σ = inside)) lines = true := by
  induction lines generalizing σ with
  | nil => simp
  | cons line rest ih =>
    have hnext : decide (σ.next line = inside) = (decide (σ = inside) != hasMark line) := by
      rw [Bool.eq_iff_iff, decide_eq_true_eq, next_eq_inside_iff]
    rw [after_cons, ih, Role.insideAfter_cons, hnext]

theorem after_ne_inside (h : Role.insideAfter false lines = false) :
    ready.after lines ≠ inside := by
  intro hinside
  rw [after_eq_inside_iff] at hinside
  exact Bool.false_ne_true (h.symm.trans hinside)

theorem next_of_text (hσ : σ ≠ inside) (hmark : hasMark line = false)
    (hline : (Keyword.leading? line).isSome = true ∨ (afterSetup? line).isSome = true) :
    σ.next line = ready := by
  rw [next, decide_eq_false hσ, hmark]
  exact if_pos (Bool.or_eq_true_iff.mpr hline)

/-- Behind a line outside docstrings that leads with a keyword, lines may be put in. -/
theorem after_take_of_text (hrole : (Role.scan lines)[i]? = some .text)
    (hline : ∀ line ∈ lines[i]?, (Keyword.leading? line).isSome = true ∨
      (afterSetup? line).isSome = true) : ready.after (lines.take (i + 1)) = ready := by
  obtain ⟨line, hget, hmark⟩ := Role.exists_line_of_text hrole
  obtain ⟨houtside, _⟩ := Role.outside_of_text hrole
  rw [List.take_add_one, hget, after_append]
  exact next_of_text (after_ne_inside houtside) hmark (hline line hget)

theorem after_take_of_keyword {keyword : Keyword}
    (h : (keywordsFrom false lines)[i]? = some (some keyword)) :
    ready.after (lines.take (i + 1)) = ready := by
  refine after_take_of_text (scan_of_keyword h) fun line hline => ?_
  rw [keywordsFrom, List.getElem?_zipWith_eq_some] at h
  obtain ⟨role, other, _, hother, hkeyword⟩ := h
  obtain rfl : other = line := Option.some.inj (hother.symm.trans hline)
  rw [keywordIn] at hkeyword
  split at hkeyword
  · exact .inl (by rw [Keyword.leading?, hkeyword]; rfl)
  · cases hkeyword

/-- Behind a docstring, lines may be put in. -/
theorem after_take_of_closing (h : (Role.scan lines)[i]? = some .closing) :
    ready.after (lines.take (i + 1)) = ready := by
  obtain ⟨line, hline, hmark, hinside⟩ := Role.exists_line_of_closing h
  have hσ : ready.after (lines.take i) = inside := after_eq_inside_iff.mpr hinside
  rw [List.take_add_one, hline, after_append, hσ]
  change next inside line = ready
  rw [next, hmark]
  rfl

end Spot

/-- Lines of a text, the first of which has the index `k`, and what becomes of them in a repair.
    For each line of the result `origins` tells which line of the text it was, if it was one.  Blocks
    are put in as a whole, an endpoint line outside docstrings may be qualified, and blank lines may
    go at the end. -/
inductive Traced (e : Endpoint) (blocks : List (List Text)) :
    (σ : Spot) → (k : Nat) → (lines : List Text) → (origins : List (Option Nat)) →
      (result : List Text) → Prop
  | nil {σ : Spot} {k : Nat} {lines : List Text} (hblank : ∀ line ∈ lines, line.isBlank = true) :
      Traced e blocks σ k lines [] []
  | keep {σ : Spot} {k : Nat} {line : Text} {lines result : List Text}
      {origins : List (Option Nat)}
      (h : Traced e blocks (σ.next line) (k + 1) lines origins result) :
      Traced e blocks σ k (line :: lines) (some k :: origins) (line :: result)
  | qualify {σ : Spot} {k : Nat} {line : Text} {lines result : List Text}
      {origins : List (Option Nat)} (hσ : σ ≠ .inside)
      (hline : (endpointLine? line).isSome = true)
      (h : Traced e blocks .ready (k + 1) lines origins result) :
      Traced e blocks σ k (line :: lines) (some k :: origins) (qualifyLine e line :: result)
  | put {k : Nat} {block lines result : List Text} {origins : List (Option Nat)}
      (hblock : block ∈ blocks) (h : Traced e blocks .ready k lines origins result) :
      Traced e blocks .ready k lines (block.map (fun _ => none) ++ origins) (block ++ result)

/-- A line that can be put in as a block of its own, and behind which more can be put in. -/
def IsSingle (block : List Text) : Prop :=
  ∃ line, block = [line] ∧ Spot.ready.next line = .ready

namespace Traced

variable {e : Endpoint} {blocks more : List (List Text)} {σ : Spot} {k i j : Nat}
  {lines result block front back : List Text} {origins : List (Option Nat)} {line : Text}

theorem refl (e : Endpoint) (blocks : List (List Text)) (σ : Spot) (k : Nat) (lines : List Text) :
    ∃ origins, Traced e blocks σ k lines origins lines := by
  induction lines generalizing σ k with
  | nil => exact ⟨[], .nil (by simp)⟩
  | cons line rest ih =>
    obtain ⟨origins, h⟩ := ih (σ.next line) (k + 1)
    exact ⟨some k :: origins, .keep h⟩

theorem append_left (front : List Text)
    (h : ∃ origins, Traced e blocks (σ.after front) (k + front.length) lines origins result) :
    ∃ origins, Traced e blocks σ k (front ++ lines) origins (front ++ result) := by
  induction front generalizing σ k with
  | nil => exact h
  | cons line front ih =>
    rw [List.length_cons, Nat.add_comm front.length, ← Nat.add_assoc] at h
    obtain ⟨origins, hrest⟩ := ih h
    exact ⟨some k :: origins, .keep hrest⟩

theorem mono (h : Traced e blocks σ k lines origins result) (hmore : blocks ⊆ more) :
    Traced e more σ k lines origins result := by
  induction h with
  | nil hblank => exact .nil hblank
  | keep _ ih => exact .keep ih
  | qualify hσ hline _ ih => exact .qualify hσ hline ih
  | put hblock _ ih => exact .put (hmore hblock) ih

theorem next_endpointLine (hσ : σ ≠ .inside) (h : (endpointLine? line).isSome = true) :
    σ.next line = .ready := by
  obtain ⟨keyword, _, _, hkeyword⟩ := exists_leading?_of_endpointLine h
  refine Spot.next_of_text hσ (plain_of_endpointLine h).1 (.inl ?_)
  rw [hkeyword]
  rfl

/-- A block may be put in wherever the place is ready, as long as all others are single lines, which
    cannot be taken apart. -/
theorem insertAt (hhost : ∀ host ∈ e.host, '\n' ∉ host)
    (h : Traced e blocks σ k lines origins result) (hsingle : ∀ other ∈ blocks, IsSingle other)
    (hblock : block ∈ more) (hmore : blocks ⊆ more) (hi : i ≤ result.length)
    (hready : σ.after (result.take i) = .ready) :
    ∃ origins, Traced e more σ k lines origins (insertAt result i block) := by
  induction h generalizing i with
  | @nil σ k lines hblank =>
    obtain rfl : i = 0 := Nat.le_zero.mp hi
    obtain rfl : σ = .ready := hready
    exact ⟨_, .put hblock (.nil hblank)⟩
  | @keep σ k line lines result origins hrest ih =>
    cases i with
    | zero =>
      obtain rfl : σ = .ready := hready
      exact ⟨_, .put hblock (.keep (hrest.mono hmore))⟩
    | succ i =>
      obtain ⟨origins, hput⟩ := ih (Nat.le_of_succ_le_succ hi) hready
      exact ⟨_, .keep hput⟩
  | @qualify σ k line lines result origins hσ hline hrest ih =>
    cases i with
    | zero =>
      obtain rfl : σ = .ready := hready
      exact ⟨_, .put hblock (.qualify hσ hline (hrest.mono hmore))⟩
    | succ i =>
      rw [List.take_succ_cons, Spot.after_cons,
        next_endpointLine hσ (isSome_endpointLine?_qualifyLine hhost hline)] at hready
      obtain ⟨origins, hput⟩ := ih (Nat.le_of_succ_le_succ hi) hready
      exact ⟨_, .qualify hσ hline hput⟩
  | @put k other lines result origins hother hrest ih =>
    obtain ⟨line, rfl, hnext⟩ := hsingle other hother
    cases i with
    | zero => exact ⟨_, .put hblock (.put (hmore hother) (hrest.mono hmore))⟩
    | succ i =>
      rw [List.singleton_append, List.take_succ_cons, Spot.after_cons, hnext] at hready
      obtain ⟨origins, hput⟩ := ih (Nat.le_of_succ_le_succ hi) hready
      have hkept : Traced e more .ready k lines (none :: origins)
          ([line] ++ Scenario.insertAt result i block) := .put (hmore hother) hput
      exact ⟨_, hkept⟩

/-- A single line may be put in as well where it does not take a longer block apart. -/
theorem insertAt_insertAt (hhost : ∀ host ∈ e.host, '\n' ∉ host)
    (h : Traced e blocks σ k lines origins result) (hsingle : ∀ other ∈ blocks, IsSingle other)
    (hline : [line] ∈ blocks) (hblock : block ∈ more) (hmore : blocks ⊆ more)
    (hneutral : Spot.ready.after block = .ready) (hj : j ≤ result.length)
    (hreadyBlock : σ.after (result.take j) = .ready) (hapart : i ≤ j ∨ j + block.length ≤ i)
    (hi : i ≤ result.length + block.length)
    (hready : σ.after ((Scenario.insertAt result j block).take i) = .ready) :
    ∃ origins, Traced e more σ k lines origins
      (Scenario.insertAt (Scenario.insertAt result j block) i [line]) := by
  obtain ⟨front, back, rfl, rfl⟩ : ∃ front back, result = front ++ back ∧ front.length = j :=
    ⟨result.take j, result.drop j, (List.take_append_drop j result).symm,
      List.length_take_of_le hj⟩
  obtain ⟨other, hother, hnext⟩ := hsingle [line] hline
  obtain rfl : line = other := (List.cons.inj hother).1
  rw [List.take_left] at hreadyBlock
  rw [insertAt_length_append] at hready ⊢
  rcases hapart with hle | hle
  · rw [List.take_append_of_le_length hle] at hready
    have htake : (front ++ back).take i = front.take i := List.take_append_of_le_length hle
    obtain ⟨origins, hput⟩ := h.insertAt hhost hsingle hline (List.Subset.refl _)
      (Nat.le_trans hle (List.length_append ▸ Nat.le_add_right _ _)) (htake ▸ hready)
    rw [insertAt_append_of_le hle] at hput ⊢
    rw [← insertAt_length_append]
    refine hput.insertAt hhost hsingle hblock hmore ?_ ?_
    · exact (List.prefix_append _ _).length_le
    · rw [List.take_left, Scenario.insertAt, Spot.after_append, Spot.after_append, hready]
      rw [← List.take_append_drop i front, Spot.after_append, hready] at hreadyBlock
      rwa [Spot.after_cons, Spot.after_nil, hnext]
  · obtain ⟨m, rfl⟩ := Nat.exists_eq_add_of_le hle
    rw [Nat.add_assoc, List.take_length_add_append, List.take_length_add_append,
      Spot.after_append, hreadyBlock, Spot.after_append, hneutral] at hready
    rw [Nat.add_assoc, insertAt_append_add, insertAt_append_add]
    have hput := h.insertAt hhost hsingle hline (List.Subset.refl _) (i := front.length + m)
      (by rw [List.length_append] at hi ⊢; omega)
      (by rw [List.take_length_add_append, Spot.after_append, hreadyBlock, hready])
    rw [insertAt_append_add] at hput
    obtain ⟨origins, hput⟩ := hput
    rw [← insertAt_length_append]
    refine hput.insertAt hhost hsingle hblock hmore ?_ ?_
    · exact (List.prefix_append _ _).length_le
    · rwa [List.take_left]

end Traced

section Repair

variable {options : RepairOptions} {e : Endpoint} {indent : Text} {blocks : List (List Text)}
  {lines result : List Text} {origins : List (Option Nat)} {endpointAt : Nat}

/-- The blocks of one line that a repair may put in. -/
def singleBlocks (options : RepairOptions) (e : Endpoint) (indent : Text) : List (List Text) :=
  [[endpointLineOf e indent], [headerLineOf options indent], [executionLineOf e indent]]

theorem mem_insertableBlocks_iff {block : List Text} : block ∈ insertableBlocks options e indent ↔
    block ∈ singleBlocks options e indent ∨
      ∃ body, e.body? = some body ∧ block = requestBlock indent body := by
  simp only [singleBlocks, insertableBlocks, List.mem_cons, List.mem_append, List.mem_map,
    Option.mem_toList, List.not_mem_nil, or_false, eq_comm]
  rw [or_assoc, or_assoc, or_assoc, or_comm (a := ∃ _, _)]

theorem singleBlocks_subset (options : RepairOptions) (e : Endpoint) (indent : Text) :
    singleBlocks options e indent ⊆ insertableBlocks options e indent :=
  fun _ hblock => mem_insertableBlocks_iff.mpr (.inl hblock)

theorem executionLineOf_mem_singleBlocks (options : RepairOptions) (e : Endpoint) (indent : Text) :
    [executionLineOf e indent] ∈ singleBlocks options e indent :=
  List.mem_cons_of_mem _ (List.mem_cons_of_mem _ List.mem_cons_self)

/-- Each of these lines is a step with one of the keywords of the setup. -/
theorem exists_split_of_mem_singleBlocks {block : List Text}
    (h : block ∈ singleBlocks options e indent) :
    ∃ word ∈ [StepWord.given, .when, .and], ∃ text : Text,
      block = [indent ++ ((Lead.step word).text ++ text)] ∧
        ∃ c, text.head? = some c ∧ isSpace c = false := by
  simp only [singleBlocks, List.mem_cons, List.not_mem_nil, or_false] at h
  rcases h with rfl | rfl | rfl
  · have hword : "Given endpoint \"".toList = (Lead.step .given).text ++ "endpoint \"".toList := rfl
    refine ⟨.given, by decide, "endpoint \"".toList ++ (e.fullUrl ++ ['"']), ?_, _, rfl, rfl⟩
    rw [endpointLineOf, hword]
    simp only [List.append_assoc]
  · have hword : "And header Content-Type = '".toList =
        (Lead.step .and).text ++ "header Content-Type = '".toList := rfl
    refine ⟨.and, by decide, "header Content-Type = '".toList ++ (options.contentType ++ ['\'']),
      ?_, _, rfl, rfl⟩
    rw [headerLineOf, hword]
    simp only [List.append_assoc]
  · have hword : "When method ".toList = (Lead.step .when).text ++ "method ".toList := rfl
    refine ⟨.when, by decide, "method ".toList ++ e.methodUpper, ?_, _, rfl, rfl⟩
    rw [executionLineOf, hword]
    simp only [List.append_assoc]

theorem isSingle_of_mem_singleBlocks (options : RepairOptions) (e : Endpoint)
    (hindent : indent.isBlank = true) :
    ∀ block ∈ singleBlocks options e indent, IsSingle block := by
  intro block hblock
  obtain ⟨word, hword, text, rfl, _⟩ := exists_split_of_mem_singleBlocks hblock
  simp only [List.mem_cons, List.not_mem_nil, or_false] at hword
  have hstart : StartsVisibly ((Lead.step word).text ++ text) := by
    rcases hword with rfl | rfl | rfl <;> exact ⟨_, rfl, by decide⟩
  have hleading : (Keyword.leading? (indent ++ ((Lead.step word).text ++ text))).isSome = true := by
    rw [Keyword.leading?_append hindent]
    rcases hword with rfl | rfl | rfl <;> rfl
  exact ⟨_, rfl, Spot.next_of_text nofun (hasMark_of_startsVisibly hindent hstart) (.inl hleading)⟩

theorem EndpointAt.ready (h : EndpointAt e lines endpointAt) :
    Spot.ready.after (lines.take (endpointAt + 1)) = .ready := by
  obtain ⟨front, line, back, rfl, rfl, houtside, _, hline, _⟩ := h
  rw [List.take_length_add_append, Spot.after_append]
  exact Traced.next_endpointLine (Spot.after_ne_inside houtside) hline

/-- The endpoint line is qualified where it stands or put in under a header. -/
theorem traced_withEndpoint (hindent : indent.isBlank = true)
    (hhost : ∀ host ∈ e.host, '\n' ∉ host) (options : RepairOptions) (lines : List Text) :
    ∃ origins, Traced e (singleBlocks options e indent) .ready 0 lines origins
      (withEndpoint e indent lines).1 := by
  obtain ⟨front, line, back, rfl, houtside, _, hline, _, heq⟩ | ⟨_, heq⟩ :=
    withEndpoint_cases e indent lines
  · obtain ⟨origins, hback⟩ := Traced.refl e (singleBlocks options e indent) .ready
      (0 + front.length + 1) back
    rw [heq]
    exact Traced.append_left front ⟨_, .qualify (Spot.after_ne_inside houtside) hline hback⟩
  · obtain ⟨_, hlines⟩ := Traced.refl e (singleBlocks options e indent) .ready 0 lines
    rw [heq]
    refine hlines.insertAt hhost (isSingle_of_mem_singleBlocks options e hindent) List.mem_cons_self
      (List.Subset.refl _) (outside_under_header lines).1 ?_
    cases hheader : headerAt? lines with
    | none => rfl
    | some i =>
      obtain ⟨_, _, hkeyword⟩ := keyword_of_headerAt? hheader
      exact Spot.after_take_of_keyword hkeyword

/-- The content type header goes behind the endpoint line, and a request block may go behind the
    header. -/
theorem traced_withHeader (hindent : indent.isBlank = true) (hhost : ∀ host ∈ e.host, '\n' ∉ host)
    {found : List Text} (h : Traced e (singleBlocks options e indent) .ready 0 lines origins found)
    (hendpoint : EndpointAt e found endpointAt) :
    (∃ origins, Traced e (singleBlocks options e indent) .ready 0 lines origins
      (withHeader options indent endpointAt found).1) ∧
      Spot.ready.after ((withHeader options indent endpointAt found).1.take
        ((withHeader options indent endpointAt found).2 + 1)) = .ready := by
  obtain ⟨_, heq | ⟨heq, hrole, line, hline, _, hheader⟩⟩ | ⟨_, heq⟩ :=
    withHeader_cases options indent endpointAt found
  · rw [heq]
    exact ⟨⟨origins, h⟩, hendpoint.ready⟩
  · rw [heq]
    refine ⟨⟨origins, h⟩, Spot.after_take_of_text hrole fun other hother => .inr ?_⟩
    obtain rfl : line = other := Option.some.inj (hline.symm.trans hother)
    exact isSome_afterSetup?_of_isContentTypeHeader hheader
  · rw [heq]
    have hsingle := isSingle_of_mem_singleBlocks options e hindent
    have hheader : [headerLineOf options indent] ∈ singleBlocks options e indent :=
      List.mem_cons_of_mem _ List.mem_cons_self
    refine ⟨h.insertAt hhost hsingle hheader (List.Subset.refl _) hendpoint.lt_length
      hendpoint.ready, ?_⟩
    obtain ⟨_, hblock, hnext⟩ := hsingle _ hheader
    have hbehind : endpointAt + 1 ≤ found.length := hendpoint.lt_length
    have htake :
        (insertAt found (endpointAt + 1) [headerLineOf options indent]).take (endpointAt + 1 + 1) =
        found.take (endpointAt + 1) ++ [headerLineOf options indent] :=
      take_insertAt hbehind [headerLineOf options indent]
    change Spot.ready.after ((insertAt found (endpointAt + 1)
      [headerLineOf options indent]).take _) = _
    rw [htake, Spot.after_append, hendpoint.ready, hblock]
    exact hnext

/-- The line that sends the request goes where lines may be put in. -/
theorem EndpointAt.ready_lastSetupLine? (h : EndpointAt e lines endpointAt) :
    (lastSetupLine? endpointAt lines).getD endpointAt + 1 ≤ lines.length ∧
      Spot.ready.after (lines.take ((lastSetupLine? endpointAt lines).getD endpointAt + 1)) =
        .ready := by
  cases hlast : lastSetupLine? endpointAt lines with
  | none => exact ⟨h.lt_length, h.ready⟩
  | some i =>
    rw [Option.getD_some]
    rcases step_or_closing_of_lastSetupLine? hlast with ⟨_, _, hkeyword⟩ | hclosing
    · obtain ⟨hlt, _⟩ := List.getElem?_eq_some_iff.mp hkeyword
      rw [length_keywordsFrom] at hlt
      exact ⟨hlt, Spot.after_take_of_keyword hkeyword⟩
    · obtain ⟨hlt, _⟩ := List.getElem?_eq_some_iff.mp hclosing
      rw [Role.scan, Role.length_scanFrom] at hlt
      exact ⟨hlt, Spot.after_take_of_closing hclosing⟩

theorem traced_withExecution (hindent : indent.isBlank = true)
    (hhost : ∀ host ∈ e.host, '\n' ∉ host) {found : List Text}
    (h : Traced e (singleBlocks options e indent) .ready 0 lines origins found)
    (hendpoint : EndpointAt e found endpointAt) :
    ∃ origins, Traced e (singleBlocks options e indent) .ready 0 lines origins
      (withExecution e indent endpointAt found) := by
  rw [withExecution]
  split
  · exact ⟨origins, h⟩
  · obtain ⟨hle, hready⟩ := hendpoint.ready_lastSetupLine?
    exact h.insertAt hhost (isSingle_of_mem_singleBlocks options e hindent)
      (executionLineOf_mem_singleBlocks options e indent) (List.Subset.refl _) hle hready

theorem after_requestBlock (hindent : indent.isBlank = true) (body : Json.Value) :
    Spot.ready.after (requestBlock indent body) = .ready := by
  obtain ⟨front, hblock, hinside, _⟩ := requestBlock_eq_append hindent body
  have hafter : Spot.ready.after front = .inside := Spot.after_eq_inside_iff.mpr hinside
  rw [hblock, Spot.after_append, hafter, Spot.after_cons, Spot.next,
    hasMark_indent_docstringMark hindent]
  rfl

/-- The line that sends the request leaves a request block in one piece. -/
theorem traced_withExecution_requestBlock (hindent : indent.isBlank = true)
    (hhost : ∀ host ∈ e.host, '\n' ∉ host) {headed : List Text} {anchor : Nat} {body : Json.Value}
    (hbody : e.body? = some body)
    (h : Traced e (singleBlocks options e indent) .ready 0 lines origins headed)
    (hendpoint : EndpointAt e headed endpointAt) (hle : endpointAt ≤ anchor)
    (hlt : anchor < headed.length)
    (houtside : Role.insideAfter false (headed.take (anchor + 1)) = false)
    (hready : Spot.ready.after (headed.take (anchor + 1)) = .ready) :
    ∃ origins, Traced e (insertableBlocks options e indent) .ready 0 lines origins
      (withExecution e indent endpointAt (insertAt headed (anchor + 1)
        (requestBlock indent body))) := by
  have hsingle := isSingle_of_mem_singleBlocks options e hindent
  have hblock : requestBlock indent body ∈ insertableBlocks options e indent := by
    simp [insertableBlocks, hbody]
  have hsubset := singleBlocks_subset options e indent
  rw [withExecution]
  split
  · exact h.insertAt hhost hsingle hblock hsubset hlt hready
  · obtain ⟨hlast, hspot⟩ := (hendpoint.insertAt (Nat.lt_succ_of_le hle)
      (requestBlock indent body)).ready_lastSetupLine?
    have hapart := lastSetupLine?_requestBlock hindent hlt houtside (Nat.lt_succ_of_le hle) body
    rw [length_insertAt] at hlast
    exact h.insertAt_insertAt hhost hsingle (executionLineOf_mem_singleBlocks options e indent)
      hblock hsubset (after_requestBlock hindent body) hlt hready hapart hlast hspot

/-- Every line of a repair, before its ends are trimmed, is one of the text or of a block. -/
theorem traced_repairedLines (hpath : '\n' ∉ e.path) (hhost : ∀ host ∈ e.host, '\n' ∉ host)
    (hstep : options.stepIndent.isBlank = true) (lines : List Text) :
    ∃ origins, Traced e (insertableBlocks options e (stepIndentOf options lines)) .ready 0 lines
      origins (repairedLines options e lines) := by
  have hindent := isBlank_stepIndentOf hstep lines
  rw [repairedLines]
  generalize stepIndentOf options lines = indent at hindent ⊢
  have hendpoint := endpointAt_withEndpoint hindent hhost hpath lines
  obtain ⟨_, hfound⟩ := traced_withEndpoint hindent hhost options lines
  dsimp only
  generalize withEndpoint e indent lines = found at hendpoint hfound ⊢
  have hsubset := singleBlocks_subset options e indent
  rw [withRequest]
  cases hbody : e.body? with
  | none =>
    obtain ⟨origins, h⟩ := traced_withExecution hindent hhost hfound hendpoint
    exact ⟨origins, h.mono hsubset⟩
  | some body =>
    obtain ⟨⟨_, hheaded⟩, hready⟩ := traced_withHeader hindent hhost hfound hendpoint
    have hlt := lt_length_withHeader hendpoint.lt_length options indent
    obtain ⟨hendpoint, _, hle, houtside⟩ := withHeader_spec hindent hendpoint options
    dsimp only
    split
    · obtain ⟨origins, h⟩ := traced_withExecution hindent hhost hheaded hendpoint
      exact ⟨origins, h.mono hsubset⟩
    · exact traced_withExecution_requestBlock hindent hhost hbody hheaded hendpoint hle hlt houtside
        hready

theorem not_isBlank_of_head {line : Text} {c : Char} (h : line.trimStart.head? = some c) :
    line.isBlank = false := by
  rw [Bool.eq_false_iff]
  intro hblank
  rw [trimStart_of_isBlank hblank] at h
  cases h

/-- What a repair puts in can be seen. -/
theorem not_isBlank_of_mem_insertableBlocks (hindent : indent.isBlank = true) {block : List Text}
    (h : block ∈ insertableBlocks options e indent) :
    block ≠ [] ∧ ∀ line ∈ block, line.isBlank = false := by
  have hvisible : ∀ {t : Text} {c : Char}, t.head? = some c → isSpace c = false →
      Text.isBlank (indent ++ t) = false := by
    intro t c hc hspace
    refine not_isBlank_of_head (c := c) ?_
    have hhead : ∀ d, t.head? = some d → isSpace d = false :=
      fun d hd => Option.some.inj (hc.symm.trans hd) ▸ hspace
    rwa [Text.trimStart_append_of_head hindent hhead]
  rcases mem_insertableBlocks_iff.mp h with hsingle | ⟨body, _, rfl⟩
  · obtain ⟨word, hword, text, rfl, _⟩ := exists_split_of_mem_singleBlocks hsingle
    obtain ⟨c, hc, hspace, _⟩ := (Lead.step word).exists_head
    refine ⟨List.cons_ne_nil _ _, List.forall_mem_singleton.mpr (hvisible (c := c) ?_ hspace)⟩
    rw [List.head?_append, hc]
    rfl
  · refine ⟨List.cons_ne_nil _ _, fun line hline => ?_⟩
    simp only [requestBlock, List.mem_append, List.mem_cons, List.not_mem_nil, or_false,
      List.mem_map] at hline
    rcases hline with ((rfl | rfl) | ⟨inner, hinner, rfl⟩) | rfl
    · exact hvisible rfl rfl
    · exact hvisible rfl rfl
    · obtain ⟨_, ⟨c, hc, _⟩, _⟩ := Json.Value.line_spec hinner
      refine not_isBlank_of_head (c := c) ?_
      rwa [Text.trimStart_append_of_isBlank hindent]
    · exact hvisible rfl rfl

end Repair

section Trimming

variable {e : Endpoint} {blocks : List (List Text)} {σ : Spot} {k : Nat}
  {lines result front back : List Text} {origins : List (Option Nat)} {line : Text}

theorem not_isBlank_qualifyLine (hhost : ∀ host ∈ e.host, '\n' ∉ host)
    (h : (endpointLine? line).isSome = true) : (qualifyLine e line).isBlank = false :=
  not_isBlank_of_endpointLine (isSome_endpointLine?_qualifyLine hhost h)

namespace Traced

/-- Nothing but blank lines comes out of blank lines. -/
theorem isBlank_of_result (hhost : ∀ host ∈ e.host, '\n' ∉ host)
    (hblocks : ∀ block ∈ blocks, block ≠ [] ∧ ∀ line ∈ block, line.isBlank = false)
    (h : Traced e blocks σ k lines origins result) (hblank : ∀ line ∈ result, line.isBlank = true) :
    ∀ line ∈ lines, line.isBlank = true := by
  induction h with
  | nil hlines => exact hlines
  | keep _ ih =>
    obtain ⟨hline, hrest⟩ := List.forall_mem_cons.mp hblank
    exact List.forall_mem_cons.mpr ⟨hline, ih hrest⟩
  | qualify _ hline _ _ =>
    have hvisible := not_isBlank_qualifyLine hhost hline
    rw [hblank _ List.mem_cons_self] at hvisible
    cases hvisible
  | put hblock _ _ =>
    obtain ⟨hne, hvisible⟩ := hblocks _ hblock
    obtain ⟨line, rest, rfl⟩ := List.exists_cons_of_ne_nil hne
    have hline := hvisible line List.mem_cons_self
    rw [hblank line List.mem_cons_self] at hline
    cases hline

/-- Blank lines at the end may go. -/
theorem of_append (hhost : ∀ host ∈ e.host, '\n' ∉ host)
    (hblocks : ∀ block ∈ blocks, block ≠ [] ∧ ∀ line ∈ block, line.isBlank = false)
    (h : Traced e blocks σ k lines origins (front ++ back))
    (hback : ∀ line ∈ back, line.isBlank = true) :
    ∃ origins, Traced e blocks σ k lines origins front := by
  generalize hresult : front ++ back = result at h
  induction h generalizing front with
  | nil hblank =>
    obtain ⟨rfl, rfl⟩ := List.append_eq_nil_iff.mp hresult
    exact ⟨[], .nil hblank⟩
  | @keep σ k line lines result origins hrest ih =>
    cases front with
    | nil =>
      obtain rfl : back = line :: result := hresult
      exact ⟨[], .nil ((Traced.keep hrest).isBlank_of_result hhost hblocks hback)⟩
    | cons first front =>
      obtain ⟨rfl, hmore⟩ := List.cons.inj hresult
      obtain ⟨origins, htrimmed⟩ := ih hmore
      exact ⟨_, .keep htrimmed⟩
  | @qualify σ k line lines result origins hσ hline hrest ih =>
    cases front with
    | nil =>
      obtain rfl : back = qualifyLine e line :: result := hresult
      exact ⟨[], .nil ((Traced.qualify hσ hline hrest).isBlank_of_result hhost hblocks hback)⟩
    | cons first front =>
      obtain ⟨rfl, hmore⟩ := List.cons.inj hresult
      obtain ⟨origins, htrimmed⟩ := ih hmore
      exact ⟨_, .qualify hσ hline htrimmed⟩
  | @put k block lines result origins hblock hrest ih =>
    obtain ⟨_, hvisible⟩ := hblocks _ hblock
    rcases List.append_eq_append_iff.mp hresult with ⟨more, rfl, hmore⟩ | ⟨more, rfl, hmore⟩
    · -- the block would reach into the blank lines at the end
      cases more with
      | nil =>
        have hrest : [] ++ back = result := hmore
        obtain ⟨origins, htrimmed⟩ := ih hrest
        have hput := Traced.put hblock htrimmed
        rw [List.append_nil, List.append_nil] at hput
        exact ⟨_, hput⟩
      | cons line more =>
        have hline := hvisible line (List.mem_append_right _ List.mem_cons_self)
        rw [hback line (hmore ▸ List.mem_cons_self)] at hline
        cases hline
    · obtain ⟨origins, htrimmed⟩ := ih hmore.symm
      exact ⟨_, .put hblock htrimmed⟩

/-- Blank lines at the start may go. -/
theorem of_append_left (hhost : ∀ host ∈ e.host, '\n' ∉ host)
    (hblocks : ∀ block ∈ blocks, block ≠ [] ∧ ∀ line ∈ block, line.isBlank = false)
    (h : Traced e blocks σ k lines origins (front ++ back))
    (hfront : ∀ line ∈ front, line.isBlank = true) :
    ∃ rest origins, lines = front ++ rest ∧
      Traced e blocks (σ.after front) (k + front.length) rest origins back := by
  generalize hresult : front ++ back = result at h
  induction h generalizing front with
  | nil hblank =>
    obtain ⟨rfl, rfl⟩ := List.append_eq_nil_iff.mp hresult
    exact ⟨_, _, rfl, .nil hblank⟩
  | @keep σ k line lines result origins hrest ih =>
    cases front with
    | nil =>
      obtain rfl : back = line :: result := hresult
      exact ⟨_, _, rfl, .keep hrest⟩
    | cons first front =>
      obtain ⟨rfl, hmore⟩ := List.cons.inj hresult
      obtain ⟨rest, origins, rfl, htrimmed⟩ := ih (List.forall_mem_cons.mp hfront).2 hmore
      refine ⟨rest, origins, rfl, ?_⟩
      rwa [List.length_cons, Nat.add_comm front.length, ← Nat.add_assoc]
  | @qualify σ k line lines result origins hσ hline hrest ih =>
    cases front with
    | nil =>
      obtain rfl : back = qualifyLine e line :: result := hresult
      exact ⟨_, _, rfl, .qualify hσ hline hrest⟩
    | cons first front =>
      obtain ⟨rfl, _⟩ := List.cons.inj hresult
      have hvisible := not_isBlank_qualifyLine hhost hline
      rw [hfront _ List.mem_cons_self] at hvisible
      cases hvisible
  | @put k block lines result origins hblock hrest ih =>
    cases front with
    | nil =>
      obtain rfl : back = block ++ result := hresult
      exact ⟨_, _, rfl, .put hblock hrest⟩
    | cons first front =>
      obtain ⟨hne, hvisible⟩ := hblocks _ hblock
      obtain ⟨line, more, rfl⟩ := List.exists_cons_of_ne_nil hne
      obtain ⟨rfl, _⟩ := List.cons.inj hresult
      have hline := hvisible first List.mem_cons_self
      rw [hfront first List.mem_cons_self] at hline
      cases hline

end Traced

end Trimming

/-- For each line of a result `origins` tells which line of the text it was, if it was one.  All
    lines of the text are there but blank ones at both ends. -/
def Origins (e : Endpoint) (blocks : List (List Text)) (lines : List Text)
    (origins : List (Option Nat)) (result : List Text) : Prop :=
  ∃ front rest, lines = front ++ rest ∧ (∀ line ∈ front, line.isBlank = true) ∧
    Traced e blocks (Spot.ready.after front) front.length rest origins result

/-- Every line of a repair is one of the text or of a block that was put in. -/
theorem exists_origins_repair {options : RepairOptions} {e : Endpoint} (hpath : '\n' ∉ e.path)
    (hhost : ∀ host ∈ e.host, '\n' ∉ host) (hstep : options.stepIndent.isBlank = true)
    (lines : List Text) :
    ∃ origins, Origins e (insertableBlocks options e (stepIndentOf options lines)) lines origins
      (trimLines (repairedLines options e lines)) := by
  have hvisible : ∀ block ∈ insertableBlocks options e (stepIndentOf options lines),
      block ≠ [] ∧ ∀ line ∈ block, line.isBlank = false := fun _ =>
    not_isBlank_of_mem_insertableBlocks (isBlank_stepIndentOf hstep lines)
  obtain ⟨_, htraced⟩ := traced_repairedLines hpath hhost hstep lines
  obtain ⟨front, back, hsplit, hblank⟩ := exists_append_trimLines (repairedLines options e lines)
  obtain ⟨hfront, hback⟩ := List.forall_mem_append.mp hblank
  rw [hsplit] at htraced
  obtain ⟨_, hkept⟩ := htraced.of_append hhost hvisible hback
  obtain ⟨rest, origins, hlines, htrimmed⟩ := hkept.of_append_left hhost hvisible hfront
  rw [Nat.zero_add] at htrimmed
  exact ⟨origins, front, rest, hlines, hfront, htrimmed⟩

end ScenarioLint.Scenario
