import Mathlib.Data.List.Perm.Subperm
import ScenarioLint.Proofs.Scenario.Idempotence

/-!
What a repair keeps.  The lines of a scenario come out in their order and as they were, with at most
four blocks of lines put in between and with the value of one endpoint line qualified.
-/

namespace ScenarioLint.Scenario

/-- Lines with blocks of lines put in between.  No block is taken apart. -/
inductive Woven : (blocks : List (List Text)) → (lines result : List Text) → Prop
  | nil : Woven [] [] []
  | line {blocks : List (List Text)} {lines result : List Text} (line : Text)
      (h : Woven blocks lines result) : Woven blocks (line :: lines) (line :: result)
  | block {blocks : List (List Text)} {lines result : List Text} (block : List Text)
      (h : Woven blocks lines result) : Woven (block :: blocks) lines (block ++ result)

section Insertion

variable {blocks : List (List Text)} {lines result front back block : List Text} {i : Nat}

theorem insertAt_append_of_le (hi : i ≤ front.length) :
    insertAt (front ++ back) i block = insertAt front i block ++ back := by
  rw [insertAt, insertAt, List.take_append_of_le_length hi, List.drop_append_of_le_length hi]
  simp

theorem insertAt_append_add (front back block : List Text) (i : Nat) :
    insertAt (front ++ back) (front.length + i) block = front ++ insertAt back i block := by
  rw [insertAt, insertAt, List.take_length_add_append, List.drop_length_add_append]
  simp

theorem insertAt_length_append (front back block : List Text) :
    insertAt (front ++ back) front.length block = front ++ (block ++ back) := by
  rw [insertAt, List.take_left, List.drop_left, List.append_assoc]

theorem length_insertAt (lines block : List Text) (i : Nat) :
    (insertAt lines i block).length = lines.length + block.length := by
  rw [insertAt, List.length_append, List.length_append, List.length_take, List.length_drop]
  omega

/-- Of two blocks, of which the second one is not put inside the first one, either may come
    first. -/
theorem exists_insertAt_comm {j : Nat} (block other : List Text) (hj : j ≤ lines.length)
    (hi : i ≤ j ∨ j + block.length ≤ i) :
    ∃ i' j', insertAt (insertAt lines j block) i other =
      insertAt (insertAt lines i' other) j' block := by
  obtain ⟨front, back, rfl, rfl⟩ : ∃ front back, lines = front ++ back ∧ front.length = j :=
    ⟨lines.take j, lines.drop j, (List.take_append_drop j lines).symm, List.length_take_of_le hj⟩
  rw [insertAt_length_append]
  rcases hi with hi | hi
  · refine ⟨i, (insertAt front i other).length, ?_⟩
    rw [insertAt_append_of_le hi, insertAt_append_of_le hi, insertAt_length_append]
  · obtain ⟨k, rfl⟩ := Nat.exists_eq_add_of_le hi
    refine ⟨front.length + k, front.length, ?_⟩
    rw [Nat.add_assoc, insertAt_append_add, insertAt_append_add, insertAt_append_add,
      insertAt_length_append]

namespace Woven

theorem refl (lines : List Text) : Woven [] lines lines := by
  induction lines with
  | nil => exact .nil
  | cons line rest ih => exact .line line ih

/-- A block may be put anywhere as long as all others are single lines, which cannot be taken
    apart. -/
theorem insertAt (h : Woven blocks lines result) (hsingle : ∀ other ∈ blocks, other.length = 1)
    (block : List Text) (i : Nat) :
    ∃ more, more.Perm (blocks ++ [block]) ∧ Woven more lines (insertAt result i block) := by
  induction h generalizing i with
  | nil =>
    refine ⟨[block], .refl _, ?_⟩
    have hwoven := Woven.nil.block block
    simpa [Scenario.insertAt] using hwoven
  | @line blocks lines result line hrest ih =>
    cases i with
    | zero =>
      exact ⟨block :: blocks, (List.perm_append_singleton _ _).symm, (hrest.line line).block block⟩
    | succ i =>
      obtain ⟨more, hperm, hwoven⟩ := ih hsingle i
      exact ⟨more, hperm, hwoven.line line⟩
  | @block blocks lines result other hrest ih =>
    obtain ⟨line, rfl⟩ := List.length_eq_one_iff.mp (hsingle other List.mem_cons_self)
    cases i with
    | zero =>
      exact ⟨block :: [line] :: blocks, (List.perm_append_singleton _ _).symm,
        (hrest.block [line]).block block⟩
    | succ i =>
      obtain ⟨more, hperm, hwoven⟩ :=
        ih (fun other hother => hsingle other (List.mem_cons_of_mem _ hother)) i
      exact ⟨[line] :: more, hperm.cons [line], hwoven.block [line]⟩

/-- A single line may be put anywhere but inside the one block that is longer. -/
theorem insertAt_insertAt (h : Woven blocks lines result)
    (hsingle : ∀ other ∈ blocks, other.length = 1) (block : List Text) {j : Nat}
    (hj : j ≤ result.length) (line : Text) (hi : i ≤ j ∨ j + block.length ≤ i) :
    ∃ more, more.Perm (blocks ++ [block, [line]]) ∧
      Woven more lines (Scenario.insertAt (Scenario.insertAt result j block) i [line]) := by
  obtain ⟨i', j', hcomm⟩ := exists_insertAt_comm block [line] hj hi
  obtain ⟨first, hfirstPerm, hfirst⟩ := h.insertAt hsingle [line] i'
  have hfirstSingle : ∀ other ∈ first, other.length = 1 := by
    intro other hother
    rcases List.mem_append.mp (hfirstPerm.subset hother) with hother | hother
    · exact hsingle other hother
    · rw [List.mem_singleton.mp hother]
      rfl
  obtain ⟨more, hmorePerm, hmore⟩ := hfirst.insertAt hfirstSingle block j'
  refine ⟨more, ?_, hcomm ▸ hmore⟩
  refine hmorePerm.trans ((hfirstPerm.append_right [block]).trans ?_)
  rw [List.append_assoc]
  exact (List.Perm.swap _ _ _).append_left blocks

end Woven

end Insertion

/-- The lines with the value of their first endpoint line qualified, without the white space behind
    it, or the lines as they are. -/
inductive Requalified (e : Endpoint) (lines : List Text) : (kept : List Text) → Prop
  | same : Requalified e lines lines
  | value {front back : List Text} {lead quote inner space : Text}
      (hlines : lines = front ++ (lead ++ (quote ++ inner ++ quote) ++ space) :: back)
      (houtside : Role.insideAfter false front = false)
      (hmark : hasMark (lead ++ (quote ++ inner ++ quote) ++ space) = false)
      (hline : endpointLine? (lead ++ (quote ++ inner ++ quote) ++ space) =
        some ⟨lead, quote ++ inner ++ quote⟩)
      (hfirst : ∀ other ∈ textLines false front, endpointLine? other = none)
      (hquote : IsQuote quote) (hinner : ∀ c ∈ inner, isSpace c = false)
      (hspace : space.isBlank = true) :
      Requalified e lines (front ++ (lead ++ (quote ++ e.qualify inner ++ quote)) :: back)

/-- The blocks that a repair may insert: the endpoint line, the content type header, the request
    block and the line that sends the request. -/
def insertableBlocks (options : RepairOptions) (e : Endpoint) (indent : Text) :
    List (List Text) :=
  [[endpointLineOf e indent], [headerLineOf options indent]] ++
    (e.body?.toList.map (requestBlock indent) ++ [[executionLineOf e indent]])

/-- The block, unless a line outside docstrings passes the test. -/
def unlessFound (test : Text → Bool) (lines block : List Text) : List (List Text) :=
  if (findText? test lines).isSome then [] else [block]

theorem unlessFound_sublist (test : Text → Bool) (lines block : List Text) :
    (unlessFound test lines block).Sublist [block] := by
  rw [unlessFound]
  split
  · exact List.nil_sublist _
  · exact .refl _

/-- The blocks that are put behind the endpoint line for a request with a body. -/
def requestBlocks (options : RepairOptions) (e : Endpoint) (indent : Text) (endpointAt : Nat)
    (lines : List Text) : List (List Text) :=
  match e.body? with
  | none => []
  | some body =>
    unlessFound isContentTypeHeader lines [headerLineOf options indent] ++
      if hasBodyBlock (withHeader options indent endpointAt lines).1 then []
      else [requestBlock indent body]

/-- The line that sends the request, if it is put in. -/
def executionBlocks (e : Endpoint) (indent : Text) (lines : List Text) : List (List Text) :=
  if e.methodUpper.isEmpty then []
  else unlessFound isExecutionLine lines [executionLineOf e indent]

/-- The blocks that a repair inserts, each step of it looking at what the step before has left. -/
def insertedBlocks (options : RepairOptions) (e : Endpoint) (lines : List Text) :
    List (List Text) :=
  let indent := stepIndentOf options lines
  let (found, endpointAt) := withEndpoint e indent lines
  unlessFound (fun line => (endpointLine? line).isSome) lines [endpointLineOf e indent] ++
    (requestBlocks options e indent endpointAt found ++
      executionBlocks e indent (withRequest options e indent endpointAt found))

section Steps

variable {options : RepairOptions} {e : Endpoint} {indent : Text} {lines : List Text}

theorem executionBlocks_sublist (e : Endpoint) (indent : Text) (lines : List Text) :
    (executionBlocks e indent lines).Sublist [[executionLineOf e indent]] := by
  rw [executionBlocks]
  split
  · exact List.nil_sublist _
  · exact unlessFound_sublist _ _ _

theorem requestBlocks_sublist (options : RepairOptions) (e : Endpoint) (indent : Text)
    (endpointAt : Nat) (lines : List Text) :
    (requestBlocks options e indent endpointAt lines).Sublist
      ([headerLineOf options indent] :: e.body?.toList.map (requestBlock indent)) := by
  rw [requestBlocks]
  cases e.body? with
  | none => exact List.nil_sublist _
  | some body =>
    have hheader : (unlessFound isContentTypeHeader lines [headerLineOf options indent]).Sublist
        [[headerLineOf options indent]] := unlessFound_sublist _ _ _
    refine hheader.append ?_
    split
    · exact List.nil_sublist _
    · exact .refl _

/-- No block is inserted twice. -/
theorem insertedBlocks_sublist (options : RepairOptions) (e : Endpoint) (lines : List Text) :
    (insertedBlocks options e lines).Sublist
      (insertableBlocks options e (stepIndentOf options lines)) := by
  rw [insertedBlocks]
  dsimp only
  exact (unlessFound_sublist _ _ _).append
    ((requestBlocks_sublist _ _ _ _ _).append (executionBlocks_sublist _ _ _))

/-- Qualifying one line is all that can happen to the endpoint line that is found. -/
theorem requalified_modify {i : Nat}
    (hfind : findText? (fun line => (endpointLine? line).isSome) lines = some i) :
    Requalified e lines (lines.modify i (qualifyLine e)) := by
  obtain ⟨front, line, back, rfl, rfl, houtside, hmark, hendpoint, hother⟩ :=
    findText?_eq_some_iff.mp hfind
  obtain ⟨parts, hparts⟩ := Option.isSome_iff_exists.mp hendpoint
  rw [modify_append_cons]
  obtain hsame | ⟨quote, inner, hvalue, hquote, _, hvisible, _, hqualified⟩ :=
    qualifyLine_of_endpointLine (e := e) hparts
  · rw [hsame]
    exact .same
  · obtain ⟨rest, hline, _, _, htrim, _⟩ := endpointLine?_eq_some_iff.mp hparts
    obtain ⟨space, hspace, hblank⟩ := Text.exists_trimEnd_append rest
    have hsplit : line = parts.lead ++ (quote ++ inner ++ quote) ++ space := by
      rw [hline, hspace, ← htrim, hvalue, List.append_assoc parts.lead]
    have hread : endpointLine? line = some ⟨parts.lead, quote ++ inner ++ quote⟩ := by
      rw [hparts, ← hvalue]
    have hlines : front ++ line :: back =
        front ++ (parts.lead ++ (quote ++ inner ++ quote) ++ space) :: back := by
      rw [← hsplit]
    rw [hqualified]
    refine .value hlines houtside (by rwa [← hsplit])
      (by rwa [← hsplit]) (fun other hmem => ?_) hquote hvisible hblank
    simpa using hother other hmem

theorem woven_unlessFound_endpointLine (e : Endpoint) (indent : Text) (lines : List Text) :
    ∃ kept, Requalified e lines kept ∧
      Woven (unlessFound (fun line => (endpointLine? line).isSome) lines [endpointLineOf e indent])
        kept (withEndpoint e indent lines).1 := by
  rw [withEndpoint, unlessFound]
  cases hfind : findText? (fun line => (endpointLine? line).isSome) lines with
  | some i => exact ⟨_, requalified_modify hfind, .refl _⟩
  | none =>
    obtain ⟨more, hperm, hwoven⟩ := (Woven.refl lines).insertAt (by simp)
      [endpointLineOf e indent] ((headerAt? lines).elim 0 (· + 1))
    rw [List.perm_singleton.mp hperm] at hwoven
    exact ⟨lines, .same, hwoven⟩

theorem woven_withEndpoint (e : Endpoint) (indent : Text) (lines : List Text) :
    ∃ kept blocks, Requalified e lines kept ∧ blocks.Sublist [[endpointLineOf e indent]] ∧
      Woven blocks kept (withEndpoint e indent lines).1 := by
  obtain ⟨kept, hkept, hwoven⟩ := woven_unlessFound_endpointLine e indent lines
  exact ⟨kept, _, hkept, unlessFound_sublist _ _ _, hwoven⟩

theorem woven_withHeader {blocks : List (List Text)} {kept : List Text}
    (h : Woven blocks kept lines) (hsingle : ∀ other ∈ blocks, other.length = 1)
    (options : RepairOptions) (indent : Text) (endpointAt : Nat) :
    ∃ more, more.Perm
        (blocks ++ unlessFound isContentTypeHeader lines [headerLineOf options indent]) ∧
      Woven more kept (withHeader options indent endpointAt lines).1 := by
  rw [withHeader, unlessFound]
  split
  · refine ⟨blocks, by rw [List.append_nil], ?_⟩
    dsimp only
    split <;> exact h
  · exact h.insertAt hsingle [headerLineOf options indent] (endpointAt + 1)

/-- The line behind which a request block goes is one of the lines. -/
theorem lt_length_withHeader {endpointAt : Nat} (h : endpointAt < lines.length)
    (options : RepairOptions) (indent : Text) : (withHeader options indent endpointAt lines).2 <
      (withHeader options indent endpointAt lines).1.length := by
  obtain ⟨_, heq | ⟨heq, _, line, hline, _⟩⟩ | ⟨_, heq⟩ :=
    withHeader_cases options indent endpointAt lines
  · rwa [heq]
  · rw [heq]
    exact (List.getElem?_eq_some_iff.mp hline).1
  · rw [heq, length_insertAt]
    exact Nat.add_lt_add_right h 1

theorem exists_lastIndex?_of_test {α : Type} (test : α → Bool) {xs : List α} {j : Nat} {x : α}
    (hj : xs[j]? = some x) (hx : test x = true) :
    ∃ i, lastIndex? test xs = some i ∧ j ≤ i := by
  obtain ⟨hlt, hxj⟩ := List.getElem?_eq_some_iff.mp hj
  have hreverse : xs.reverse[xs.length - 1 - j]? = some x := by
    rw [List.getElem?_reverse (by omega), ← hj]
    congr 1
    omega
  have hsome : (xs.reverse.findIdx? test).isSome = true := by
    rw [List.findIdx?_isSome, List.any_eq_true]
    exact ⟨x, List.mem_of_getElem? hreverse, hx⟩
  obtain ⟨k, hk⟩ := Option.isSome_iff_exists.mp hsome
  refine ⟨xs.length - 1 - k, by rw [lastIndex?, hk]; rfl, ?_⟩
  obtain ⟨hklt, _, hbefore⟩ := List.findIdx?_eq_some_iff_getElem.mp hk
  by_contra hnot
  have hearlier : xs.length - 1 - j < k := by omega
  have hfalse := hbefore _ hearlier
  obtain ⟨hlt', hxr⟩ := List.getElem?_eq_some_iff.mp hreverse
  rw [hxr] at hfalse
  exact hfalse hx

theorem lt_firstThen_of_lastSetupLine? {start i : Nat}
    (h : lastSetupLine? start lines = some i) : i < firstThen lines := by
  rw [lastSetupLine?, Option.map_eq_some_iff] at h
  obtain ⟨j, hj, rfl⟩ := h
  obtain ⟨_, hfound, _⟩ := test_of_lastIndex? hj
  rw [List.getElem?_drop] at hfound
  obtain ⟨hlt, _⟩ := List.getElem?_eq_some_iff.mp hfound
  rw [List.length_take] at hlt
  omega

private theorem lastSetupLine?_eq (start : Nat) (lines : List Text) : lastSetupLine? start lines =
    (lastIndex? (fun marked => isSetup marked.1 || marked.2 = .closing)
      ((((keywords lines).zip (Role.scan lines)).take (firstThen lines)).drop start)).map
        (start + ·) :=
  rfl

/-- The last line of the setup is found if there is any line that can end it. -/
theorem exists_lastSetupLine?_of_marked {start k : Nat} {m : Option Keyword × Role}
    (hk : (marked false lines)[k]? = some m) (hm : (isSetup m.1 || m.2 = .closing) = true)
    (hstart : start ≤ k) (hthen : k < firstThen lines) :
    ∃ i, lastSetupLine? start lines = some i ∧ k ≤ i := by
  obtain ⟨j, rfl⟩ := Nat.exists_eq_add_of_le hstart
  have hzip : ((((keywords lines).zip (Role.scan lines)).take (firstThen lines)).drop start)[j]? =
      some m := by
    rw [List.getElem?_drop, List.getElem?_take_of_lt hthen]
    exact hk
  obtain ⟨i, hi, hle⟩ := exists_lastIndex?_of_test
    (fun marked => isSetup marked.1 || marked.2 = .closing) hzip hm
  exact ⟨start + i, by rw [lastSetupLine?_eq, hi]; rfl, Nat.add_le_add_left hle start⟩

theorem exists_lastSetupLine?_of_closing {start k : Nat}
    (hk : (Role.scan lines)[k]? = some .closing) (hstart : start ≤ k) (hthen : k < firstThen lines) :
    ∃ i, lastSetupLine? start lines = some i ∧ k ≤ i := by
  obtain ⟨hlt, _⟩ := List.getElem?_eq_some_iff.mp hk
  have hlength : (keywords lines).length = (Role.scan lines).length := by
    rw [keywords, List.length_zipWith, Role.scan, Role.length_scanFrom, Nat.min_self]
  obtain ⟨keyword, hkeyword⟩ : ∃ keyword, (keywords lines)[k]? = some keyword :=
    ⟨_, List.getElem?_eq_getElem (hlength ▸ hlt)⟩
  have hmarked : (marked false lines)[k]? = some (keyword, .closing) :=
    List.getElem?_zip_eq_some.mpr ⟨hkeyword, hk⟩
  exact exists_lastSetupLine?_of_marked hmarked (by simp) hstart hthen

theorem textLines_of_unmarked {lines : List Text} (h : ∀ line ∈ lines, hasMark line = false) :
    textLines true lines = [] := by
  induction lines with
  | nil => rfl
  | cons line rest ih =>
    have hline := h line List.mem_cons_self
    rw [textLines_cons, hline, if_neg (by simp), Bool.bne_false]
    exact ih fun other hother => h other (List.mem_cons_of_mem _ hother)

/-- The request block up to its last line opens a docstring, and the request step is the only line
    outside of it. -/
theorem requestBlock_eq_append (hindent : indent.isBlank = true) (body : Json.Value) :
    ∃ front, requestBlock indent body = front ++ [indent ++ docstringMark] ∧
      Role.insideAfter false front = true ∧
      textLines false front = [indent ++ "And request".toList] := by
  have hunmarked := hasMark_lines_pretty hindent body
  have hstep := hasMark_requestStep hindent
  have hmark := hasMark_indent_docstringMark hindent
  refine ⟨[indent ++ "And request".toList, indent ++ docstringMark] ++
    body.pretty.lines.map (indent ++ ·), rfl, ?_, ?_⟩
  · rw [Role.insideAfter_append, insideAfter_of_unmarked hunmarked]
    simp only [Role.insideAfter_cons, Role.insideAfter_nil, hstep, hmark]
    rfl
  · rw [textLines_append, textLines_cons, textLines_cons, hstep, hmark]
    simp only [Role.insideAfter_cons, Role.insideAfter_nil, hstep, hmark]
    exact congrArg (_ :: ·) (textLines_of_unmarked hunmarked)

/-- The request step is the only line of a request block outside its docstring. -/
theorem textLines_requestBlock (hindent : indent.isBlank = true) (body : Json.Value) :
    textLines false (requestBlock indent body) = [indent ++ "And request".toList] := by
  obtain ⟨front, hblock, hinside, htext⟩ := requestBlock_eq_append hindent body
  rw [hblock, textLines_append, hinside, htext, textLines_cons, if_neg (by simp)]
  rfl

theorem scanFrom_requestBlock_last (hindent : indent.isBlank = true) (body : Json.Value) :
    (Role.scanFrom false (requestBlock indent body))[(requestBlock indent body).length - 1]? =
      some .closing := by
  obtain ⟨front, hblock, hinside, _⟩ := requestBlock_eq_append hindent body
  rw [hblock, List.length_append, List.length_singleton, Nat.add_sub_cancel,
    Role.getElem?_scanFrom, List.getElem?_concat_length, List.take_left, hinside,
    Option.map_some, hasMark_indent_docstringMark hindent]
  rfl

theorem requestBlock_ne_nil (indent : Text) (body : Json.Value) :
    0 < (requestBlock indent body).length := by
  simp [requestBlock]

theorem getElem?_firstThen (h : firstThen lines < lines.length) :
    (keywords lines)[firstThen lines]? = some (some .then) := by
  have hlt : (keywords lines).findIdx (· = some .then) < (keywords lines).length := by
    change firstThen lines < (keywordsFrom false lines).length
    rwa [length_keywordsFrom]
  have hthen := List.findIdx_getElem (w := hlt)
  rw [decide_eq_true_eq] at hthen
  rw [firstThen, List.getElem?_eq_getElem hlt, hthen]

/-- A request block holds no assertion, so the first one stands in front of the block or behind
    it. -/
theorem le_firstThen_requestBlock (hindent : indent.isBlank = true) (body : Json.Value)
    {front back : List Text} (houtside : Role.insideAfter false front = false)
    (h : front.length ≤ firstThen (front ++ (requestBlock indent body ++ back))) :
    front.length + (requestBlock indent body).length ≤
      firstThen (front ++ (requestBlock indent body ++ back)) := by
  by_contra hinside
  obtain ⟨k, hk⟩ := Nat.exists_eq_add_of_le h
  rw [hk] at hinside
  have hkeywords : keywords (front ++ (requestBlock indent body ++ back)) =
      keywordsFrom false front ++ (keywordsFrom false (requestBlock indent body) ++
        keywordsFrom (Role.insideAfter false (requestBlock indent body)) back) := by
    rw [keywords, Role.scan, ← keywordsFrom, keywordsFrom_append, houtside, keywordsFrom_append]
  have hlt : k < (requestBlock indent body).length := by
    omega
  have hthen : (keywords (front ++ (requestBlock indent body ++ back)))[
      firstThen (front ++ (requestBlock indent body ++ back))]? = some (some .then) := by
    apply getElem?_firstThen
    rw [hk, List.length_append, List.length_append]
    omega
  rw [hk, hkeywords, List.getElem?_append_right (by rw [length_keywordsFrom]; omega),
    length_keywordsFrom, Nat.add_sub_cancel_left,
    List.getElem?_append_left (by rwa [length_keywordsFrom])] at hthen
  obtain ⟨line, hline, hkeyword⟩ := mem_keywordsFrom_iff.mp (List.mem_of_getElem? hthen)
  rw [textLines_requestBlock hindent, List.mem_singleton] at hline
  rw [hline, Keyword.leading?_append hindent] at hkeyword
  cases hkeyword

/-- The line that sends the request is put in front of a request block or behind it: if the first
    assertion stands behind the block, so does the last line of the setup. -/
theorem lastSetupLine?_requestBlock (hindent : indent.isBlank = true) {start i : Nat}
    (hat : i ≤ lines.length) (houtside : Role.insideAfter false (lines.take i) = false)
    (hstart : start < i) (body : Json.Value) :
    (lastSetupLine? start (insertAt lines i (requestBlock indent body))).getD start + 1 ≤ i ∨
      i + (requestBlock indent body).length ≤
        (lastSetupLine? start (insertAt lines i (requestBlock indent body))).getD start + 1 := by
  have hlength : (lines.take i).length = i := List.length_take_of_le hat
  have hpositive := requestBlock_ne_nil indent body
  rw [insertAt_eq_append]
  by_cases hthen : firstThen (lines.take i ++ (requestBlock indent body ++ lines.drop i)) < i
  · left
    cases hlast : lastSetupLine? start
        (lines.take i ++ (requestBlock indent body ++ lines.drop i)) with
    | none => exact hstart
    | some i =>
      have hlt := lt_firstThen_of_lastSetupLine? hlast
      exact Nat.lt_trans hlt hthen
  · right
    have hbehind := le_firstThen_requestBlock hindent body houtside
      (by rw [hlength]; exact Nat.le_of_not_lt hthen)
    rw [hlength] at hbehind
    have hclosing : (Role.scan (lines.take i ++ (requestBlock indent body ++ lines.drop i)))[
        i + ((requestBlock indent body).length - 1)]? = some .closing := by
      rw [Role.scan, Role.scanFrom_append, Role.scanFrom_append, houtside,
        List.getElem?_append_right (by rw [Role.length_scanFrom, hlength]; omega),
        Role.length_scanFrom, hlength, Nat.add_sub_cancel_left,
        List.getElem?_append_left (by rw [Role.length_scanFrom]; omega)]
      exact scanFrom_requestBlock_last hindent body
    obtain ⟨i, hlast, hle⟩ := exists_lastSetupLine?_of_closing hclosing
      (show start ≤ _ by omega) (by omega)
    rw [hlast, Option.getD_some]
    omega

theorem woven_withExecution {blocks : List (List Text)} {kept : List Text}
    (h : Woven blocks kept lines) (hsingle : ∀ other ∈ blocks, other.length = 1) (e : Endpoint)
    (indent : Text) (endpointAt : Nat) :
    ∃ more, more.Perm (blocks ++ executionBlocks e indent lines) ∧
      Woven more kept (withExecution e indent endpointAt lines) := by
  rw [withExecution, executionBlocks, unlessFound]
  cases e.methodUpper.isEmpty with
  | true => exact ⟨blocks, by simp, h⟩
  | false =>
    cases (findText? isExecutionLine lines).isSome with
    | true => exact ⟨blocks, by simp, h⟩
    | false =>
      exact h.insertAt hsingle [executionLineOf e indent]
        ((lastSetupLine? endpointAt lines).getD endpointAt + 1)

/-- The line that sends the request does not take a request block apart. -/
theorem woven_withExecution_requestBlock {blocks : List (List Text)} {kept : List Text}
    (h : Woven blocks kept lines) (hsingle : ∀ other ∈ blocks, other.length = 1)
    (hindent : indent.isBlank = true) {endpointAt anchor : Nat} (hat : endpointAt ≤ anchor)
    (hanchor : anchor < lines.length)
    (houtside : Role.insideAfter false (lines.take (anchor + 1)) = false) (e : Endpoint)
    (body : Json.Value) :
    ∃ more, more.Perm (blocks ++ requestBlock indent body ::
        executionBlocks e indent (insertAt lines (anchor + 1) (requestBlock indent body))) ∧
      Woven more kept (withExecution e indent endpointAt
        (insertAt lines (anchor + 1) (requestBlock indent body))) := by
  have hput := h.insertAt hsingle (requestBlock indent body) (anchor + 1)
  rw [withExecution, executionBlocks, unlessFound]
  cases e.methodUpper.isEmpty with
  | true => exact hput
  | false =>
    cases (findText? isExecutionLine
        (insertAt lines (anchor + 1) (requestBlock indent body))).isSome with
    | true => exact hput
    | false =>
      have hapart :=
        lastSetupLine?_requestBlock hindent hanchor houtside (Nat.lt_succ_of_le hat) body
      exact h.insertAt_insertAt hsingle (requestBlock indent body) hanchor
        (executionLineOf e indent) hapart

/-- Behind the endpoint line go a header, a request block and the line that sends the request. -/
theorem woven_withRequest {blocks : List (List Text)} {kept : List Text} {endpointAt : Nat}
    (h : Woven blocks kept lines) (hsingle : ∀ other ∈ blocks, other.length = 1)
    (hindent : indent.isBlank = true) (hendpoint : EndpointAt e lines endpointAt)
    (options : RepairOptions) :
    ∃ more, more.Perm (blocks ++ (requestBlocks options e indent endpointAt lines ++
        executionBlocks e indent (withRequest options e indent endpointAt lines))) ∧
      Woven more kept (withExecution e indent endpointAt
        (withRequest options e indent endpointAt lines)) := by
  rw [withRequest, requestBlocks]
  cases e.body? with
  | none => exact woven_withExecution h hsingle e indent endpointAt
  | some body =>
    obtain ⟨headed, hheadedPerm, hheaded⟩ := woven_withHeader h hsingle options indent endpointAt
    have hheadedSingle : ∀ other ∈ headed, other.length = 1 := by
      intro other hother
      rcases List.mem_append.mp (hheadedPerm.subset hother) with hother | hother
      · exact hsingle other hother
      · rw [List.mem_singleton.mp ((unlessFound_sublist _ _ _).subset hother)]
        rfl
    obtain ⟨_, _, hat, houtside⟩ := withHeader_spec hindent hendpoint options
    have hanchor := lt_length_withHeader hendpoint.lt_length options indent
    dsimp only
    split
    · obtain ⟨more, hperm, hwoven⟩ := woven_withExecution hheaded hheadedSingle e indent endpointAt
      refine ⟨more, hperm.trans ?_, hwoven⟩
      rw [List.append_nil, ← List.append_assoc]
      exact hheadedPerm.append_right _
    · obtain ⟨more, hperm, hwoven⟩ := woven_withExecution_requestBlock hheaded
        hheadedSingle hindent hat hanchor houtside e body
      refine ⟨more, hperm.trans ?_, hwoven⟩
      rw [← List.append_assoc, ← List.append_assoc, List.append_assoc _ [requestBlock indent body]]
      exact hheadedPerm.append_right _

/-- The canonical form before its ends are trimmed consists of all the lines and of the inserted
    blocks. -/
theorem woven_insertedBlocks (hpath : '\n' ∉ e.path) (hhost : ∀ host ∈ e.host, '\n' ∉ host)
    (hstep : options.stepIndent.isBlank = true) (lines : List Text) :
    ∃ kept blocks, Requalified e lines kept ∧ blocks.Perm (insertedBlocks options e lines) ∧
      Woven blocks kept (repairedLines options e lines) := by
  have hindent := isBlank_stepIndentOf hstep lines
  rw [repairedLines, insertedBlocks]
  generalize stepIndentOf options lines = indent at hindent ⊢
  obtain ⟨kept, hkept, hwoven⟩ := woven_unlessFound_endpointLine e indent lines
  have hsingle : ∀ other ∈ unlessFound (fun line => (endpointLine? line).isSome) lines
      [endpointLineOf e indent], other.length = 1 := by
    intro other hother
    rw [List.mem_singleton.mp ((unlessFound_sublist _ _ _).subset hother)]
    rfl
  have hendpoint := endpointAt_withEndpoint hindent hhost hpath lines
  obtain ⟨more, hperm, hmore⟩ := woven_withRequest hwoven hsingle hindent hendpoint options
  exact ⟨kept, more, hkept, hperm, hmore⟩

theorem woven_repairedLines (hpath : '\n' ∉ e.path) (hhost : ∀ host ∈ e.host, '\n' ∉ host)
    (hstep : options.stepIndent.isBlank = true) (lines : List Text) :
    ∃ kept blocks, Requalified e lines kept ∧
      blocks.Subperm (insertableBlocks options e (stepIndentOf options lines)) ∧
      Woven blocks kept (repairedLines options e lines) := by
  obtain ⟨kept, blocks, hkept, hperm, hwoven⟩ := woven_insertedBlocks hpath hhost hstep lines
  exact ⟨kept, blocks, hkept,
    hperm.subperm.trans (insertedBlocks_sublist options e lines).subperm, hwoven⟩

end Steps

/-- Only blank lines go at the ends. -/
theorem exists_append_trimLines (lines : List Text) :
    ∃ front back, lines = front ++ trimLines lines ++ back ∧
      ∀ line ∈ front ++ back, line.isBlank = true := by
  rw [trimLines_eq]
  refine ⟨lines.takeWhile Text.isBlank, (lines.dropWhile Text.isBlank).rtakeWhile Text.isBlank,
    ?_, ?_⟩
  · rw [List.append_assoc, List.rdropWhile_append_rtakeWhile, List.takeWhile_append_dropWhile]
  · intro line hline
    rcases List.mem_append.mp hline with hline | hline
    · exact List.mem_takeWhile_imp hline
    · exact List.mem_rtakeWhile_imp hline

theorem not_isBlank_of_trimLines_eq {lines front : List Text} {last : Text}
    (h : trimLines lines = front ++ [last]) : last.isBlank = false := by
  rw [trimLines_eq] at h
  have hne : (lines.dropWhile Text.isBlank).rdropWhile Text.isBlank ≠ [] := by
    rw [h]
    simp
  have hlast := List.rdropWhile_last_not Text.isBlank (lines.dropWhile Text.isBlank) hne
  simpa [h] using hlast

/-- A repair loses nothing.  The lines that it writes are the lines of the text but those of code
    fences, in their order, with at most the value of the first endpoint line qualified, and
    between them blocks that are inserted as a whole, each at most once; blank lines are all that
    may lack at the ends.  The written text ends with one line feed. -/
theorem woven_lines_repair {options : RepairOptions} {e : Endpoint} {text : Text}
    (htext : ∀ line ∈ text.lines, line.getLast? ≠ some '\r') (hpath : '\n' ∉ e.path)
    (hmethod : '\n' ∉ e.method) (hhost : ∀ host ∈ e.host, '\n' ∉ host)
    (hstep : options.stepIndent.isBlank = true) (hstepFeed : '\n' ∉ options.stepIndent)
    (hcontentType : '\n' ∉ options.contentType) :
    (∃ kept blocks front back, Requalified e (fencelessLines text) kept ∧
      blocks.Subperm (insertableBlocks options e (stepIndentOf options (fencelessLines text))) ∧
      Woven blocks kept (front ++ (repair options e text).lines ++ back) ∧
      ∀ line ∈ front ++ back, line.isBlank = true) ∧
    ∃ body last, repair options e text = body ++ [last, '\n'] ∧ last ≠ '\n' := by
  have hreadable : ∀ line ∈ trimLines (repairedLines options e (fencelessLines text)),
      Readable line := by
    intro line hline
    exact readable_of_mem_repairedLines hpath hmethod hhost hstep hstepFeed hcontentType
      (readable_of_mem_fencelessLines htext) line (mem_of_mem_trimLines hline)
  have hne :=
    (settled_repairedLines hhost hpath hstep (fencelessLines text)).trimLines.ne_nil
  have hread : (repair options e text).lines =
      trimLines (repairedLines options e (fencelessLines text)) := by
    rw [repair_eq_unlines options e text hne]
    exact Text.lines_unlines (fun line hline => (hreadable line hline).feed)
      fun line hline => (hreadable line hline).carriage
  constructor
  · obtain ⟨kept, blocks, hkept, hblocks, hwoven⟩ :=
      woven_repairedLines hpath hhost hstep (fencelessLines text)
    obtain ⟨front, back, hsplit, hblank⟩ :=
      exists_append_trimLines (repairedLines options e (fencelessLines text))
    refine ⟨kept, blocks, front, back, hkept, hblocks, ?_, hblank⟩
    rwa [hread, ← hsplit]
  · obtain ⟨front, line, hconcat⟩ := (List.eq_nil_or_concat _).resolve_left hne
    rw [List.concat_eq_append] at hconcat
    have hvisible := not_isBlank_of_trimLines_eq hconcat
    obtain rfl | ⟨start, last, rfl⟩ := List.eq_nil_or_concat line
    · cases hvisible
    · rw [List.concat_eq_append] at hconcat
      refine ⟨Text.unlines front ++ start, last, ?_, ?_⟩
      · rw [repair_eq_unlines options e text hne, hconcat]
        simp [Text.unlines]
      · rintro rfl
        exact (hreadable _ (hconcat ▸ List.mem_append_right _ (List.mem_singleton_self _))).feed
          (by simp)

/-- A scenario in a code fence, whose endpoint line has white space behind an unqualified value and
    which lacks all that a request with a body needs. -/
theorem woven_lines_repair_fenced :
    let e : Endpoint := ⟨"/users".toList, "post".toList, some "api.test".toList,
      some (.object [("name".toList, .string "a".toList)])⟩
    let text := "\x60\x60\x60\n\nScenario: s\n Given url '/users'  \nThen status 200\n\n".toList
    (∃ kept blocks front back, Requalified e (fencelessLines text) kept ∧
      blocks.Subperm
        (insertableBlocks .standard e (stepIndentOf .standard (fencelessLines text))) ∧
      Woven blocks kept (front ++ (repair .standard e text).lines ++ back) ∧
      ∀ line ∈ front ++ back, line.isBlank = true) ∧
    ∃ body last, repair .standard e text = body ++ [last, '\n'] ∧ last ≠ '\n' :=
  woven_lines_repair (by decide) (by decide) (by decide) (by decide) (by decide) (by decide)
    (by decide)

end ScenarioLint.Scenario
