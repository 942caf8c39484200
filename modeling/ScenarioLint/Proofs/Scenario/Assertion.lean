import ScenarioLint.Proofs.Check.Block
import ScenarioLint.Proofs.Scenario.Preservation

/-!
What a repair does to the assertions of a scenario.  All that it inserts goes where the setup is
still on and leaves it on, unless the endpoint line that it finds is itself one of the assertions.
-/

namespace ScenarioLint.Scenario

open Check

/-- The lines in front of the index leave no docstring open, and the setup is still on there. -/
structure InSetup (lines : List Text) (i : Nat) : Prop where
  outside : Role.insideAfter false (lines.take i) = false
  block : Block.steps.behindAll (textLines false (lines.take i)) = .steps

/-- Lines that assert nothing and change neither the docstrings nor the blocks of other lines if they
    are put into the setup. -/
structure Harmless (block : List Text) : Prop where
  closed : Role.insideAfter false block = false
  quiet : assertionsFrom .steps (textLines false block) = []
  steps : Block.steps.behindAll (textLines false block) = .steps

section Insertion

variable {lines block : List Text} {i j : Nat}

/-- Harmless lines that are put into the setup add no assertion and remove none. -/
theorem assertions_insertAt (h : InSetup lines i) (hblock : Harmless block) :
    assertions (insertAt lines i block) = assertions lines := by
  rw [assertions, assertions, textLines_insertAt h.outside hblock.closed,
    textLines_take_append_drop h.outside, List.append_assoc, assertionsFrom_append, assertionsFrom_append, assertionsFrom_append, h.block,
    hblock.quiet, hblock.steps, List.nil_append]

theorem InSetup.insertAt (h : InSetup lines i) (hij : i ≤ j) (hi : i ≤ lines.length)
    (block : List Text) : InSetup (insertAt lines j block) i := by
  have htake : (Scenario.insertAt lines j block).take i = lines.take i := by
    rw [insertAt_eq_append, List.take_append_of_le_length (by rw [List.length_take]; omega),
      List.take_take, Nat.min_eq_left hij]
  exact ⟨by rw [htake, h.outside], by rw [htake, h.block]⟩

/-- The setup is still on behind harmless lines. -/
theorem InSetup.behind (h : InSetup lines i) (hi : i ≤ lines.length) (hblock : Harmless block) :
    InSetup (Scenario.insertAt lines i block) (i + block.length) := by
  constructor
  · rw [take_insertAt hi, Role.insideAfter_append, h.outside, hblock.closed]
  · rw [take_insertAt hi, textLines_append, h.outside, Block.behindAll_append, h.block,
      hblock.steps]

theorem harmless_singleton {line : Text} (hmark : hasMark line = false)
    (hkeyword : Keyword.leading? line ≠ some .then) : Harmless [line] := by
  have htext : textLines false [line] = [line] := by
    simp [textLines_cons, hmark]
  refine ⟨by simp [hmark], ?_, ?_⟩
  · rw [htext, assertionsFrom_cons, Block.asserts_steps hkeyword]
    rfl
  · rw [htext]
    exact Block.behind_steps hkeyword

/-- The setup is still on in front of any line up to the first assertion. -/
theorem inSetup_of_le_firstThen (houtside : Role.insideAfter false (lines.take i) = false)
    (hi : i ≤ firstThen lines) : InSetup lines i := by
  refine ⟨houtside, Block.behindAll_steps ?_⟩
  intro line hline hthen
  have hkeywords : keywords lines =
      keywordsFrom false (lines.take i) ++ keywordsFrom false (lines.drop i) := by
    have hsplit := keywordsFrom_append false (lines.take i) (lines.drop i)
    rwa [List.take_append_drop, houtside] at hsplit
  obtain ⟨j, hj⟩ := List.mem_iff_getElem?.mp (mem_keywordsFrom_iff.mpr ⟨line, hline, hthen⟩)
  obtain ⟨hlt, _⟩ := List.getElem?_eq_some_iff.mp hj
  have hfound : (keywords lines)[j]? = some (some .then) := by
    rw [hkeywords, List.getElem?_append_left hlt, hj]
  obtain ⟨_, hthenAt⟩ := List.getElem?_eq_some_iff.mp hfound
  rw [length_keywordsFrom, List.length_take] at hlt
  have hbefore : j < (keywords lines).findIdx (· = some .then) :=
    Nat.lt_of_lt_of_le (by omega) hi
  have hnot := List.not_of_lt_findIdx hbefore
  rw [hthenAt, decide_eq_false_iff_not] at hnot
  exact hnot rfl

theorem InSetup.succ {line : Text} (hline : lines[i]? = some line)
    (hmark : hasMark line = false) (houtside : Role.insideAfter false (lines.take i) = false)
    (hblock : (Block.steps.behindAll (textLines false (lines.take i))).behind line = .steps) :
    InSetup lines (i + 1) := by
  constructor
  · rw [Role.insideAfter_take_succ hline, houtside, hmark]
    rfl
  · rw [List.take_add_one, hline, Option.toList_some, textLines_append, houtside, textLines_cons,
      if_pos ⟨rfl, hmark⟩, Block.behindAll_append]
    exact hblock

/-- The setup is on under the header under which new lines go. -/
theorem inSetup_under_header (lines : List Text) :
    InSetup lines ((headerAt? lines).elim 0 (· + 1)) := by
  cases hheader : headerAt? lines with
  | none => exact ⟨rfl, rfl⟩
  | some i =>
    obtain ⟨keyword, hisHeader, hkeyword⟩ := keyword_of_headerAt? hheader
    have hrole := scan_of_keyword hkeyword
    rw [keywordsFrom, List.getElem?_zipWith_eq_some] at hkeyword
    obtain ⟨role, line, hlineRole, hline, hleading⟩ := hkeyword
    obtain rfl : role = .text := Option.some.inj (hlineRole.symm.trans hrole)
    rw [Role.getElem?_scanFrom, hline, Option.map_some, Option.some_inj, Role.of_eq_text_iff]
      at hrole
    rw [keywordIn, if_pos rfl, ← Keyword.leading?] at hleading
    refine InSetup.succ hline hrole.2 hrole.1 ?_
    rw [Block.behind, hleading, Option.elim_some]
    cases keyword with
    | feature => rfl
    | background => rfl
    | scenario => rfl
    | _ => cases hisHeader

end Insertion

section Inserted

variable {options : RepairOptions} {e : Endpoint} {indent : Text}

theorem harmless_of_leading {word rest : Text} (keyword : Keyword) (hindent : indent.isBlank = true)
    (hword : Text.alike word keyword.word = true) (hend : Keyword.endsWord rest = true)
    (hthen : keyword ≠ .then) (hstart : StartsVisibly (word ++ rest)) :
    Harmless [indent ++ (word ++ rest)] := by
  refine harmless_singleton (hasMark_of_startsVisibly hindent hstart) ?_
  rw [Keyword.leading?_of_alike hindent hword hend]
  exact fun heq => hthen (Option.some.inj heq)

theorem harmless_endpointLineOf (hindent : indent.isBlank = true) :
    Harmless [endpointLineOf e indent] := by
  have hline : endpointLineOf e indent =
      indent ++ ("Given".toList ++ (" endpoint \"".toList ++ (e.fullUrl ++ ['"']))) := by
    simp [endpointLineOf]
  rw [hline]
  exact harmless_of_leading .given hindent rfl rfl (by decide) ⟨_, rfl, by decide⟩

theorem harmless_headerLineOf (hindent : indent.isBlank = true) :
    Harmless [headerLineOf options indent] := by
  have hline : headerLineOf options indent = indent ++ ("And".toList ++
      (" header Content-Type = '".toList ++ (options.contentType ++ ['\'']))) := by
    simp [headerLineOf]
  rw [hline]
  exact harmless_of_leading .and hindent rfl rfl (by decide) ⟨_, rfl, by decide⟩

theorem harmless_executionLineOf (hindent : indent.isBlank = true) :
    Harmless [executionLineOf e indent] := by
  have hline : executionLineOf e indent =
      indent ++ ("When".toList ++ (" method ".toList ++ e.methodUpper)) := by
    simp [executionLineOf]
  rw [hline]
  exact harmless_of_leading .when hindent rfl rfl (by decide) ⟨_, rfl, by decide⟩

theorem harmless_requestBlock (hindent : indent.isBlank = true) (body : Json.Value) :
    Harmless (requestBlock indent body) := by
  have hstep : Harmless [indent ++ ("And".toList ++ " request".toList)] :=
    harmless_of_leading .and hindent rfl rfl (by decide) ⟨_, rfl, by decide⟩
  have htext : textLines false (requestBlock indent body) =
      textLines false [indent ++ ("And".toList ++ " request".toList)] := by
    rw [textLines_requestBlock hindent, textLines_cons, if_pos ⟨rfl, hasMark_requestStep hindent⟩]
    rfl
  exact ⟨insideAfter_requestBlock hindent body, htext ▸ hstep.quiet, htext ▸ hstep.steps⟩

end Inserted

/-- The first endpoint line outside docstrings is an assertion. -/
def endpointAsserts (lines : List Text) : Bool :=
  ((withBlocks .steps (textLines false lines)).find? fun (_, line) =>
    (endpointLine? line).isSome).any fun (block, line) => block.asserts line

section Steps

variable {options : RepairOptions} {e : Endpoint} {indent : Text} {lines : List Text}
  {endpointAt : Nat}

theorem asserts_of_endpointAsserts {front back : List Text} {line : Text}
    (hother : ∀ other ∈ textLines false front, (endpointLine? other).isSome = false)
    (houtside : Role.insideAfter false front = false) (hmark : hasMark line = false)
    (hendpoint : (endpointLine? line).isSome = true)
    (h : endpointAsserts (front ++ line :: back) = false) :
    (Block.steps.behindAll (textLines false front)).asserts line = false := by
  have hnone : ((withBlocks .steps (textLines false front)).find? fun (_, line) =>
      (endpointLine? line).isSome) = none := by
    rw [List.find?_eq_none]
    rintro ⟨block, other⟩ hmem
    simp [hother other (mem_of_mem_withBlocks hmem)]
  rw [endpointAsserts, textLines_append_cons back houtside hmark, withBlocks_append,
    List.find?_append, hnone, Option.none_or, withBlocks,
    List.find?_cons_of_pos (by exact hendpoint), Option.any_some] at h
  exact h

/-- If the endpoint line that is found asserts nothing, naming the endpoint is part of the setup. -/
theorem assertions_withEndpoint (hindent : indent.isBlank = true)
    (hhost : ∀ host ∈ e.host, '\n' ∉ host) (h : endpointAsserts lines = false) :
    assertions (withEndpoint e indent lines).1 = assertions lines ∧
      InSetup (withEndpoint e indent lines).1 ((withEndpoint e indent lines).2 + 1) := by
  obtain ⟨front, line, back, rfl, houtside, hmark, hendpoint, hother, heq⟩ | ⟨_, heq⟩ :=
    withEndpoint_cases e indent lines
  · obtain ⟨keyword, _, _, hkeyword⟩ := exists_leading?_of_endpointLine hendpoint
    have hnewKeyword : Keyword.leading? (qualifyLine e line) = some keyword :=
      (leading?_qualifyLine hhost hendpoint).trans hkeyword
    have hnewMark := (plain_of_endpointLine (isSome_endpointLine?_qualifyLine hhost hendpoint)).1
    have hquiet := asserts_of_endpointAsserts hother houtside hmark hendpoint h
    have hnewQuiet : (Block.steps.behindAll (textLines false front)).asserts (qualifyLine e line) =
        false := by
      rw [Block.asserts, hnewKeyword, ← hkeyword]
      exact hquiet
    have hnewSteps := Block.behind_of_not_asserts (hnewKeyword ▸ rfl) hnewQuiet
    rw [heq]
    constructor
    · rw [assertions, assertions, textLines_append_cons back houtside hmark,
        textLines_append_cons back houtside hnewMark, assertionsFrom_append, assertionsFrom_append,
        assertionsFrom_cons, assertionsFrom_cons, hquiet, hnewQuiet, hnewSteps,
        Block.behind_of_not_asserts (hkeyword ▸ rfl) hquiet]
      rfl
    · have hat : (front ++ qualifyLine e line :: back)[front.length]? =
          some (qualifyLine e line) := by
        rw [List.getElem?_append_right (Nat.le_refl _), Nat.sub_self, List.getElem?_cons_zero]
      refine InSetup.succ hat hnewMark ?_ ?_
      · rw [List.take_left, houtside]
      · rw [List.take_left, hnewSteps]
  · obtain ⟨hle, _⟩ := outside_under_header lines
    have hunder := inSetup_under_header lines
    rw [heq]
    exact ⟨assertions_insertAt hunder (harmless_endpointLineOf hindent),
      hunder.behind hle (harmless_endpointLineOf hindent)⟩

theorem assertions_withHeader (hindent : indent.isBlank = true) (h : InSetup lines (endpointAt + 1))
    (hat : endpointAt < lines.length) (options : RepairOptions) :
    assertions (withHeader options indent endpointAt lines).1 = assertions lines ∧
      InSetup (withHeader options indent endpointAt lines).1 (endpointAt + 1) ∧
      InSetup (withHeader options indent endpointAt lines).1
        ((withHeader options indent endpointAt lines).2 + 1) := by
  obtain ⟨_, heq | ⟨heq, hrole, line, hline, hmark, hheader⟩⟩ | ⟨_, heq⟩ :=
    withHeader_cases options indent endpointAt lines
  · rw [heq]
    exact ⟨rfl, h, h⟩
  · rw [heq]
    refine ⟨rfl, h, InSetup.succ hline hmark (Role.outside_of_text hrole).1 ?_⟩
    rw [h.block]
    exact Block.behind_steps
      (leading?_ne_then_of_afterSetup? (isSome_afterSetup?_of_isContentTypeHeader hheader))
  · rw [heq]
    have hharmless : Harmless [headerLineOf options indent] := harmless_headerLineOf hindent
    exact ⟨assertions_insertAt h hharmless, h.insertAt (Nat.le_refl _) hat _,
      h.behind hat hharmless⟩

theorem assertions_withRequest (hindent : indent.isBlank = true)
    (hendpoint : EndpointAt e lines endpointAt) (h : InSetup lines (endpointAt + 1))
    (options : RepairOptions) :
    assertions (withRequest options e indent endpointAt lines) = assertions lines ∧
      InSetup (withRequest options e indent endpointAt lines) (endpointAt + 1) := by
  rw [withRequest]
  cases e.body? with
  | none => exact ⟨rfl, h⟩
  | some body =>
    obtain ⟨hkept, hsetup, hanchor⟩ :=
      assertions_withHeader hindent h hendpoint.lt_length options
    obtain ⟨hendpoint, _, hle, _⟩ := withHeader_spec hindent hendpoint options
    dsimp only
    split
    · exact ⟨hkept, hsetup⟩
    · refine ⟨?_, hsetup.insertAt (Nat.succ_le_succ hle) hendpoint.lt_length _⟩
      rw [assertions_insertAt hanchor (harmless_requestBlock hindent body), hkept]

/-- The line that sends the request goes behind the last line of the setup. -/
theorem assertions_withExecution (hindent : indent.isBlank = true)
    (h : InSetup lines (endpointAt + 1)) (e : Endpoint) :
    assertions (withExecution e indent endpointAt lines) = assertions lines := by
  rw [withExecution]
  split
  · rfl
  · refine assertions_insertAt ?_ (harmless_executionLineOf hindent)
    cases hlast : lastSetupLine? endpointAt lines with
    | none => exact h
    | some i =>
      have hbefore := lt_firstThen_of_lastSetupLine? hlast
      exact inSetup_of_le_firstThen (outside_of_lastSetupLine? hlast) hbefore

theorem assertions_repairedLines (hpath : '\n' ∉ e.path) (hhost : ∀ host ∈ e.host, '\n' ∉ host)
    (hstep : options.stepIndent.isBlank = true) (h : endpointAsserts lines = false) :
    assertions (repairedLines options e lines) = assertions lines := by
  have hindent := isBlank_stepIndentOf hstep lines
  rw [repairedLines]
  generalize stepIndentOf options lines = indent at hindent ⊢
  obtain ⟨hnamed, hsetup⟩ := assertions_withEndpoint hindent hhost h
  have hendpoint := endpointAt_withEndpoint hindent hhost hpath lines
  obtain ⟨hrequested, hbehind⟩ := assertions_withRequest hindent hendpoint hsetup options
  dsimp only
  rw [assertions_withExecution hindent hbehind, hrequested, hnamed]

end Steps

section Writing

theorem core_of_isBlank {lines : List Text} (h : ∀ line ∈ lines, line.isBlank = true) :
    core lines = [] := by
  rw [core, List.map_eq_nil_iff, List.filter_eq_nil_iff]
  intro line hline
  have hkeyword := keywordIn_of_isBlank (h line hline) .text
  rw [keywordIn, if_pos rfl, ← Keyword.leading?] at hkeyword
  simp [isIdle, hasMark_of_isBlank (h line hline), hkeyword]

theorem core_trimLines (lines : List Text) : core (trimLines lines) = core lines := by
  obtain ⟨front, back, hsplit, hblank⟩ := exists_append_trimLines lines
  conv_rhs => rw [hsplit]
  rw [core_append, core_append,
    core_of_isBlank fun line hline => hblank line (List.mem_append_left _ hline),
    core_of_isBlank fun line hline => hblank line (List.mem_append_right _ hline),
    List.nil_append, List.append_nil]

/-- A line that is broken up in front of its first visible character counts as one line. -/
theorem core_pieces {margin t : Text} (hmargin : margin.isBlank = true) (ht : '\n' ∉ t) :
    core ((Text.pieces '\n' (margin ++ t)).map Text.dropReturn) = core [margin ++ t] := by
  induction margin with
  | nil =>
    rw [List.nil_append, Text.pieces_of_not_mem ht]
    exact core_singleton_eq (Text.trim_dropReturn t)
  | cons c margin ih =>
    rw [Text.isBlank, List.all_cons, Bool.and_eq_true] at hmargin
    have hc : Text.isBlank [c] = true := by
      rw [Text.isBlank, List.all_cons, hmargin.1]
      rfl
    have hspaced : ∀ t : Text, core [c :: t] = core [t] :=
      fun t => core_singleton_eq (Text.trim_append_left hc t)
    rw [List.cons_append, hspaced, ← ih hmargin.2]
    by_cases hfeed : c = '\n'
    · rw [hfeed, Text.pieces_cons_self, List.map_cons, core_cons]
      rfl
    · obtain ⟨piece, done, hpieces, hcons⟩ := Text.exists_pieces_cons hfeed (margin ++ t)
      have hdrop : core [Text.dropReturn (c :: piece)] = core [piece.dropReturn] := by
        apply core_singleton_eq
        rw [Text.trim_dropReturn, Text.trim_dropReturn]
        exact Text.trim_append_left hc piece
      rw [hcons, hpieces, List.map_cons, List.map_cons, core_cons, hdrop, ← core_cons]

theorem core_lines_unlines {lines : List Text} (h : ∀ line ∈ lines, '\n' ∉ line.trimStart) :
    core (Text.unlines lines).lines = core lines := by
  rw [Text.lines_unlines_eq]
  induction lines with
  | nil => rfl
  | cons line rest ih =>
    have hline := core_pieces (Text.isBlank_takeWhile line) (h line List.mem_cons_self)
    rw [Text.takeWhile_append_trimStart] at hline
    rw [List.flatMap_cons, List.map_append, core_append, hline,
      ih fun other hother => h other (List.mem_cons_of_mem _ hother), ← core_cons]

variable {options : RepairOptions} {e : Endpoint} {indent : Text}

theorem feed_not_mem_trimStart_of_requalified (hhost : ∀ host ∈ e.host, '\n' ∉ host)
    {lines kept : List Text} (h : Requalified e lines kept) (hlines : ∀ line ∈ lines, '\n' ∉ line) :
    ∀ line ∈ kept, '\n' ∉ line.trimStart := by
  have hstart : ∀ {line : Text}, '\n' ∉ line → '\n' ∉ line.trimStart :=
    fun hline hmem => hline ((List.dropWhile_suffix _).subset hmem)
  cases h with
  | same => exact fun line hline => hstart (hlines line hline)
  | @value front back lead quote inner space hsplit houtside hmark hline hfirst hquote =>
    have hvalue : '\n' ∉ lead ++ (quote ++ inner ++ quote) ++ space :=
      hlines _ (hsplit ▸ List.mem_append_right _ List.mem_cons_self)
    simp only [List.mem_append, not_or] at hvalue
    obtain ⟨⟨hlead, ⟨hopen, hinner⟩, _⟩, _⟩ := hvalue
    have hqualified := Endpoint.not_mem_qualify (by decide) hhost hinner
    intro line hmem
    rw [List.mem_append, List.mem_cons] at hmem
    rcases hmem with hmem | rfl | hmem
    · exact hstart (hlines line (hsplit ▸ List.mem_append_left _ hmem))
    · exact hstart (by simp [hlead, hopen, hqualified])
    · exact hstart (hlines line (hsplit ▸ List.mem_append_right _ (List.mem_cons_of_mem _ hmem)))

/-- Whatever is inserted stays on one line from its first visible character on. -/
theorem feed_not_mem_trimStart_of_inserted (hindent : indent.isBlank = true) (hpath : '\n' ∉ e.path)
    (hmethod : '\n' ∉ e.method) (hhost : ∀ host ∈ e.host, '\n' ∉ host)
    (hcontentType : '\n' ∉ options.contentType) {block : List Text}
    (hblock : block ∈ insertableBlocks options e indent) :
    ∀ line ∈ block, '\n' ∉ line.trimStart := by
  have hstart : ∀ {t : Text}, '\n' ∉ t → '\n' ∉ (indent ++ t).trimStart := by
    intro t ht hmem
    rw [Text.trimStart_append_of_isBlank hindent] at hmem
    exact ht ((List.dropWhile_suffix _).subset hmem)
  have hurl : '\n' ∉ e.fullUrl := Endpoint.not_mem_qualify (by decide) hhost hpath
  have hupper := not_mem_methodUpper rfl hmethod
  simp only [insertableBlocks, List.mem_append, List.mem_cons, List.not_mem_nil, or_false,
    List.mem_map] at hblock
  intro line hline
  rcases hblock with (rfl | rfl) | ⟨body, _, rfl⟩ | rfl
  · rw [List.mem_singleton.mp hline, endpointLineOf, List.append_assoc, List.append_assoc]
    exact hstart (by simp [hurl])
  · rw [List.mem_singleton.mp hline, headerLineOf, List.append_assoc, List.append_assoc]
    exact hstart (by simp [hcontentType])
  · simp only [requestBlock, List.mem_append, List.mem_cons, List.not_mem_nil, or_false,
      List.mem_map] at hline
    rcases hline with ((rfl | rfl) | ⟨inner, hinner, rfl⟩) | rfl
    · exact hstart (by decide)
    · exact hstart (by decide)
    · exact hstart (Text.feed_not_mem_of_mem_lines hinner)
    · exact hstart (by decide)
  · rw [List.mem_singleton.mp hline, executionLineOf, List.append_assoc]
    exact hstart (by simp [hupper])

theorem Woven.mem {blocks : List (List Text)} {lines result : List Text}
    (h : Woven blocks lines result) {line : Text} (hline : line ∈ result) :
    line ∈ lines ∨ ∃ block ∈ blocks, line ∈ block := by
  induction h with
  | nil => cases hline
  | line other _ ih =>
    rw [List.mem_cons] at hline
    rcases hline with rfl | hline
    · exact .inl List.mem_cons_self
    · exact (ih hline).imp_left (List.mem_cons_of_mem _)
  | block other _ ih =>
    rw [List.mem_append] at hline
    rcases hline with hline | hline
    · exact .inr ⟨other, List.mem_cons_self, hline⟩
    · refine (ih hline).imp_right ?_
      rintro ⟨block, hblock, hmem⟩
      exact ⟨block, List.mem_cons_of_mem _ hblock, hmem⟩

theorem isIdle_of_isFence {line : Text} (h : isFence line = true) : isIdle line = true := by
  rw [isFence, List.isPrefixOf_iff_prefix] at h
  obtain ⟨rest, hrest⟩ := h
  rw [isIdle, hasMark, Keyword.leading?, Keyword.detect, ← hrest]
  rfl

theorem core_fencelessLines (text : Text) : core (fencelessLines text) = core text.lines := by
  rw [core, core, fencelessLines, List.filter_filter]
  congr 1
  apply List.filter_congr
  intro line _
  cases hfence : isFence line with
  | false => simp
  | true => simp [isIdle_of_isFence hfence]

/-- The text that a repair writes is read back with the core of the lines that it made. -/
theorem core_lines_repair {text : Text} (hpath : '\n' ∉ e.path) (hmethod : '\n' ∉ e.method)
    (hhost : ∀ host ∈ e.host, '\n' ∉ host) (hstep : options.stepIndent.isBlank = true)
    (hcontentType : '\n' ∉ options.contentType) :
    core (repair options e text).lines =
      core (repairedLines options e (fencelessLines text)) := by
  have hne := (settled_repairedLines hhost hpath hstep (fencelessLines text)).trimLines.ne_nil
  have hfeed : ∀ line ∈ trimLines (repairedLines options e (fencelessLines text)),
      '\n' ∉ line.trimStart := by
    intro line hline
    obtain ⟨kept, blocks, hkept, hblocks, hwoven⟩ :=
      woven_repairedLines hpath hhost hstep (fencelessLines text)
    rcases hwoven.mem (mem_of_mem_trimLines hline) with hline | ⟨block, hblock, hline⟩
    · refine feed_not_mem_trimStart_of_requalified hhost hkept (fun other hother => ?_) line hline
      exact Text.feed_not_mem_of_mem_lines (List.mem_of_mem_filter hother)
    · exact feed_not_mem_trimStart_of_inserted (isBlank_stepIndentOf hstep _) hpath hmethod hhost
        hcontentType (hblocks.subset hblock) line hline
  rw [repair_eq_unlines options e text hne, core_lines_unlines hfeed, core_trimLines]

end Writing

/-- A repair neither makes nor changes an assertion, unless the endpoint line that it finds first is
    one of the assertions: then it may qualify it, and what it puts in behind it asserts as well.
    The indentation of steps may break lines, but the content type may not. -/
theorem assertions_repair {options : RepairOptions} {e : Endpoint} {text : Text}
    (hpath : '\n' ∉ e.path) (hmethod : '\n' ∉ e.method) (hhost : ∀ host ∈ e.host, '\n' ∉ host)
    (hstep : options.stepIndent.isBlank = true) (hcontentType : '\n' ∉ options.contentType)
    (hendpoint : endpointAsserts (fencelessLines text) = false) :
    assertions (repair options e text).lines = assertions text.lines :=
  calc assertions (repair options e text).lines
      = assertions (repairedLines options e (fencelessLines text)) :=
        assertions_eq_of_core (core_lines_repair hpath hmethod hhost hstep hcontentType)
    _ = assertions (fencelessLines text) := assertions_repairedLines hpath hhost hstep hendpoint
    _ = assertions text.lines := assertions_eq_of_core (core_fencelessLines text)

/-- An assertion in front of the endpoint line, whose scenario header ends the block. -/
theorem assertions_repair_second_scenario :
    let e : Endpoint := ⟨"/users".toList, "post".toList, some "api.test".toList,
      some (.object [("then".toList, .string "Then status 500".toList)])⟩
    let text : Text := "Scenario: a\nThen status 404\nScenario: b\nAnd url '/users'\nThen status 200\nAnd match x".toList
    assertions (repair ⟨"text/plain".toList, "\n ".toList⟩ e text).lines = assertions text.lines :=
  assertions_repair (by decide) (by decide) (by decide) (by decide) (by decide) (by decide +kernel)

/-- An endpoint line that continues a block of assertions is qualified, and so changed as an
    assertion. -/
theorem assertions_repair_ne_of_endpoint_asserts :
    let e : Endpoint := ⟨"/p".toList, "GET".toList, some "h".toList, none⟩
    let text : Text := "Scenario: s\nWhen method GET\nThen status 200\nAnd url /p\n".toList
    assertions (repair .standard e text).lines ≠ assertions text.lines := by
  decide +kernel

end ScenarioLint.Scenario
