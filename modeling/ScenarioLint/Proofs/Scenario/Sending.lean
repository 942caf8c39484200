import ScenarioLint.Proofs.Scenario.RequestBody

/-!
Where the line goes that sends the request.

It goes behind the setup that stands behind the endpoint line, and so behind all that was put in to
set the request up, unless an assertion stands in front of the endpoint line.  Then the setup counts
as over, the search for its last line finds none, and the line goes directly behind the endpoint
line, in front of what was put in there.
-/

namespace ScenarioLint.Scenario

/-- A line outside docstrings leads with the keyword of an assertion. -/
def Asserts (lines : List Text) : Prop :=
  ∃ line ∈ textLines false lines, Keyword.leading? line = some .then

section Setup

variable {front part back lines : List Text}

theorem firstThen_lt_iff (front back : List Text) :
    firstThen (front ++ back) < front.length ↔ Asserts front := by
  have hsplit : firstThen (front ++ back) =
      (keywordsFrom false front ++ keywordsFrom (Role.insideAfter false front) back).findIdx
        (· = some .then) := by
    rw [← keywordsFrom_append]
    rfl
  have hfront : (keywordsFrom false front).findIdx (· = some .then) < front.length ↔
      Asserts front := by
    rw [← length_keywordsFrom false front, List.findIdx_lt_length, Asserts,
      ← mem_keywordsFrom_iff]
    simp
  rw [hsplit, List.findIdx_append, length_keywordsFrom]
  split
  · exact hfront
  · rename_i hnot
    rw [← hfront]
    omega

/-- Where an assertion stands in front, no line counts as the setup. -/
theorem lastSetupLine?_of_asserts (h : Asserts front) (back : List Text) :
    lastSetupLine? front.length (front ++ back) = none := by
  rw [Option.eq_none_iff_forall_ne_some]
  intro i hlast
  have hthen := (firstThen_lt_iff front back).mpr h
  have hle := le_of_lastSetupLine? hlast
  have hlt := lt_firstThen_of_lastSetupLine? hlast
  omega

/-- Lines with whole docstrings that assert nothing. -/
structure Quiet (lines : List Text) : Prop where
  silent : ¬ Asserts lines
  closed : Role.insideAfter false lines = false

theorem Quiet.append (hfront : Quiet front) (hback : Quiet back) : Quiet (front ++ back) := by
  constructor
  · rintro ⟨line, hline, hthen⟩
    rw [textLines_append, hfront.closed] at hline
    exact (List.mem_append.mp hline).elim (fun hmem => hfront.silent ⟨line, hmem, hthen⟩)
      fun hmem => hback.silent ⟨line, hmem, hthen⟩
  · rw [Role.insideAfter_append, hfront.closed, hback.closed]

theorem quiet_nil : Quiet [] :=
  ⟨nofun, rfl⟩

theorem quiet_singleton {line : Text} (hmark : hasMark line = false)
    (h : Keyword.leading? line ≠ some .then) : Quiet [line] := by
  constructor
  · rintro ⟨other, hother, hthen⟩
    rw [List.mem_singleton.mp (mem_of_mem_textLines hother)] at hthen
    exact h hthen
  · simp [hmark]

/-- The line is a step of the setup, or ends a docstring. -/
def endsSetup (inside : Bool) (line : Text) : Bool :=
  let role := Role.of inside (hasMark line)
  isSetup (keywordIn role line) || role = .closing

theorem not_isBlank_of_endsSetup {inside : Bool} {line : Text} (h : endsSetup inside line = true) :
    line.isBlank = false := by
  rw [Bool.eq_false_iff]
  intro hblank
  rw [endsSetup, hasMark_of_isBlank hblank, keywordIn_of_isBlank hblank] at h
  cases inside <;> cases h

/-- Quiet lines that end with a line of the setup. -/
structure SetsUp (lines : List Text) : Prop extends Quiet lines where
  last : ∃ init line, lines = init ++ [line] ∧
    endsSetup (Role.insideAfter false init) line = true

theorem SetsUp.append_left (h : SetsUp part) (hfront : Quiet front) : SetsUp (front ++ part) := by
  refine ⟨hfront.append h.toQuiet, ?_⟩
  obtain ⟨_, init, line, rfl, hlast⟩ := h
  refine ⟨front ++ init, line, (List.append_assoc _ _ _).symm, ?_⟩
  rwa [Role.insideAfter_append, hfront.closed]

theorem setsUp_singleton {line : Text} (hmark : hasMark line = false)
    (hsetup : isSetup (keywordIn .text line) = true) : SetsUp [line] := by
  refine ⟨quiet_singleton hmark fun hthen => ?_, [], line, rfl, ?_⟩
  · rw [keywordIn, if_pos rfl, ← Keyword.leading?, hthen] at hsetup
    cases hsetup
  · rw [endsSetup, Role.insideAfter_nil, hmark]
    exact Bool.or_eq_true_iff.mpr (.inl hsetup)

theorem setsUp_requestBlock {indent : Text} (hindent : indent.isBlank = true)
    (body : Json.Value) : SetsUp (requestBlock indent body) := by
  obtain ⟨init, hblock, hinside, _⟩ := requestBlock_eq_append hindent body
  refine ⟨⟨?_, insideAfter_requestBlock hindent body⟩, init, _, hblock, ?_⟩
  · rintro ⟨line, hline, hthen⟩
    rw [textLines_requestBlock hindent, List.mem_singleton] at hline
    rw [hline, Keyword.leading?_append hindent] at hthen
    cases hthen
  · rw [endsSetup, hinside, hasMark_indent_docstringMark hindent]
    simp [Role.of]

/-- Behind lines that assert nothing, the setup ends at the end of a part of it or later. -/
theorem SetsUp.exists_lastSetupLine? (h : SetsUp part) (hfront : Quiet front)
    (back : List Text) :
    ∃ i, lastSetupLine? front.length (front ++ part ++ back) = some i ∧
      front.length + part.length ≤ i + 1 := by
  have hsilent := (h.append_left hfront).silent
  obtain ⟨_, init, line, rfl, hlast⟩ := h
  have hlength : (marked false (front ++ init)).length = front.length + init.length := by
    rw [marked, List.length_zip, length_keywordsFrom, Role.length_scanFrom, Nat.min_self,
      List.length_append]
  have hinside : Role.insideAfter false (front ++ init) = Role.insideAfter false init := by
    rw [Role.insideAfter_append, hfront.closed]
  have hmarked : (marked false (front ++ (init ++ [line]) ++ back))[front.length + init.length]? =
      some (keywordIn (Role.of (Role.insideAfter false init) (hasMark line)) line,
        Role.of (Role.insideAfter false init) (hasMark line)) := by
    rw [← List.append_assoc, List.append_assoc, List.singleton_append, marked_append, marked_cons,
      hinside, ← hlength, List.getElem?_append_right (Nat.le_refl _), Nat.sub_self,
      List.getElem?_cons_zero]
  have hthen : front.length + init.length <
      firstThen (front ++ (init ++ [line]) ++ back) := by
    have hnot := mt (firstThen_lt_iff (front ++ (init ++ [line])) back).mp hsilent
    rw [List.length_append, List.length_append, List.length_singleton] at hnot
    omega
  obtain ⟨i, hi, hle⟩ :=
    exists_lastSetupLine?_of_marked hmarked hlast (Nat.le_add_right _ _) hthen
  refine ⟨i, hi, ?_⟩
  rw [List.length_append, List.length_singleton]
  omega

theorem setsUp_endpointLine {line : Text} (h : (endpointLine? line).isSome = true) :
    SetsUp [line] := by
  obtain ⟨keyword, hthen, hheader, hleading⟩ := exists_leading?_of_endpointLine h
  refine setsUp_singleton (plain_of_endpointLine h).1 ?_
  rw [keywordIn, if_pos rfl, ← Keyword.leading?, hleading]
  cases keyword <;> first | rfl | exact absurd rfl hthen | cases hheader

end Setup

section Layout

variable {options : RepairOptions} {e : Endpoint} {indent line : Text}
  {front part core back lines : List Text} {endpointAt : Nat}

/-- The header that is put in, if there is none. -/
def headerLines (options : RepairOptions) (indent : Text) (lines : List Text) : List Text :=
  (unlessFound isContentTypeHeader lines [headerLineOf options indent]).flatten

/-- What is put in behind the endpoint line to set the request up. -/
def setupLines (options : RepairOptions) (e : Endpoint) (indent : Text) (endpointAt : Nat)
    (lines : List Text) : List Text :=
  (requestBlocks options e indent endpointAt lines).flatten

/-- A header stands directly behind the endpoint line, or is passed over. -/
def IsPassed (between : List Text) : Prop :=
  between = [] ∨ ∃ line, between = [line] ∧ hasMark line = false ∧ isContentTypeHeader line = true

theorem IsPassed.quiet {between : List Text} (h : IsPassed between) : Quiet between := by
  rcases h with rfl | ⟨line, rfl, hmark, hheader⟩
  · exact quiet_nil
  · exact quiet_singleton hmark
      (leading?_ne_then_of_afterSetup? (isSome_afterSetup?_of_isContentTypeHeader hheader))

theorem fst_withHeader (options : RepairOptions) (indent : Text) (front : List Text) (line : Text)
    (back : List Text) :
    (withHeader options indent front.length (front ++ line :: back)).1 =
      front ++ line :: (headerLines options indent (front ++ line :: back) ++ back) := by
  rw [withHeader, headerLines, unlessFound]
  split
  · dsimp only
    split <;> rfl
  · dsimp only
    rw [insertAt_append_add]
    rfl

/-- The place of a request block: behind the header that is put in, or else behind one that stands
    there. -/
theorem exists_snd_withHeader (options : RepairOptions) (indent : Text) (front : List Text)
    (line : Text) (back : List Text) :
    ∃ between rest, back = between ++ rest ∧ IsPassed between ∧
      headerLines options indent (front ++ line :: back) ++ back =
        between ++ (headerLines options indent (front ++ line :: back) ++ rest) ∧
      (withHeader options indent front.length (front ++ line :: back)).2 =
        front.length + (between ++ headerLines options indent (front ++ line :: back)).length := by
  rw [withHeader, headerLines, unlessFound]
  split
  · dsimp only
    split
    · rename_i hnext
      rw [Bool.and_eq_true, decide_eq_true_eq] at hnext
      obtain ⟨htext, hheader⟩ := hnext
      obtain ⟨header, hget, hmark⟩ := Role.exists_line_of_text htext
      rw [List.getD_eq_getElem?_getD, hget, Option.getD_some] at hheader
      rw [List.getElem?_append_right (Nat.le_add_right _ _), Nat.add_sub_cancel_left,
        List.getElem?_cons_succ] at hget
      cases back with
      | nil => cases hget
      | cons first rest =>
        obtain rfl := Option.some.inj hget
        exact ⟨[first], rest, rfl, .inr ⟨first, rfl, hmark, hheader⟩, rfl, rfl⟩
    · exact ⟨[], back, rfl, .inl rfl, rfl, rfl⟩
  · exact ⟨[], back, rfl, .inl rfl, rfl, rfl⟩

theorem headerLines_eq (hindent : indent.isBlank = true) (options : RepairOptions)
    (lines : List Text) :
    headerLines options indent lines = [] ∨ SetsUp (headerLines options indent lines) := by
  rw [headerLines, unlessFound]
  split
  · exact .inl rfl
  · exact .inr (setsUp_singleton (hasMark_headerLineOf hindent)
      (by rw [keywordIn_headerLineOf hindent]; rfl))

/-- All that is put in for the request stands in one piece behind the endpoint line, and with it ends
    a part of the setup. -/
theorem exists_withRequest_eq (hindent : indent.isBlank = true)
    (hline : (endpointLine? line).isSome = true) (options : RepairOptions) (e : Endpoint)
    (front back : List Text) :
    ∃ between rest, back = between ++ rest ∧ IsPassed between ∧
      SetsUp (line :: (between ++
        setupLines options e indent front.length (front ++ line :: back))) ∧
      withRequest options e indent front.length (front ++ line :: back) =
        front ++ line :: (between ++
          setupLines options e indent front.length (front ++ line :: back) ++ rest) := by
  have hendpoint := setsUp_endpointLine hline
  rw [withRequest, setupLines, requestBlocks]
  cases e.body? with
  | none => exact ⟨[], back, rfl, .inl rfl, hendpoint, rfl⟩
  | some body =>
    have hheaded := fst_withHeader options indent front line back
    dsimp only
    rw [List.flatten_append, ← headerLines]
    have hheader := headerLines_eq hindent options (front ++ line :: back)
    split
    · refine ⟨[], back, rfl, .inl rfl, ?_, ?_⟩
      · rcases hheader with hnone | hheader
        · simpa [hnone] using hendpoint
        · simpa using hheader.append_left hendpoint.toQuiet
      · rw [hheaded]
        simp
    · obtain ⟨between, rest, hback, hpassed, hmoved, hplace⟩ :=
        exists_snd_withHeader options indent front line back
      refine ⟨between, rest, hback, hpassed, ?_, ?_⟩
      · have hquiet : Quiet (headerLines options indent (front ++ line :: back)) :=
          hheader.elim (fun hnone => hnone ▸ quiet_nil) SetsUp.toQuiet
        have hsetsUp := (setsUp_requestBlock hindent body).append_left
          (hendpoint.toQuiet.append (hpassed.quiet.append hquiet))
        simpa using hsetsUp
      · generalize headerLines options indent (front ++ line :: back) = header
          at hheaded hplace hmoved ⊢
        have hput : insertAt (line :: (between ++ header ++ rest)) ((between ++ header).length + 1)
            (requestBlock indent body) =
            line :: (between ++ header ++ (requestBlock indent body ++ rest)) :=
          congrArg (line :: ·) (insertAt_length_append _ _ _)
        rw [hheaded, hplace, hmoved, Nat.add_assoc, insertAt_append_add, ← List.append_assoc between,
          hput]
        simp

theorem withExecution_eq (h : executionBlocks e indent lines ≠ []) (endpointAt : Nat) :
    withExecution e indent endpointAt lines =
      insertAt lines ((lastSetupLine? endpointAt lines).getD endpointAt + 1)
        [executionLineOf e indent] := by
  rw [withExecution, if_neg]
  · rfl
  · rw [executionBlocks, unlessFound] at h
    rw [Bool.or_eq_true, not_or]
    constructor <;> intro hnone
    · exact h (if_pos hnone)
    · rw [if_pos hnone, ite_self] at h
      exact h rfl

/-- Behind quiet lines, the line that sends the request goes behind a part of the setup. -/
theorem withExecution_of_quiet (hfront : Quiet front) (hpart : SetsUp part)
    (hsends : executionBlocks e indent (front ++ part ++ back) ≠ []) :
    ∃ mid rest, back = mid ++ rest ∧
      withExecution e indent front.length (front ++ part ++ back) =
        front ++ part ++ (mid ++ executionLineOf e indent :: rest) := by
  obtain ⟨i, hlast, hle⟩ := hpart.exists_lastSetupLine? hfront back
  rw [← List.length_append] at hle
  obtain ⟨k, hk⟩ := Nat.exists_eq_add_of_le hle
  refine ⟨back.take k, back.drop k, (List.take_append_drop k back).symm, ?_⟩
  rw [withExecution_eq hsends, hlast, Option.getD_some, hk, insertAt_append_add, insertAt_eq_append]
  rfl

/-- Behind an assertion, it goes directly behind the endpoint line. -/
theorem withExecution_of_asserts (hfront : Asserts front)
    (hsends : executionBlocks e indent (front ++ line :: back) ≠ []) :
    withExecution e indent front.length (front ++ line :: back) =
      front ++ line :: executionLineOf e indent :: back := by
  rw [withExecution_eq hsends, lastSetupLine?_of_asserts hfront, Option.getD_none,
    insertAt_append_add]
  rfl

/-- What has been put in is not lost when the ends are trimmed. -/
theorem trimLines_of_setsUp (hline : line.isBlank = false) {other : Text}
    (hother : other.isBlank = false) {inner : List Text} (h : SetsUp (line :: inner))
    (front back : List Text) :
    trimLines (front ++ line :: other :: (inner ++ back)) =
      front.dropWhile Text.isBlank ++
        line :: other :: (inner ++ back.rdropWhile Text.isBlank) := by
  obtain ⟨_, init, last, hsplit, hlast⟩ := h
  have hvisible := not_isBlank_of_endsSetup hlast
  cases init with
  | nil =>
    obtain ⟨_, rfl⟩ := List.cons.inj hsplit
    exact trimLines_append_cons hline hother []
  | cons first init =>
    obtain ⟨_, rfl⟩ := List.cons.inj hsplit
    have htrim : trimLines (front ++ line :: (other :: init ++ last :: back)) = _ :=
      trimLines_append_cons hline hvisible (other :: init)
    simpa using htrim

end Layout

/-- The lines with the endpoint line, and its index. -/
def namedLines (options : RepairOptions) (e : Endpoint) (lines : List Text) : List Text × Nat :=
  withEndpoint e (stepIndentOf options lines) lines

/-- The blocks that a repair puts in to set the request up. -/
def setupBlocks (options : RepairOptions) (e : Endpoint) (lines : List Text) : List (List Text) :=
  requestBlocks options e (stepIndentOf options lines) (namedLines options e lines).2
    (namedLines options e lines).1

/-- The line that a repair puts in to send the request, if there is none. -/
def sendingBlocks (options : RepairOptions) (e : Endpoint) (lines : List Text) :
    List (List Text) :=
  let indent := stepIndentOf options lines
  executionBlocks e indent
    (withRequest options e indent (namedLines options e lines).2 (namedLines options e lines).1)

theorem trimLines_repairedLines_of_sends {options : RepairOptions} {e : Endpoint}
    {lines : List Text} (hpath : '\n' ∉ e.path) (hhost : ∀ host ∈ e.host, '\n' ∉ host)
    (hstep : options.stepIndent.isBlank = true) (hsends : sendingBlocks options e lines ≠ []) :
    let setup := (setupBlocks options e lines).flatten
    let sent := executionLineOf e (stepIndentOf options lines)
    ∃ front endpoint between mid back,
      namedLines options e lines =
        (front ++ endpoint :: (between ++ (mid ++ back)), front.length) ∧
      IsPassed between ∧
      (¬ Asserts front → trimLines (repairedLines options e lines) =
        front.dropWhile Text.isBlank ++
          endpoint :: (between ++ setup ++ mid ++ sent :: back.rdropWhile Text.isBlank)) ∧
      (Asserts front → mid = [] ∧ trimLines (repairedLines options e lines) =
        front.dropWhile Text.isBlank ++
          endpoint :: sent :: (between ++ setup ++ back.rdropWhile Text.isBlank)) := by
  have hindent := isBlank_stepIndentOf hstep lines
  have hsent : (executionLineOf e (stepIndentOf options lines)).isBlank = false := by
    rw [Bool.eq_false_iff]
    intro hblank
    have hkeyword := keywordIn_executionLineOf (e := e) hindent
    rw [keywordIn_of_isBlank hblank] at hkeyword
    cases hkeyword
  obtain ⟨front, endpoint, behind, hfound, hlength, hclosed, _, hendpoint, _⟩ :=
    endpointAt_withEndpoint hindent hhost hpath lines
  have hnamed : namedLines options e lines = (front ++ endpoint :: behind, front.length) :=
    Prod.ext hfound hlength.symm
  have hvisible := not_isBlank_of_endpointLine hendpoint
  rw [setupBlocks, repairedLines, ← namedLines]
  rw [sendingBlocks] at hsends
  dsimp only at hsends ⊢
  rw [hnamed] at hsends ⊢
  dsimp only at hsends ⊢
  rw [← setupLines]
  generalize stepIndentOf options lines = indent at hindent hsent hsends ⊢
  obtain ⟨between, rest, rfl, hpassed, hsetsUp, hrequest⟩ :=
    exists_withRequest_eq hindent hendpoint options e front behind
  rw [hrequest] at hsends ⊢
  generalize setupLines options e indent front.length (front ++ endpoint :: (between ++ rest)) =
    setup at hsetsUp hsends ⊢
  by_cases hasserts : Asserts front
  · refine ⟨front, endpoint, between, [], rest, rfl, hpassed, absurd hasserts,
      fun _ => ⟨rfl, ?_⟩⟩
    rw [withExecution_of_asserts hasserts hsends, trimLines_of_setsUp hvisible hsent hsetsUp]
  · have hsplit : front ++ endpoint :: (between ++ setup ++ rest) =
        front ++ endpoint :: (between ++ setup) ++ rest := by
      simp
    rw [hsplit] at hsends ⊢
    obtain ⟨mid, back, rfl, hexecution⟩ :=
      withExecution_of_quiet ⟨hasserts, hclosed⟩ hsetsUp hsends
    refine ⟨front, endpoint, between, mid, back, rfl, hpassed, fun _ => ?_,
      fun hnot => absurd hnot hasserts⟩
    have htrim : trimLines (front ++ endpoint :: (between ++ setup ++ mid ++ _ :: back)) = _ :=
      trimLines_append_cons hvisible hsent (between ++ setup ++ mid)
    rw [hexecution, ← htrim]
    simp

/-- A repair that puts in the line that sends the request has put in all that sets the request up
    directly behind the endpoint line, or behind a header that stands there.  The line that sends the
    request follows, perhaps behind more of the setup, if no assertion stands in front of the endpoint
    line; otherwise it goes directly behind the endpoint line, and what sets the request up follows
    the line that sends it. -/
theorem repair_eq_of_sends {options : RepairOptions} {e : Endpoint} {text : Text}
    (hpath : '\n' ∉ e.path) (hhost : ∀ host ∈ e.host, '\n' ∉ host)
    (hstep : options.stepIndent.isBlank = true)
    (hsends : sendingBlocks options e (fencelessLines text) ≠ []) :
    let lines := fencelessLines text
    let setup := (setupBlocks options e lines).flatten
    let sent := executionLineOf e (stepIndentOf options lines)
    ∃ front endpoint between mid back,
      namedLines options e lines =
        (front ++ endpoint :: (between ++ (mid ++ back)), front.length) ∧
      IsPassed between ∧
      (¬ Asserts front → repair options e text = Text.unlines (front.dropWhile Text.isBlank ++
        endpoint :: (between ++ setup ++ mid ++ sent :: back.rdropWhile Text.isBlank))) ∧
      (Asserts front → mid = [] ∧ repair options e text = Text.unlines
        (front.dropWhile Text.isBlank ++
          endpoint :: sent :: (between ++ setup ++ back.rdropWhile Text.isBlank))) := by
  intro lines setup sent
  have hne := (settled_repairedLines hhost hpath hstep lines).trimLines.ne_nil
  obtain ⟨front, endpoint, between, mid, back, hnamed, hpassed, hquiet, hasserts⟩ :=
    trimLines_repairedLines_of_sends hpath hhost hstep hsends
  refine ⟨front, endpoint, between, mid, back, hnamed, hpassed, fun h => ?_, fun h => ?_⟩
  · rw [repair_eq_unlines options e text hne, hquiet h]
  · obtain ⟨hmid, hlines⟩ := hasserts h
    exact ⟨hmid, by rw [repair_eq_unlines options e text hne, hlines]⟩

/-- A header stands behind the endpoint line, and more of the setup follows. -/
theorem repair_eq_of_sends_header :
    let e : Endpoint := ⟨"/users".toList, "post".toList, some "api.test".toList,
      some (.object [("name".toList, .string "a".toList)])⟩
    let text := ("Scenario: s\n  Given url '/users'\n  * header Content-Type = 'text/plain'\n" ++
      "  And param id = 1\n  Then status 200\n\n").toList
    let lines := fencelessLines text
    let setup := (setupBlocks .standard e lines).flatten
    let sent := executionLineOf e (stepIndentOf .standard lines)
    setup = requestBlock "  ".toList (.object [("name".toList, .string "a".toList)]) ∧
    ∃ front endpoint between mid back,
      namedLines .standard e lines =
        (front ++ endpoint :: (between ++ (mid ++ back)), front.length) ∧
      IsPassed between ∧
      (¬ Asserts front → repair .standard e text = Text.unlines (front.dropWhile Text.isBlank ++
        endpoint :: (between ++ setup ++ mid ++ sent :: back.rdropWhile Text.isBlank))) ∧
      (Asserts front → mid = [] ∧ repair .standard e text = Text.unlines
        (front.dropWhile Text.isBlank ++
          endpoint :: sent :: (between ++ setup ++ back.rdropWhile Text.isBlank))) := by
  intro e text lines setup sent
  exact ⟨by decide +kernel, repair_eq_of_sends (by decide) (by decide) (by decide)
    (by decide +kernel : sendingBlocks .standard e (fencelessLines text) ≠ [])⟩

/-- In a text with two scenarios of which the second one names the endpoint, the request is sent
    before its header and its body are set. -/
theorem repair_sends_in_front_of_setup :
    let body : Json.Value := .object [("a".toList, .number (.integer 1))]
    let e : Endpoint := ⟨"/p".toList, "POST".toList, some "h".toList, some body⟩
    let text := ("Scenario: a\nGiven x\nThen status 200\n" ++
      "Scenario: b\nGiven url /p\nThen status 201\n").toList
    let lines := fencelessLines text
    sendingBlocks .standard e lines = [["When method POST".toList]] ∧
      setupBlocks .standard e lines =
        [["And header Content-Type = 'application/json'".toList], requestBlock [] body] ∧
      repair .standard e text = ("Scenario: a\nGiven x\nThen status 200\n" ++
        "Scenario: b\nGiven url https://h/p\nWhen method POST\n" ++
        "And header Content-Type = 'application/json'\n" ++
        "And request\n\"\"\"\n\x7b\n  \"a\": 1\n\x7d\n\"\"\"\nThen status 201\n").toList := by
  decide +kernel

end ScenarioLint.Scenario
