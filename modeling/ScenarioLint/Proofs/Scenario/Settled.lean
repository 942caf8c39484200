import ScenarioLint.Proofs.Scenario.Inserted

/-!
Settled lines: those in which a repair finds everything it looks for.  A repair leaves settled lines
alone, and what it makes of any lines is settled.
-/

namespace ScenarioLint.Scenario

/-- The keyword and the role of each line that follows a place inside or outside a docstring. -/
def marked (inside : Bool) (lines : List Text) : List (Option Keyword × Role) :=
  (keywordsFrom inside lines).zip (Role.scanFrom inside lines)

theorem marked_cons (inside : Bool) (line : Text) (rest : List Text) :
    marked inside (line :: rest) =
      (keywordIn (Role.of inside (hasMark line)) line, Role.of inside (hasMark line)) ::
        marked (inside != hasMark line) rest :=
  rfl

theorem marked_append (inside : Bool) (front back : List Text) :
    marked inside (front ++ back) =
      marked inside front ++ marked (Role.insideAfter inside front) back := by
  rw [marked, keywordsFrom_append, Role.scanFrom_append, List.zip_append (by simp)]
  rfl

/-- A docstring opens under a setup line before the first assertion, where `setup` tells whether the
    line in front is one. -/
def opensUnder (setup : Bool) : List (Option Keyword × Role) → Bool
  | [] => false
  | (keyword, role) :: rest =>
    keyword != some .then && (setup && role = .opening || opensUnder (isSetup keyword) rest)

private theorem any_take_zip_eq_opensUnder (keyword : Option Keyword) :
    ∀ (ks : List (Option Keyword)) (roles : List Role), ks.length = roles.length →
      ((((keyword :: ks).zip roles).take (ks.findIdx (· = some .then))).any
        fun (keyword, next) => isSetup keyword && next = .opening) =
      opensUnder (isSetup keyword) (ks.zip roles) := by
  intro ks
  induction ks generalizing keyword with
  | nil => simp [opensUnder]
  | cons k ks ih =>
    intro roles hlength
    cases roles with
    | nil => cases hlength
    | cons role roles =>
      rw [List.findIdx_cons, List.zip_cons_cons, List.zip_cons_cons, opensUnder]
      by_cases hthen : k = some .then
      · simp [hthen]
      · have hlength' : ks.length = roles.length := Nat.succ.inj hlength
        simp [hthen, ← ih k roles hlength']

/-- The search for a request block as one walk over the lines. -/
theorem hasBodyBlock_eq (lines : List Text) : hasBodyBlock lines =
    ((findText? isRequestStep lines).isSome || opensUnder false (marked false lines)) := by
  rw [hasBodyBlock]
  congr 1
  cases lines with
  | nil => rfl
  | cons line rest =>
    have hrest := any_take_zip_eq_opensUnder
      (keywordIn (Role.of false (hasMark line)) line) (keywordsFrom (hasMark line) rest)
      (Role.scanFrom (hasMark line) rest) (by simp)
    have hkeywords : keywords (line :: rest) =
        keywordIn (Role.of false (hasMark line)) line :: keywordsFrom (hasMark line) rest := by
      simp [keywords, keywordsFrom, Role.scan, Role.scanFrom]
    have htail : (Role.scan (line :: rest)).tail = Role.scanFrom (hasMark line) rest := by
      simp [Role.scan, Role.scanFrom]
    rw [firstThen, hkeywords, htail, marked_cons, opensUnder, Bool.false_bne, Bool.false_and,
      Bool.false_or, List.findIdx_cons]
    by_cases hthen : keywordIn (Role.of false (hasMark line)) line = some .then
    · simp [hthen]
    · have hne : (keywordIn (Role.of false (hasMark line)) line != some .then) = true := by
        simpa using hthen
      simpa [hthen, hne, marked] using hrest

theorem opensUnder_of_setup {setup : Bool} {ms : List (Option Keyword × Role)}
    (h : opensUnder setup ms = true) : opensUnder true ms = true := by
  cases ms with
  | nil => cases h
  | cons m rest =>
    rw [opensUnder, Bool.and_eq_true] at h ⊢
    refine ⟨h.1, ?_⟩
    revert h
    cases setup <;> cases decide (m.2 = Role.opening) <;> simp

/-- One more setup line hides no docstring under the setup. -/
theorem opensUnder_insert_setup {keyword : Keyword} (hsetup : isSetup (some keyword) = true)
    {setup : Bool} {front back : List (Option Keyword × Role)}
    (h : opensUnder setup (front ++ back) = true) :
    opensUnder setup (front ++ (some keyword, .text) :: back) = true := by
  induction front generalizing setup with
  | nil =>
    have hthen : (some keyword != some .then) = true := by
      cases keyword <;> first | rfl | cases hsetup
    rw [List.nil_append] at h ⊢
    rw [opensUnder, hthen, hsetup, opensUnder_of_setup h]
    simp
  | cons m front ih =>
    rw [List.cons_append, opensUnder, Bool.and_eq_true, Bool.or_eq_true] at h ⊢
    exact ⟨h.1, h.2.imp_right ih⟩

theorem opensUnder_concat {setup : Bool} {front : List (Option Keyword × Role)} {role : Role}
    (hrole : role ≠ .opening) :
    opensUnder setup (front ++ [(none, role)]) = opensUnder setup front := by
  induction front generalizing setup with
  | nil => simp [opensUnder, hrole]
  | cons m front ih => rw [List.cons_append, opensUnder, opensUnder, ih]

/-- The first endpoint line, which is outside docstrings and qualified, stands behind `endpointAt` lines. -/
def EndpointAt (e : Endpoint) (lines : List Text) (endpointAt : Nat) : Prop :=
  ∃ front line back, lines = front ++ line :: back ∧ front.length = endpointAt ∧
    Role.insideAfter false front = false ∧ hasMark line = false ∧
    (endpointLine? line).isSome = true ∧ qualifyLine e line = line ∧
    ∀ other ∈ textLines false front, (endpointLine? other).isSome = false

/-- A repair finds all that it looks for. -/
structure Settled (e : Endpoint) (lines : List Text) : Prop where
  endpoint : ∃ endpointAt, EndpointAt e lines endpointAt
  header : e.body? ≠ none → ∃ line ∈ textLines false lines, isContentTypeHeader line = true
  block : e.body? ≠ none → hasBodyBlock lines = true
  execution : e.methodUpper ≠ [] → ∃ line ∈ textLines false lines, isExecutionLine line = true

section Steps

variable {options : RepairOptions} {e : Endpoint} {lines : List Text} {endpointAt : Nat}

theorem EndpointAt.findText? (h : EndpointAt e lines endpointAt) :
    findText? (fun line => (endpointLine? line).isSome) lines = some endpointAt := by
  obtain ⟨front, line, back, hsplit, hlength, houtside, hmark, hendpoint, _, hother⟩ := h
  exact findText?_eq_some_iff.mpr
    ⟨front, line, back, hsplit, hlength, houtside, hmark, hendpoint, hother⟩

theorem modify_append_cons (f : Text → Text) (front : List Text) (line : Text)
    (back : List Text) :
    (front ++ line :: back).modify front.length f = front ++ f line :: back := by
  induction front with
  | nil => rfl
  | cons first front ih => simpa using ih

theorem EndpointAt.withEndpoint_eq (h : EndpointAt e lines endpointAt) (indent : Text) :
    withEndpoint e indent lines = (lines, endpointAt) := by
  have hfind := h.findText?
  obtain ⟨front, line, back, rfl, rfl, _, _, _, hqualified, _⟩ := h
  rw [withEndpoint, hfind]
  dsimp only
  rw [modify_append_cons, hqualified]

/-- No docstring is open behind the endpoint line. -/
theorem EndpointAt.outside (h : EndpointAt e lines endpointAt) :
    Role.insideAfter false (lines.take (endpointAt + 1)) = false := by
  obtain ⟨front, line, back, rfl, rfl, houtside, hmark, _⟩ := h
  rw [List.take_length_add_append, Role.insideAfter_append, houtside]
  simp [hmark]

/-- Lines put in behind the endpoint line leave it the first one. -/
theorem EndpointAt.insertAt (h : EndpointAt e lines endpointAt) {i : Nat} (hi : endpointAt < i)
    (block : List Text) : EndpointAt e (insertAt lines i block) endpointAt := by
  obtain ⟨front, line, back, rfl, rfl, hfound⟩ := h
  refine ⟨front, line, back.take (i - front.length - 1) ++ (block ++ back.drop (i - front.length - 1)),
    ?_, rfl, hfound⟩
  obtain ⟨k, rfl⟩ : ∃ k, i = front.length + (k + 1) := ⟨i - front.length - 1, by omega⟩
  rw [insertAt_eq_append, List.take_length_add_append, List.drop_length_add_append,
    List.take_succ_cons, List.drop_succ_cons]
  simp

theorem test_of_lastIndex? {α : Type} {test : α → Bool} {xs : List α} {i : Nat}
    (h : lastIndex? test xs = some i) : ∃ x, xs[i]? = some x ∧ test x = true := by
  rw [lastIndex?, Option.map_eq_some_iff] at h
  obtain ⟨j, hj, rfl⟩ := h
  obtain ⟨hlt, htest, _⟩ := List.findIdx?_eq_some_iff_getElem.mp hj
  rw [List.getElem_reverse] at htest
  exact ⟨_, List.getElem?_eq_getElem _, htest⟩

theorem getElem?_of_isPrefix {α : Type} {xs ys : List α} (hstarts : xs <+: ys) {i : Nat}
    {x : α} (h : xs[i]? = some x) : ys[i]? = some x := by
  obtain ⟨more, rfl⟩ := hstarts
  obtain ⟨hlt, _⟩ := List.getElem?_eq_some_iff.mp h
  rw [List.getElem?_append_left hlt, h]

/-- A header leads the line under which new lines go. -/
theorem keyword_of_headerAt? {i : Nat} (h : headerAt? lines = some i) :
    ∃ keyword, keyword.isHeader = true ∧
      (keywordsFrom false lines)[i]? = some (some keyword) := by
  have hkeywords : keywords lines = keywordsFrom false lines := rfl
  simp only [headerAt?, hkeywords] at h
  split at h
  · rename_i j hj
    obtain ⟨hlt, htest, _⟩ := List.findIdx?_eq_some_iff_getElem.mp hj
    cases h
    refine ⟨.scenario, rfl, ?_⟩
    rw [List.getElem?_eq_getElem hlt, of_decide_eq_true htest]
  · obtain ⟨found, hfound, hsome⟩ := test_of_lastIndex? h
    obtain ⟨keyword, rfl⟩ := Option.isSome_iff_exists.mp hsome
    have hstep := List.mem_takeWhile_imp (List.mem_of_getElem? hfound)
    exact ⟨keyword, by simpa [isStep] using hstep,
      getElem?_of_isPrefix (List.takeWhile_prefix _) hfound⟩

/-- The header under which new lines go is no part of a docstring. -/
theorem outside_of_headerAt? {i : Nat} (h : headerAt? lines = some i) :
    Role.insideAfter false (lines.take (i + 1)) = false := by
  obtain ⟨keyword, _, hkeyword⟩ := keyword_of_headerAt? h
  exact (Role.outside_of_text (scan_of_keyword hkeyword)).2

theorem lt_of_headerAt? {i : Nat} (h : headerAt? lines = some i) : i < lines.length := by
  obtain ⟨keyword, _, hkeyword⟩ := keyword_of_headerAt? h
  obtain ⟨hlt, _⟩ := List.getElem?_eq_some_iff.mp hkeyword
  rwa [length_keywordsFrom] at hlt

theorem outside_under_header (lines : List Text) :
    (headerAt? lines).elim 0 (· + 1) ≤ lines.length ∧
      Role.insideAfter false (lines.take ((headerAt? lines).elim 0 (· + 1))) = false := by
  cases hheader : headerAt? lines with
  | none => exact ⟨Nat.zero_le _, rfl⟩
  | some i => exact ⟨lt_of_headerAt? hheader, outside_of_headerAt? hheader⟩

/-- Naming the endpoint qualifies the first endpoint line where it stands, or else puts one in under
    a header. -/
theorem withEndpoint_cases (e : Endpoint) (indent : Text) (lines : List Text) :
    (∃ front line back, lines = front ++ line :: back ∧ Role.insideAfter false front = false ∧
      hasMark line = false ∧ (endpointLine? line).isSome = true ∧
      (∀ other ∈ textLines false front, (endpointLine? other).isSome = false) ∧
      withEndpoint e indent lines = (front ++ qualifyLine e line :: back, front.length)) ∨
    findText? (fun line => (endpointLine? line).isSome) lines = none ∧
      withEndpoint e indent lines =
        (insertAt lines ((headerAt? lines).elim 0 (· + 1)) [endpointLineOf e indent],
          (headerAt? lines).elim 0 (· + 1)) := by
  rw [withEndpoint]
  cases hfind : findText? (fun line => (endpointLine? line).isSome) lines with
  | none => exact .inr ⟨rfl, rfl⟩
  | some i =>
    obtain ⟨front, line, back, rfl, rfl, houtside, hmark, hendpoint, hother⟩ :=
      findText?_eq_some_iff.mp hfind
    refine .inl ⟨front, line, back, rfl, houtside, hmark, hendpoint, hother, ?_⟩
    dsimp only
    rw [modify_append_cons]

/-- A content type header is put in behind the endpoint line, if there is none.  Where one stands
    there already, a request block goes behind it. -/
theorem withHeader_cases (options : RepairOptions) (indent : Text) (endpointAt : Nat)
    (lines : List Text) :
    (findText? isContentTypeHeader lines).isSome = true ∧
      (withHeader options indent endpointAt lines = (lines, endpointAt) ∨
        withHeader options indent endpointAt lines = (lines, endpointAt + 1) ∧
          (Role.scan lines)[endpointAt + 1]? = some .text ∧
          ∃ line, lines[endpointAt + 1]? = some line ∧ hasMark line = false ∧
            isContentTypeHeader line = true) ∨
    findText? isContentTypeHeader lines = none ∧
      withHeader options indent endpointAt lines =
        (insertAt lines (endpointAt + 1) [headerLineOf options indent], endpointAt + 1) := by
  rw [withHeader]
  cases hfind : findText? isContentTypeHeader lines with
  | none => exact .inr ⟨rfl, rfl⟩
  | some i =>
    refine .inl ⟨rfl, ?_⟩
    rw [if_pos Option.isSome_some]
    dsimp only
    split
    · rename_i hnext
      rw [Bool.and_eq_true, decide_eq_true_eq] at hnext
      obtain ⟨line, hline, hmark⟩ := Role.exists_line_of_text hnext.1
      rw [List.getD_eq_getElem?_getD, hline, Option.getD_some] at hnext
      exact .inr ⟨rfl, hnext.1, line, hline, hmark, hnext.2⟩
    · exact .inl rfl

/-- The lines with a content type header are the lines, or have one put in behind the endpoint. -/
theorem fst_withHeader_cases (options : RepairOptions) (indent : Text) (endpointAt : Nat)
    (lines : List Text) :
    (withHeader options indent endpointAt lines).1 = lines ∨
      (withHeader options indent endpointAt lines).1 =
        insertAt lines (endpointAt + 1) [headerLineOf options indent] := by
  obtain ⟨_, heq | ⟨heq, _⟩⟩ | ⟨_, heq⟩ := withHeader_cases options indent endpointAt lines
  · exact .inl (congrArg Prod.fst heq)
  · exact .inl (congrArg Prod.fst heq)
  · exact .inr (congrArg Prod.fst heq)

theorem le_of_lastSetupLine? {start i : Nat} (h : lastSetupLine? start lines = some i) :
    start ≤ i := by
  rw [lastSetupLine?, Option.map_eq_some_iff] at h
  obtain ⟨j, _, rfl⟩ := h
  exact Nat.le_add_right start j

/-- The last line of the setup is a step or the end of a docstring. -/
theorem step_or_closing_of_lastSetupLine? {start i : Nat}
    (h : lastSetupLine? start lines = some i) :
    (∃ keyword : Keyword, keyword.isHeader = false ∧
      (keywordsFrom false lines)[i]? = some (some keyword)) ∨
        (Role.scan lines)[i]? = some .closing := by
  rw [lastSetupLine?, Option.map_eq_some_iff] at h
  obtain ⟨j, hj, rfl⟩ := h
  obtain ⟨⟨keyword, role⟩, hfound, htest⟩ := test_of_lastIndex? hj
  rw [List.getElem?_drop] at hfound
  have hzip := getElem?_of_isPrefix (List.take_prefix _ _) hfound
  obtain ⟨hkeyword, hrole⟩ := List.getElem?_zip_eq_some.mp hzip
  simp only [Bool.or_eq_true, decide_eq_true_eq] at htest
  rcases htest with hsetup | rfl
  · cases keyword with
    | none => cases hsetup
    | some keyword =>
      have hheader : keyword.isHeader = false := by cases keyword <;> first | rfl | cases hsetup
      exact .inl ⟨keyword, hheader, hkeyword⟩
  · exact .inr hrole

/-- The last line of the setup leaves no docstring open. -/
theorem outside_of_lastSetupLine? {start i : Nat} (h : lastSetupLine? start lines = some i) :
    Role.insideAfter false (lines.take (i + 1)) = false := by
  rcases step_or_closing_of_lastSetupLine? h with ⟨keyword, _, hkeyword⟩ | hclosing
  · exact (Role.outside_of_text (scan_of_keyword hkeyword)).2
  · exact Role.outside_of_closing hclosing

/-- A repair leaves settled lines as they are. -/
theorem Settled.repairedLines_eq (h : Settled e lines) (options : RepairOptions) :
    repairedLines options e lines = lines := by
  obtain ⟨⟨endpointAt, hendpoint⟩, hheader, hblock, hexecution⟩ := h
  have hrequest : ∀ indent, withRequest options e indent endpointAt lines = lines := by
    intro indent
    rw [withRequest]
    cases hbody : e.body? with
    | none => rfl
    | some body =>
      have hfound := isSome_findText?_iff.mpr (hheader (by simp [hbody]))
      have hkept : (withHeader options indent endpointAt lines).1 = lines := by
        rw [withHeader, if_pos hfound]
        dsimp only
        split <;> rfl
      dsimp only
      rw [hkept, if_pos (hblock (by simp [hbody]))]
  have hsend : ∀ indent, withExecution e indent endpointAt lines = lines := by
    intro indent
    rw [withExecution, if_pos]
    rw [Bool.or_eq_true, List.isEmpty_iff, isSome_findText?_iff]
    by_cases hmethod : e.methodUpper = []
    · exact .inl hmethod
    · exact .inr (hexecution hmethod)
  rw [repairedLines, hendpoint.withEndpoint_eq]
  dsimp only
  rw [hrequest, hsend]

/-- Qualifying the first endpoint line, or making one, settles the endpoint. -/
theorem endpointAt_withEndpoint {indent : Text} (hindent : indent.isBlank = true)
    (hhost : ∀ host ∈ e.host, '\n' ∉ host) (hpath : '\n' ∉ e.path) (lines : List Text) :
    EndpointAt e (withEndpoint e indent lines).1 (withEndpoint e indent lines).2 := by
  obtain ⟨front, line, back, rfl, houtside, hmark, hendpoint, hother, heq⟩ | ⟨hnone, heq⟩ :=
    withEndpoint_cases e indent lines
  · obtain ⟨parts, hparts⟩ := Option.isSome_iff_exists.mp hendpoint
    obtain ⟨⟨value, hagain⟩, hfixed⟩ := endpointLine?_qualifyLine hhost hparts
    have hsome : (endpointLine? (qualifyLine e line)).isSome = true := Option.isSome_of_eq_some hagain
    rw [heq]
    exact ⟨front, qualifyLine e line, back, rfl, rfl, houtside, (plain_of_endpointLine hsome).1,
      hsome, hfixed, hother⟩
  · have hfeed : '\n' ∉ e.fullUrl := Endpoint.not_mem_qualify (by decide) hhost hpath
    have hsome : (endpointLine? (endpointLineOf e indent)).isSome = true :=
      Option.isSome_of_eq_some (endpointLine?_endpointLineOf hindent hfeed)
    obtain ⟨hle, houtside⟩ := outside_under_header lines
    rw [heq]
    generalize (headerAt? lines).elim 0 (· + 1) = i at hle houtside ⊢
    refine ⟨lines.take i, endpointLineOf e indent, lines.drop i, insertAt_eq_append _ _ _,
      List.length_take_of_le hle, houtside, (plain_of_endpointLine hsome).1, hsome,
      qualifyLine_endpointLineOf hindent hfeed, ?_⟩
    intro other hmem
    rw [Bool.eq_false_iff]
    intro hother
    have hfound : (findText? (fun line => (endpointLine? line).isSome) lines).isSome = true := by
      refine isSome_findText?_iff.mpr ⟨other, ?_, hother⟩
      rw [textLines_take_append_drop houtside]
      exact List.mem_append_left _ hmem
    rw [hnone] at hfound
    cases hfound

theorem EndpointAt.lt_length (h : EndpointAt e lines endpointAt) : endpointAt < lines.length := by
  obtain ⟨front, line, back, rfl, rfl, _⟩ := h
  simp

private theorem outside_insertAt {i : Nat} {line : Text} (hi : i ≤ lines.length)
    (houtside : Role.insideAfter false (lines.take i) = false) (hmark : hasMark line = false) :
    Role.insideAfter false ((insertAt lines i [line]).take (i + 1)) = false := by
  have htake : (insertAt lines i [line]).take (i + 1) = lines.take i ++ [line] :=
    take_insertAt hi [line]
  rw [htake, Role.insideAfter_append, houtside]
  simp [hmark]

/-- What a request with a body needs in front of the line that sends it. -/
structure Requested (e : Endpoint) (lines : List Text) (endpointAt : Nat) : Prop where
  endpoint : EndpointAt e lines endpointAt
  header : e.body? ≠ none → ∃ line ∈ textLines false lines, isContentTypeHeader line = true
  block : e.body? ≠ none → hasBodyBlock lines = true

theorem withHeader_spec {indent : Text} (hindent : indent.isBlank = true)
    (h : EndpointAt e lines endpointAt) (options : RepairOptions) :
    EndpointAt e (withHeader options indent endpointAt lines).1 endpointAt ∧
      (∃ line ∈ textLines false (withHeader options indent endpointAt lines).1,
        isContentTypeHeader line = true) ∧
      endpointAt ≤ (withHeader options indent endpointAt lines).2 ∧
      Role.insideAfter false ((withHeader options indent endpointAt lines).1.take
        ((withHeader options indent endpointAt lines).2 + 1)) = false := by
  obtain ⟨hfound, heq | ⟨heq, hrole, _⟩⟩ | ⟨_, heq⟩ :=
    withHeader_cases options indent endpointAt lines
  · rw [heq]
    exact ⟨h, isSome_findText?_iff.mp hfound, Nat.le_refl endpointAt, h.outside⟩
  · rw [heq]
    exact ⟨h, isSome_findText?_iff.mp hfound, Nat.le_succ endpointAt,
      (Role.outside_of_text hrole).2⟩
  · rw [heq]
    have hmark : hasMark (headerLineOf options indent) = false := hasMark_headerLineOf hindent
    have hblock : Role.insideAfter false [headerLineOf options indent] = false := by
      simp [hmark]
    have hat := h.insertAt (Nat.lt_succ_self endpointAt) [headerLineOf options indent]
    refine ⟨hat, ⟨headerLineOf options indent, ?_, isContentTypeHeader_headerLineOf hindent⟩,
      Nat.le_succ endpointAt, outside_insertAt h.lt_length h.outside hmark⟩
    exact mem_textLines_insertAt h.outside hblock (.inr (mem_textLines_singleton hmark))

/-- The lines with a request block hold all that the request needs. -/
theorem requested_withRequest {indent : Text} (hindent : indent.isBlank = true)
    (h : EndpointAt e lines endpointAt) (options : RepairOptions) :
    Requested e (withRequest options e indent endpointAt lines) endpointAt := by
  rw [withRequest]
  cases hbody : e.body? with
  | none => exact ⟨h, fun hne => absurd hbody hne, fun hne => absurd hbody hne⟩
  | some body =>
    obtain ⟨hendpoint, hheader, hle, houtside⟩ := withHeader_spec hindent h options
    dsimp only
    generalize withHeader options indent endpointAt lines = found
      at hendpoint hheader hle houtside ⊢
    split
    · rename_i hblock
      exact ⟨hendpoint, fun _ => hheader, fun _ => hblock⟩
    · have hclosed := insideAfter_requestBlock hindent body
      refine ⟨hendpoint.insertAt (Nat.lt_succ_of_le hle) _, fun _ => ?_, fun _ => ?_⟩
      · obtain ⟨line, hline, htest⟩ := hheader
        exact ⟨line, mem_textLines_insertAt houtside hclosed (.inl hline), htest⟩
      · rw [hasBodyBlock_eq, Bool.or_eq_true, isSome_findText?_iff]
        exact .inl ⟨_, mem_textLines_insertAt houtside hclosed
          (.inr (requestStep_mem_textLines hindent body)), isRequestStep_indent hindent⟩

/-- A setup line, put where no docstring is open, hides no request block. -/
theorem hasBodyBlock_insertAt_setup {line : Text} {keyword : Keyword} (hmark : hasMark line = false)
    (hkeyword : keywordIn .text line = some keyword) (hsetup : isSetup (some keyword) = true)
    {i : Nat} (houtside : Role.insideAfter false (lines.take i) = false)
    (h : hasBodyBlock lines = true) : hasBodyBlock (insertAt lines i [line]) = true := by
  rw [hasBodyBlock_eq, Bool.or_eq_true, isSome_findText?_iff] at h ⊢
  rcases h with ⟨other, hother, htest⟩ | h
  · left
    exact ⟨other, mem_textLines_insertAt houtside (by simp [hmark]) (.inl hother), htest⟩
  · right
    rw [← List.take_append_drop i lines, marked_append, houtside] at h
    rw [insertAt_eq_append, List.cons_append, List.nil_append, marked_append, houtside,
      marked_cons, hmark, Role.of, hkeyword]
    exact opensUnder_insert_setup hsetup h

theorem settled_withExecution {indent : Text} (hindent : indent.isBlank = true)
    (h : Requested e lines endpointAt) : Settled e (withExecution e indent endpointAt lines) := by
  obtain ⟨hendpoint, hheader, hblock⟩ := h
  rw [withExecution]
  split
  · rename_i hfound
    refine ⟨⟨endpointAt, hendpoint⟩, hheader, hblock, fun hmethod => ?_⟩
    rw [Bool.or_eq_true, List.isEmpty_iff, isSome_findText?_iff] at hfound
    exact hfound.resolve_left hmethod
  · rename_i hmissing
    rw [Bool.or_eq_true, List.isEmpty_iff, not_or] at hmissing
    have hmark : hasMark (executionLineOf e indent) = false := hasMark_executionLineOf hindent
    have hclosed : Role.insideAfter false [executionLineOf e indent] = false := by
      simp [hmark]
    have hat : endpointAt < (lastSetupLine? endpointAt lines).getD endpointAt + 1 ∧
        Role.insideAfter false (lines.take ((lastSetupLine? endpointAt lines).getD endpointAt + 1)) =
          false := by
      cases hlast : lastSetupLine? endpointAt lines with
      | none => exact ⟨Nat.lt_succ_self endpointAt, hendpoint.outside⟩
      | some i =>
        exact ⟨Nat.lt_succ_of_le (le_of_lastSetupLine? hlast), outside_of_lastSetupLine? hlast⟩
    dsimp only
    generalize (lastSetupLine? endpointAt lines).getD endpointAt + 1 = i at hat ⊢
    obtain ⟨hlt, houtside⟩ := hat
    refine ⟨⟨endpointAt, hendpoint.insertAt hlt _⟩, fun hbody => ?_, fun hbody => ?_,
      fun hmethod => ?_⟩
    · obtain ⟨line, hline, htest⟩ := hheader hbody
      exact ⟨line, mem_textLines_insertAt houtside hclosed (.inl hline), htest⟩
    · exact hasBodyBlock_insertAt_setup hmark (keywordIn_executionLineOf hindent) rfl houtside
        (hblock hbody)
    · exact ⟨executionLineOf e indent,
        mem_textLines_insertAt houtside hclosed (.inr (mem_textLines_singleton hmark)),
        isExecutionLine_executionLineOf hindent hmethod⟩

theorem isBlank_stepIndentOf (hstep : options.stepIndent.isBlank = true) (lines : List Text) :
    (stepIndentOf options lines).isBlank = true := by
  rw [stepIndentOf]
  split
  · exact Text.isBlank_takeWhile _
  · split
    · rename_i i _
      have hlead := Text.isBlank_takeWhile (lines.getD i [])
      rw [Text.isBlank] at hlead hstep ⊢
      rw [List.all_append, leadOf, hlead, hstep]
      rfl
    · rfl

/-- What a repair makes of any lines is settled. -/
theorem settled_repairedLines (hhost : ∀ host ∈ e.host, '\n' ∉ host) (hpath : '\n' ∉ e.path)
    (hstep : options.stepIndent.isBlank = true) (lines : List Text) :
    Settled e (repairedLines options e lines) := by
  have hindent := isBlank_stepIndentOf hstep lines
  exact settled_withExecution hindent (requested_withRequest hindent
    (endpointAt_withEndpoint hindent hhost hpath lines) options)

end Steps

end ScenarioLint.Scenario
