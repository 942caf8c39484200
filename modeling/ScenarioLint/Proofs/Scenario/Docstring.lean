import ScenarioLint.Proofs.Keyword
import ScenarioLint.Scenario.Repair

/-!
Docstrings of lines that are put together.  The role of a line depends on the lines in front of it
only through the question whether they leave a docstring open.  So lines that leave none open may be
put wherever none is open, and change no role.
-/

namespace ScenarioLint.Scenario

/-- White space at the ends of a line makes no difference to the visible text that it starts with. -/
theorem isPrefixOf_trimStart_trim {mark : Text} (hmark : ∀ c ∈ mark, isSpace c = false)
    (line : Text) : mark.isPrefixOf line.trim.trimStart = mark.isPrefixOf line.trimStart := by
  obtain ⟨ws, hws, hblank⟩ := Text.exists_trimEnd_append line.trimStart
  have htrim : line.trimStart = line.trim ++ ws := hws
  rw [Text.trimStart_trim, htrim, Bool.eq_iff_iff, List.isPrefixOf_iff_prefix,
    List.isPrefixOf_iff_prefix]
  exact (Text.isPrefix_append_iff hmark hblank line.trim).symm

theorem hasMark_trim (line : Text) : hasMark line.trim = hasMark line :=
  isPrefixOf_trimStart_trim (by decide) line

/-- What closes a docstring holds its mark. -/
theorem hasMark_of_trim {line : Text} (h : line.trim = docstringMark) : hasMark line = true := by
  rw [← hasMark_trim, h]
  rfl

theorem trim_ne_docstringMark {line : Text} (h : hasMark line = false) :
    line.trim ≠ docstringMark := by
  intro htrim
  rw [hasMark_of_trim htrim] at h
  cases h

theorem isFence_trim (line : Text) : isFence line.trim = isFence line :=
  isPrefixOf_trimStart_trim (by decide) line

namespace Role

/-- Whether lines leave a docstring open. -/
def insideAfter (inside : Bool) (lines : List Text) : Bool :=
  lines.foldl (fun state line => state != hasMark line) inside

@[simp]
theorem insideAfter_nil (inside : Bool) : insideAfter inside [] = inside :=
  rfl

@[simp]
theorem insideAfter_cons (inside : Bool) (line : Text) (rest : List Text) :
    insideAfter inside (line :: rest) = insideAfter (inside != hasMark line) rest :=
  rfl

theorem insideAfter_append (inside : Bool) (front back : List Text) :
    insideAfter inside (front ++ back) = insideAfter (insideAfter inside front) back :=
  List.foldl_append

/-- A docstring is opened and closed by turns, so the number of marks tells whether one is open. -/
theorem insideAfter_eq_odd (inside : Bool) (lines : List Text) :
    insideAfter inside lines = (inside != decide (lines.countP hasMark % 2 = 1)) := by
  induction lines generalizing inside with
  | nil => cases inside <;> rfl
  | cons line rest ih =>
    rw [insideAfter_cons, ih, List.countP_cons]
    cases hasMark line
    · simp
    · obtain heven | hodd := Nat.mod_two_eq_zero_or_one (rest.countP hasMark)
      · simp [Nat.add_mod, heven]
      · simp [Nat.add_mod, hodd]

@[simp]
theorem length_scanFrom (inside : Bool) (lines : List Text) :
    (scanFrom inside lines).length = lines.length := by
  induction lines generalizing inside with
  | nil => rfl
  | cons line rest ih => rw [scanFrom, List.length_cons, ih, List.length_cons]

/-- The roles of lines that are put together, the later ones from the state in which the earlier
    ones leave the scan. -/
theorem scanFrom_append (inside : Bool) (front back : List Text) :
    scanFrom inside (front ++ back) =
      scanFrom inside front ++ scanFrom (insideAfter inside front) back := by
  induction front generalizing inside with
  | nil => rfl
  | cons line rest ih => rw [List.cons_append, scanFrom, ih, scanFrom, insideAfter_cons, List.cons_append]

/-- The roles depend on nothing but the marks of the lines. -/
theorem scanFrom_eq_of_marks {lines others : List Text}
    (h : lines.map hasMark = others.map hasMark) (inside : Bool) :
    scanFrom inside lines = scanFrom inside others ∧
      insideAfter inside lines = insideAfter inside others := by
  induction lines generalizing others inside with
  | nil => rw [List.map_eq_nil_iff.mp h.symm]; exact ⟨rfl, rfl⟩
  | cons line rest ih =>
    obtain ⟨other, more, rfl, hmark, hrest⟩ := List.map_eq_cons_iff.mp h.symm
    obtain ⟨hscan, hafter⟩ := ih hrest.symm (inside != hasMark line)
    rw [scanFrom, scanFrom, insideAfter_cons, insideAfter_cons, hmark, hscan, hafter]
    exact ⟨rfl, rfl⟩

theorem getElem?_scanFrom (inside : Bool) (lines : List Text) (i : Nat) :
    (scanFrom inside lines)[i]? =
      lines[i]?.map fun line => of (insideAfter inside (lines.take i)) (hasMark line) := by
  induction lines generalizing inside i with
  | nil => rfl
  | cons line rest ih =>
    cases i with
    | zero => rfl
    | succ i => simpa [scanFrom] using ih _ i

theorem of_eq_text_iff {inside marked : Bool} :
    of inside marked = text ↔ inside = false ∧ marked = false := by
  cases inside <;> cases marked <;> simp [of]

theorem of_eq_closing_iff {inside marked : Bool} :
    of inside marked = closing ↔ inside = true ∧ marked = true := by
  cases inside <;> cases marked <;> simp [of]

theorem of_left_injective {inside other marked : Bool} (h : of inside marked = of other marked) :
    inside = other := by
  cases inside <;> cases other <;> cases marked <;> first | rfl | cases h

theorem insideAfter_take_succ {inside : Bool} {lines : List Text} {i : Nat} {line : Text}
    (h : lines[i]? = some line) : insideAfter inside (lines.take (i + 1)) =
      (insideAfter inside (lines.take i) != hasMark line) := by
  rw [List.take_add_one, h, insideAfter_append]
  rfl

/-- No docstring is open on either side of a line that belongs to none. -/
theorem outside_of_text {inside : Bool} {lines : List Text} {i : Nat}
    (h : (scanFrom inside lines)[i]? = some text) :
    insideAfter inside (lines.take i) = false ∧ insideAfter inside (lines.take (i + 1)) = false := by
  rw [getElem?_scanFrom, Option.map_eq_some_iff] at h
  obtain ⟨line, hline, hrole⟩ := h
  obtain ⟨hinside, hmark⟩ := of_eq_text_iff.mp hrole
  rw [insideAfter_take_succ hline, hinside, hmark]
  exact ⟨rfl, rfl⟩

theorem exists_line_of_text {inside : Bool} {lines : List Text} {i : Nat}
    (h : (scanFrom inside lines)[i]? = some text) :
    ∃ line, lines[i]? = some line ∧ hasMark line = false := by
  rw [getElem?_scanFrom, Option.map_eq_some_iff] at h
  obtain ⟨line, hline, hrole⟩ := h
  exact ⟨line, hline, (of_eq_text_iff.mp hrole).2⟩

/-- A line that closes a docstring has the mark, and stands inside one. -/
theorem exists_line_of_closing {inside : Bool} {lines : List Text} {i : Nat}
    (h : (scanFrom inside lines)[i]? = some closing) :
    ∃ line, lines[i]? = some line ∧ hasMark line = true ∧
      insideAfter inside (lines.take i) = true := by
  rw [getElem?_scanFrom, Option.map_eq_some_iff] at h
  obtain ⟨line, hline, hrole⟩ := h
  obtain ⟨hinside, hmark⟩ := of_eq_closing_iff.mp hrole
  exact ⟨line, hline, hmark, hinside⟩

theorem outside_of_closing {inside : Bool} {lines : List Text} {i : Nat}
    (h : (scanFrom inside lines)[i]? = some closing) :
    insideAfter inside (lines.take (i + 1)) = false := by
  obtain ⟨line, hline, hmark, hinside⟩ := exists_line_of_closing h
  rw [insideAfter_take_succ hline, hinside, hmark]
  rfl

theorem take_scanFrom (inside : Bool) (lines : List Text) (i : Nat) :
    (scanFrom inside lines).take i = scanFrom inside (lines.take i) := by
  induction lines generalizing inside i with
  | nil => simp [scanFrom]
  | cons line rest ih =>
    cases i with
    | zero => rfl
    | succ i => rw [scanFrom, List.take_succ_cons, ih, List.take_succ_cons, scanFrom]

theorem drop_scanFrom (inside : Bool) (lines : List Text) (i : Nat) :
    (scanFrom inside lines).drop i =
      scanFrom (insideAfter inside (lines.take i)) (lines.drop i) := by
  induction lines generalizing inside i with
  | nil => simp [scanFrom]
  | cons line rest ih =>
    cases i with
    | zero => rfl
    | succ i => rw [scanFrom, List.drop_succ_cons, ih, List.take_succ_cons, insideAfter_cons,
        List.drop_succ_cons]

/-- The roles of lines tell whether they follow a place inside a docstring, if there are lines. -/
theorem scanFrom_eq_scanFrom_iff {inside other : Bool} {lines : List Text} :
    scanFrom inside lines = scanFrom other lines ↔ inside = other ∨ lines = [] := by
  cases lines with
  | nil => simp [scanFrom]
  | cons line rest =>
    constructor
    · intro h
      exact .inl (of_left_injective (List.cons.inj h).1)
    · rintro (rfl | hnil)
      · rfl
      · cases hnil

/-- No docstring is open behind lines with these roles: there are none, or the last one is text or
    the end of a docstring. -/
def Closed (roles : List Role) : Prop :=
  ∀ role ∈ roles.getLast?, role = text ∨ role = closing

instance (roles : List Role) : Decidable (Closed roles) :=
  inferInstanceAs (Decidable (∀ role ∈ roles.getLast?, role = text ∨ role = closing))

theorem closed_scan_iff {lines : List Text} :
    Closed (scan lines) ↔ insideAfter false lines = false := by
  obtain rfl | ⟨front, line, rfl⟩ := List.eq_nil_or_concat lines
  · simp [Closed, scan, scanFrom]
  · rw [scan, List.concat_eq_append, scanFrom_append, insideAfter_append, scanFrom, scanFrom,
      insideAfter_cons, insideAfter_nil, Closed, List.getLast?_concat]
    simp only [Option.mem_some_iff, forall_eq', of_eq_text_iff, of_eq_closing_iff]
    cases insideAfter false front <;> simp

end Role

/-- The lines outside docstrings among those that follow a place inside or outside one. -/
def textLines (inside : Bool) (lines : List Text) : List Text :=
  ((Role.scanFrom inside lines).zip lines).filterMap fun (role, line) =>
    if role = .text then some line else none

@[simp]
theorem textLines_nil (inside : Bool) : textLines inside [] = [] :=
  rfl

theorem textLines_cons (inside : Bool) (line : Text) (rest : List Text) :
    textLines inside (line :: rest) =
      (if inside = false ∧ hasMark line = false then [line] else []) ++
        textLines (inside != hasMark line) rest := by
  simp only [textLines, Role.scanFrom, List.zip_cons_cons, List.filterMap_cons,
    Role.of_eq_text_iff]
  split <;> split at * <;> simp_all

theorem mem_textLines_singleton {line : Text} (h : hasMark line = false) :
    line ∈ textLines false [line] := by
  simp [textLines_cons, h]

theorem textLines_append (inside : Bool) (front back : List Text) :
    textLines inside (front ++ back) =
      textLines inside front ++ textLines (Role.insideAfter inside front) back := by
  rw [textLines, Role.scanFrom_append, List.zip_append (by simp), List.filterMap_append]
  rfl

/-- A line outside docstrings stands between the lines outside docstrings around it. -/
theorem textLines_append_cons {front : List Text} {line : Text} (back : List Text)
    (houtside : Role.insideAfter false front = false) (hmark : hasMark line = false) :
    textLines false (front ++ line :: back) =
      textLines false front ++ line :: textLines false back := by
  rw [textLines_append, houtside, textLines_cons, if_pos ⟨rfl, hmark⟩, hmark]
  rfl

theorem mem_of_mem_textLines {inside : Bool} {lines : List Text} {line : Text}
    (h : line ∈ textLines inside lines) : line ∈ lines := by
  induction lines generalizing inside with
  | nil => cases h
  | cons first rest ih =>
    rw [textLines_cons, List.mem_append] at h
    rcases h with h | h
    · split at h
      · exact List.mem_singleton.mp h ▸ List.mem_cons_self
      · cases h
    · exact List.mem_cons_of_mem _ (ih h)

private theorem findIdx?_scanFrom_eq_some_iff {test : Text → Bool} {inside : Bool}
    {lines : List Text} {i : Nat} :
    ((Role.scanFrom inside lines).zip lines).findIdx?
        (fun (role, line) => role = .text && test line) = some i ↔
      ∃ front line back, lines = front ++ line :: back ∧ front.length = i ∧
        Role.insideAfter inside front = false ∧ hasMark line = false ∧ test line = true ∧
        ∀ other ∈ textLines inside front, test other = false := by
  induction lines generalizing inside i with
  | nil => simp [Role.scanFrom]
  | cons first rest ih =>
    rw [Role.scanFrom, List.zip_cons_cons, List.findIdx?_cons]
    by_cases hfirst : (inside = false ∧ hasMark first = false) ∧ test first = true
    · obtain ⟨⟨rfl, hmark⟩, htest⟩ := hfirst
      rw [if_pos (by simp [Role.of_eq_text_iff, hmark, htest]), Option.some.injEq]
      constructor
      · rintro rfl
        exact ⟨[], first, rest, rfl, rfl, rfl, hmark, htest, by simp⟩
      · rintro ⟨front, line, back, heq, hlength, _, _, _, hother⟩
        cases front with
        | nil => exact hlength
        | cons other front =>
          obtain ⟨rfl, _⟩ := List.cons.inj heq
          have hnot := hother first (by simp [textLines_cons, hmark])
          rw [htest] at hnot
          cases hnot
    · rw [if_neg (by simpa [Role.of_eq_text_iff, and_assoc] using hfirst), Option.map_eq_some_iff]
      constructor
      · rintro ⟨j, hj, rfl⟩
        obtain ⟨front, line, back, rfl, rfl, hafter, hmark, htest, hother⟩ := ih.mp hj
        refine ⟨first :: front, line, back, rfl, rfl, hafter, hmark, htest, fun other hmem => ?_⟩
        rw [textLines_cons, List.mem_append] at hmem
        rcases hmem with hmem | hmem
        · split at hmem
          · rename_i houtside
            rw [List.mem_singleton.mp hmem]
            exact Bool.eq_false_iff.mpr fun htest => hfirst ⟨houtside, htest⟩
          · cases hmem
        · exact hother other hmem
      · rintro ⟨front, line, back, heq, rfl, hafter, hmark, htest, hother⟩
        cases front with
        | nil =>
          obtain ⟨rfl, rfl⟩ := List.cons.inj heq
          exact absurd ⟨⟨hafter, hmark⟩, htest⟩ hfirst
        | cons other front =>
          obtain ⟨rfl, rfl⟩ := List.cons.inj heq
          refine ⟨front.length, ih.mpr ⟨front, line, back, rfl, rfl, hafter, hmark, htest, ?_⟩, rfl⟩
          intro other hmem
          exact hother other (by simp [textLines_cons, hmem])

/-- The first line outside docstrings that a test accepts, with what stands around it. -/
theorem findText?_eq_some_iff {test : Text → Bool} {lines : List Text} {i : Nat} :
    findText? test lines = some i ↔
      ∃ front line back, lines = front ++ line :: back ∧ front.length = i ∧
        Role.insideAfter false front = false ∧ hasMark line = false ∧ test line = true ∧
        ∀ other ∈ textLines false front, test other = false :=
  findIdx?_scanFrom_eq_some_iff

theorem isSome_findText?_iff {test : Text → Bool} {lines : List Text} :
    (findText? test lines).isSome = true ↔ ∃ line ∈ textLines false lines, test line = true := by
  rw [findText?, List.findIdx?_isSome, List.any_eq_true]
  simp only [textLines, Role.scan, List.mem_filterMap]
  constructor
  · rintro ⟨⟨role, line⟩, hmem, hpair⟩
    simp only [Bool.and_eq_true, decide_eq_true_eq] at hpair
    exact ⟨line, ⟨(role, line), hmem, by simp [hpair.1]⟩, hpair.2⟩
  · rintro ⟨line, ⟨⟨role, other⟩, hmem, hpair⟩, htest⟩
    dsimp only at hpair
    split at hpair
    · cases hpair
      exact ⟨(role, line), hmem, by simp [*]⟩
    · cases hpair

/-- The keywords of lines that follow a place inside or outside a docstring. -/
def keywordsFrom (inside : Bool) (lines : List Text) : List (Option Keyword) :=
  List.zipWith keywordIn (Role.scanFrom inside lines) lines

theorem keywordsFrom_append (inside : Bool) (front back : List Text) :
    keywordsFrom inside (front ++ back) =
      keywordsFrom inside front ++ keywordsFrom (Role.insideAfter inside front) back := by
  rw [keywordsFrom, Role.scanFrom_append, List.zipWith_append (by simp)]
  rfl

@[simp]
theorem length_keywordsFrom (inside : Bool) (lines : List Text) :
    (keywordsFrom inside lines).length = lines.length := by
  simp [keywordsFrom]

theorem take_keywordsFrom (inside : Bool) (lines : List Text) (i : Nat) :
    (keywordsFrom inside lines).take i = keywordsFrom inside (lines.take i) := by
  rw [keywordsFrom, List.take_zipWith, Role.take_scanFrom]
  rfl

theorem keywordsFrom_cons (inside : Bool) (line : Text) (rest : List Text) :
    keywordsFrom inside (line :: rest) = keywordIn (Role.of inside (hasMark line)) line ::
      keywordsFrom (inside != hasMark line) rest :=
  rfl

/-- The keywords of lines are those that lead the lines outside docstrings. -/
theorem mem_keywordsFrom_iff {inside : Bool} {lines : List Text} {keyword : Keyword} :
    some keyword ∈ keywordsFrom inside lines ↔
      ∃ line ∈ textLines inside lines, Keyword.leading? line = some keyword := by
  induction lines generalizing inside with
  | nil => simp [keywordsFrom]
  | cons line rest ih =>
    have hline : some keyword = keywordIn (Role.of inside (hasMark line)) line ↔
        (inside = false ∧ hasMark line = false) ∧ Keyword.leading? line = some keyword := by
      simp only [keywordIn, Role.of_eq_text_iff]
      split
      · rename_i houtside
        simp [houtside, Keyword.leading?, eq_comm]
      · rename_i hinside
        simp [hinside]
    rw [keywordsFrom_cons, textLines_cons, List.mem_cons, ih, hline]
    split
    · rename_i houtside
      simp [houtside]
    · rename_i hinside
      simp [hinside]

/-- A line with a keyword belongs to no docstring. -/
theorem scan_of_keyword {inside : Bool} {lines : List Text} {i : Nat} {keyword : Keyword}
    (h : (keywordsFrom inside lines)[i]? = some (some keyword)) :
    (Role.scanFrom inside lines)[i]? = some .text := by
  rw [keywordsFrom, List.getElem?_zipWith_eq_some] at h
  obtain ⟨role, line, hrole, _, hkeyword⟩ := h
  rw [keywordIn] at hkeyword
  split at hkeyword
  · rename_i htext
    rw [hrole, htext]
  · cases hkeyword

theorem insertAt_eq_append (lines : List Text) (i : Nat) (block : List Text) :
    insertAt lines i block = lines.take i ++ (block ++ lines.drop i) := by
  rw [insertAt, List.append_assoc]

/-- Lines between others have the roles that they have by themselves, and those behind them keep
    theirs, just if neither the lines in front nor the block leave a docstring open to lines behind
    them. -/
theorem Role.scan_append_append_iff (front block back : List Text) :
    scan (front ++ (block ++ back)) =
        scan front ++ (scan block ++ scanFrom (insideAfter false front) back) ↔
      block = [] ∨ insideAfter false front = false ∧
        (insideAfter false block = false ∨ back = []) := by
  rw [scan, scanFrom_append, scan, List.append_right_inj]
  generalize insideAfter false front = place
  have hparts : scanFrom place (block ++ back) = scan block ++ scanFrom place back ↔
      scanFrom place block = scan block ∧
        scanFrom (insideAfter place block) back = scanFrom place back := by
    rw [scanFrom_append]
    exact ⟨fun h => List.append_inj h (by simp [scan]), fun h => by rw [h.1, h.2]⟩
  rw [hparts, scan, scanFrom_eq_scanFrom_iff, scanFrom_eq_scanFrom_iff]
  by_cases hblock : block = []
  · simp [hblock]
  · cases place <;> simp [hblock]

/-- Put lines into others: all keep their roles just if the place is behind text, behind the end of
    a docstring or in front, and the new lines leave no docstring open to lines behind them.  They
    leave none open just if the number of marks among them is even. -/
theorem Role.scan_insertAt_iff (lines block : List Text) (i : Nat) :
    (scan (insertAt lines i block) =
        (scan lines).take i ++ scan block ++ (scan lines).drop i ↔
      block = [] ∨ Closed ((scan lines).take i) ∧
        (Closed (scan block) ∨ lines.length ≤ i)) ∧
    (Closed (scan block) ↔ block.countP hasMark % 2 = 0) := by
  have htake : (scan lines).take i = scan (lines.take i) := take_scanFrom false lines i
  have hdrop : (scan lines).drop i =
      scanFrom (insideAfter false (lines.take i)) (lines.drop i) := drop_scanFrom false lines i
  constructor
  · rw [insertAt_eq_append, htake, hdrop, List.append_assoc, scan_append_append_iff,
      closed_scan_iff, closed_scan_iff, List.drop_eq_nil_iff]
  · rw [closed_scan_iff, insideAfter_eq_odd]
    simp

/-- A docstring in front of one that is never closed. -/
theorem Role.scan_insertAt_iff_unclosed :
    let lines := ["x".toList, docstringMark, "y".toList]
    let block := [docstringMark, "z".toList, docstringMark]
    Closed ((scan lines).take 1) ∧ Closed (scan block) ∧ ¬ Closed (scan lines) ∧
      scan (insertAt lines 1 block) = (scan lines).take 1 ++ scan block ++ (scan lines).drop 1 := by
  intro lines block
  have hplace : Closed ((scan lines).take 1) := by decide
  have hblock : Closed (scan block) := by decide
  exact ⟨hplace, hblock, by decide,
    (scan_insertAt_iff lines block 1).1.mpr (.inr ⟨hplace, .inl hblock⟩)⟩

theorem take_insertAt {lines : List Text} {i : Nat} (h : i ≤ lines.length)
    (block : List Text) :
    (insertAt lines i block).take (i + block.length) = lines.take i ++ block := by
  rw [insertAt]
  apply List.take_left'
  rw [List.length_append, List.length_take_of_le h]

/-- Lines cut where no docstring is open keep their roles. -/
theorem textLines_take_append_drop {lines : List Text} {i : Nat}
    (h : Role.insideAfter false (lines.take i) = false) :
    textLines false lines = textLines false (lines.take i) ++ textLines false (lines.drop i) := by
  conv_lhs => rw [← List.take_append_drop i lines, textLines_append, h]

/-- Lines that leave no docstring open, put where none is open, change no role. -/
theorem textLines_insertAt {lines block : List Text} {i : Nat}
    (hat : Role.insideAfter false (lines.take i) = false)
    (hblock : Role.insideAfter false block = false) :
    textLines false (insertAt lines i block) =
      textLines false (lines.take i) ++ textLines false block ++
        textLines false (lines.drop i) := by
  rw [insertAt_eq_append, textLines_append, textLines_append, hat, hblock, List.append_assoc]

theorem mem_textLines_insertAt {lines block : List Text} {i : Nat} {line : Text}
    (hat : Role.insideAfter false (lines.take i) = false)
    (hblock : Role.insideAfter false block = false)
    (h : line ∈ textLines false lines ∨ line ∈ textLines false block) :
    line ∈ textLines false (insertAt lines i block) := by
  rw [textLines_insertAt hat hblock, List.mem_append, List.mem_append]
  rcases h with h | h
  · rw [textLines_take_append_drop hat, List.mem_append] at h
    rcases h with h | h
    · exact .inl (.inl h)
    · exact .inr h
  · exact .inl (.inr h)

end ScenarioLint.Scenario
