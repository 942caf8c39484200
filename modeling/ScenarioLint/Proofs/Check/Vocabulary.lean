import ScenarioLint.Proofs.Check.Block

/-!
Which lines of a scenario the check of the vocabulary reports.  The check carries the block in which
it stands from line to line, but the block of a line can also be looked up: the nearest keyword in
front of the line that does not continue a block decides it.
-/

namespace ScenarioLint.Check

open Scenario (Role keywordIn keywords)
open Template (Pattern)

/-- The block behind lines that lead with the given keywords. -/
def Block.behindKeywords (block : Block) (found : List (Option Keyword)) : Block :=
  found.foldl (fun block keyword => keyword.elim block block.after) block

/-- The nearest keyword in front of the line with the given index, `And` not counted, is `Then`. -/
def InAssertions (found : List (Option Keyword)) (i : Nat) : Prop :=
  ∃ j < i, found[j]? = some (some .then) ∧
    ∀ k keyword, j < k → k < i → found[k]? = some (some keyword) → keyword = .and

section LookBack

variable {found : List (Option Keyword)} {i : Nat}

theorem Block.behindKeywords_take_succ (block : Block) (found : List (Option Keyword)) (i : Nat) :
    block.behindKeywords (found.take (i + 1)) =
      (found[i]?.getD none).elim (block.behindKeywords (found.take i))
        (block.behindKeywords (found.take i)).after := by
  rw [behindKeywords, List.take_add_one, List.foldl_append, ← behindKeywords]
  cases found[i]? <;> rfl

theorem inAssertions_succ_iff :
    InAssertions found (i + 1) ↔ found[i]? = some (some .then) ∨
      InAssertions found i ∧ ∀ keyword, found[i]? = some (some keyword) → keyword = .and := by
  constructor
  · rintro ⟨j, hj, hthen, hbetween⟩
    by_cases hlast : j = i
    · subst hlast
      exact .inl hthen
    · have hji : j < i := by omega
      refine .inr ⟨⟨j, hji, hthen, fun k keyword hjk hki => ?_⟩, fun keyword => ?_⟩
      · exact hbetween k keyword hjk (by omega)
      · exact hbetween i keyword hji (by omega)
  · rintro (hthen | ⟨⟨j, hj, hthen, hbetween⟩, hlast⟩)
    · exact ⟨i, by omega, hthen, fun k keyword hik hki => by omega⟩
    · refine ⟨j, by omega, hthen, fun k keyword hjk hki hk => ?_⟩
      by_cases hkLast : k = i
      · subst hkLast
        exact hlast keyword hk
      · exact hbetween k keyword hjk (by omega) hk

/-- The block that a scan carries to a line is the one that looking back from the line gives. -/
theorem behindKeywords_take_eq_assertions_iff :
    Block.steps.behindKeywords (found.take i) = .assertions ↔ InAssertions found i := by
  induction i with
  | zero => simp [InAssertions, Block.behindKeywords]
  | succ i ih =>
    rw [inAssertions_succ_iff, ← ih, Block.behindKeywords_take_succ]
    generalize Block.steps.behindKeywords (found.take i) = block
    rcases found[i]? with _ | _ | keyword
    · simp
    · simp
    · cases keyword <;> cases block <;> simp [Block.after]

end LookBack

/-- No pattern of a rulebook that has patterns accepts the line. -/
def Unlisted (patterns : List Pattern) (line : Text) : Prop :=
  patterns ≠ [] ∧ ∀ p ∈ patterns, p.accepts line = false

/-- What is wrong with a line that is neither blank nor part of a docstring. -/
inductive Offends (policy : Policy) (inAssertions : Prop) (line : Text) : Prop
  | noKeyword (hkeyword : Keyword.leading? line = none)
  | disallowed {keyword : Keyword} (hkeyword : Keyword.leading? line = some keyword)
      (hallows : policy.allows keyword = false)
  | step {keyword : Keyword} (hkeyword : Keyword.leading? line = some keyword)
      (hstep : keyword = .given ∨ keyword = .when) (hline : Unlisted policy.steps line)
  | assertion (hkeyword : Keyword.leading? line = some .then)
      (hline : Unlisted policy.assertions line)
  | continuedStep (hkeyword : Keyword.leading? line = some .and) (hblock : ¬ inAssertions)
      (hline : Unlisted policy.steps line)
  | continuedAssertion (hkeyword : Keyword.leading? line = some .and) (hblock : inAssertions)
      (hline : Unlisted policy.assertions line)

section Line

variable {policy : Policy} {context : Context} {block : Block} {role : Role} {line : Text}

theorem unmatched_trim_iff {patterns : List Pattern} :
    unmatched patterns line.trim = true ↔ Unlisted patterns line := by
  simp [unmatched, Unlisted, Pattern.accepts, Text.trim_trim]

/-- Of the lines with an allowed keyword, those are reported that no template of their rulebook
    fits. -/
theorem isSome_templateProblem?_iff {keyword : Keyword} :
    (templateProblem? policy block line.trim keyword).isSome = true ↔
      (keyword = .given ∨ keyword = .when) ∧ Unlisted policy.steps line ∨
      keyword = .then ∧ Unlisted policy.assertions line ∨
      keyword = .and ∧ block ≠ .assertions ∧ Unlisted policy.steps line ∨
      keyword = .and ∧ block = .assertions ∧ Unlisted policy.assertions line := by
  simp only [← unmatched_trim_iff]
  cases keyword <;> cases block <;> simp [templateProblem?]

/-- A line is reported to have no keyword just if none leads it. -/
theorem classify_eq_noKeyword_iff :
    (classify policy block line.trim).2 = some .noKeyword ↔ Keyword.leading? line = none := by
  rw [← Keyword.leading?_trim, Keyword.leading?, classify]
  cases Keyword.detect line.trim with
  | none => simp
  | some found =>
    obtain ⟨keyword, rest⟩ := found
    cases keyword <;> cases block <;> simp [templateProblem?] <;> grind

theorem isSome_classify_iff :
    (classify policy block line.trim).2.isSome = true ↔
      Offends policy (block = .assertions) line := by
  cases hdetect : Keyword.detect line.trim with
  | none =>
    have hkeyword : Keyword.leading? line = none := by
      rw [← Keyword.leading?_trim, Keyword.leading?, hdetect, Option.map_none]
    simp only [classify, hdetect, Option.isSome_some, true_iff]
    exact .noKeyword hkeyword
  | some found =>
    have hkeyword : Keyword.leading? line = some found.1 := by
      rw [← Keyword.leading?_trim, Keyword.leading?, hdetect, Option.map_some]
    simp only [classify, hdetect]
    by_cases hallows : policy.allows found.1 = true
    · rw [if_pos hallows, isSome_templateProblem?_iff]
      constructor
      · rintro (⟨hstep, hline⟩ | ⟨hthen, hline⟩ | ⟨hand, hblock, hline⟩ | ⟨hand, hblock, hline⟩)
        · exact .step hkeyword hstep hline
        · exact .assertion (hthen ▸ hkeyword) hline
        · exact .continuedStep (hand ▸ hkeyword) hblock hline
        · exact .continuedAssertion (hand ▸ hkeyword) hblock hline
      · intro hoffends
        cases hoffends <;> simp_all
    · rw [if_neg hallows]
      simp only [Option.isSome_some, true_iff]
      exact .disallowed hkeyword (Bool.eq_false_iff.mpr hallows)

/-- The problem of a line with a role in a block.  Blank lines and lines of docstrings have none. -/
def problem? (policy : Policy) (block : Block) (role : Role) (line : Text) : Option Problem :=
  if line.trim.isEmpty || role != .text then none else (classify policy block line.trim).2

theorem isSome_problem?_iff :
    (problem? policy block role line).isSome = true ↔
      role = .text ∧ line.isBlank = false ∧ Offends policy (block = .assertions) line := by
  rw [problem?, Text.isEmpty_trim, ← isSome_classify_iff]
  cases line.isBlank <;> cases role <;> simp

/-- One step of the check: the issue of the line, and the check of the rest in the block behind
    it. -/
theorem vocabularyFrom_cons (number : Nat) (rest : List (Role × Text)) :
    vocabularyFrom policy context number block ((role, line) :: rest) =
      ((problem? policy block role line).map (vocabularyIssue context number line.trim)).toList ++
        vocabularyFrom policy context (number + 1)
          ((keywordIn role line).elim block block.after) rest := by
  rw [vocabularyFrom, problem?]
  by_cases hskip : (line.trim.isEmpty || role != .text) = true
  · have hkeyword : keywordIn role line = none := by
      rw [Bool.or_eq_true, Text.isEmpty_trim, bne_iff_ne] at hskip
      rcases hskip with hblank | hrole
      · exact Scenario.keywordIn_of_isBlank hblank role
      · rw [keywordIn, if_neg hrole]
    simp [hskip, hkeyword]
  · have hrole : role = .text := by
      simp at hskip
      exact hskip.2
    have hblock : (keywordIn role line).elim block block.after =
        (classify policy block line.trim).1 := by
      rw [fst_classify, Block.behind_trim, keywordIn, if_pos hrole]
      rfl
    simp [hskip, hblock]

end Line

/-- The issue of the line with the given index among lines with their roles, the first of which has
    the given number. -/
def issueAt? (policy : Policy) (context : Context) (number : Nat) (block : Block)
    (marked : List (Role × Text)) (i : Nat) : Option Issue := do
  let (role, line) ← marked[i]?
  let found := (marked.map fun (role, line) => keywordIn role line).take i
  let problem ← problem? policy (block.behindKeywords found) role line
  some (vocabularyIssue context (number + i) line.trim problem)

/-- The check of the vocabulary looks at every line for itself and at the keywords in front of it. -/
theorem vocabularyFrom_eq_filterMap (policy : Policy) (context : Context) (number : Nat)
    (block : Block) (marked : List (Role × Text)) :
    vocabularyFrom policy context number block marked =
      (List.range marked.length).filterMap (issueAt? policy context number block marked) := by
  induction marked generalizing number block with
  | nil => rfl
  | cons first rest ih =>
    obtain ⟨role, line⟩ := first
    have htail : (issueAt? policy context number block ((role, line) :: rest)) ∘ Nat.succ =
        issueAt? policy context (number + 1) ((keywordIn role line).elim block block.after) rest := by
      funext i
      simp [issueAt?, Block.behindKeywords, Nat.add_assoc, Nat.add_comm 1 i]
    have hhead : issueAt? policy context number block ((role, line) :: rest) 0 =
        (problem? policy block role line).map (vocabularyIssue context number line.trim) := by
      cases hproblem : problem? policy block role line <;>
        simp [issueAt?, Block.behindKeywords, hproblem]
    rw [vocabularyFrom_cons, ih, List.length_cons, List.range_succ_eq_map, List.filterMap_cons,
      hhead, List.filterMap_map, htail]
    cases problem? policy block role line <;> rfl

section Lines

variable {policy : Policy} {context : Context} {lines : List Text} {number i : Nat}

theorem exists_of_issueAt? {block : Block} {marked : List (Role × Text)} {issue : Issue}
    (h : issueAt? policy context number block marked i = some issue) :
    ∃ role line problem, marked[i]? = some (role, line) ∧
      issue = vocabularyIssue context (number + i) line.trim problem := by
  simp only [issueAt?, bind, Option.bind_eq_some_iff] at h
  obtain ⟨⟨role, line⟩, hmarked, problem, _, hissue⟩ := h
  exact ⟨role, line, problem, hmarked, (Option.some.inj hissue).symm⟩

theorem line_of_issueAt? {block : Block} {marked : List (Role × Text)} {issue : Issue}
    (h : issueAt? policy context number block marked i = some issue) :
    issue.line = some (number + i) := by
  obtain ⟨_, _, _, _, rfl⟩ := exists_of_issueAt? h
  rfl

theorem isSome_issueAt?_iff :
    (issueAt? policy context number .steps ((Role.scan lines).zip lines) i).isSome = true ↔
      ∃ line, lines[i]? = some line ∧ (Role.scan lines)[i]? = some .text ∧
        line.isBlank = false ∧ Offends policy (InAssertions (keywords lines) i) line := by
  have hfound : ((Role.scan lines).zip lines).map (fun (role, line) => keywordIn role line) =
      keywords lines := by
    rw [keywords, ← List.map_uncurry_zip_eq_zipWith]
    rfl
  rw [← behindKeywords_take_eq_assertions_iff]
  constructor
  · intro hsome
    obtain ⟨issue, hissue⟩ := Option.isSome_iff_exists.mp hsome
    simp only [issueAt?, hfound, bind, Option.bind_eq_some_iff] at hissue
    obtain ⟨⟨role, line⟩, hmarked, problem, hproblem, _⟩ := hissue
    obtain ⟨hrole, hline⟩ := List.getElem?_zip_eq_some.mp hmarked
    obtain ⟨htext, hblank, hoffends⟩ := isSome_problem?_iff.mp (Option.isSome_of_eq_some hproblem)
    exact ⟨line, hline, htext ▸ hrole, hblank, hoffends⟩
  · rintro ⟨line, hline, hrole, hblank, hoffends⟩
    have hmarked : ((Role.scan lines).zip lines)[i]? = some (.text, line) :=
      List.getElem?_zip_eq_some.mpr ⟨hrole, hline⟩
    obtain ⟨problem, hproblem⟩ :=
      Option.isSome_iff_exists.mp (isSome_problem?_iff.mpr ⟨rfl, hblank, hoffends⟩)
    simp [issueAt?, hfound, hmarked, hproblem]

/-- The numbers of the lines with an issue are those of the places at which there is one. -/
theorem map_line_filterMap {f : Nat → Option Issue}
    (h : ∀ i issue, f i = some issue → issue.line = some (number + i)) (places : List Nat) :
    (places.filterMap f).map Issue.line =
      ((places.filter fun i => (f i).isSome).map (number + ·)).map some := by
  induction places with
  | nil => rfl
  | cons i rest ih =>
    cases hi : f i with
    | none => simpa [hi] using ih
    | some issue => simpa [hi, h i issue hi] using ih

end Lines

/-- The check of the vocabulary reports lines in their order and each at most once: those that are
    neither blank nor part of a docstring and lead with no keyword, or with one that is not allowed,
    or that no template of their rulebook fits.  The rulebook of a line that continues a block is
    decided by the nearest other keyword in front of it. -/
theorem line_vocabulary (policy : Policy) (text : Text) (context : Context) :
    ∃ numbers : List Nat, (vocabulary policy text context).map Issue.line = numbers.map some ∧
      numbers.Pairwise (· < ·) ∧
      ∀ n, n ∈ numbers ↔ ∃ i line, n = i + 1 ∧ text.lines[i]? = some line ∧
        (Role.scan text.lines)[i]? = some .text ∧ line.isBlank = false ∧
        Offends policy (InAssertions (keywords text.lines) i) line := by
  let marked := (Role.scan text.lines).zip text.lines
  let places := (List.range marked.length).filter fun i =>
    (issueAt? policy context 1 .steps marked i).isSome
  refine ⟨places.map (1 + ·), ?_, ?_, fun n => ?_⟩
  · rw [vocabulary, vocabularyFrom_eq_filterMap]
    exact map_line_filterMap (fun i issue hissue => line_of_issueAt? hissue) _
  · refine List.pairwise_map.mpr ((List.pairwise_lt_range.filter _).imp ?_)
    intro a b hab
    omega
  · simp only [places, List.mem_map, List.mem_filter, List.mem_range, marked, isSome_issueAt?_iff]
    constructor
    · rintro ⟨i, ⟨_, line, hline⟩, rfl⟩
      exact ⟨i, line, Nat.add_comm 1 i, hline⟩
    · rintro ⟨i, line, rfl, hline⟩
      refine ⟨i, ⟨?_, line, hline⟩, Nat.add_comm 1 i⟩
      obtain ⟨hlt, _⟩ := List.getElem?_eq_some_iff.mp hline.1
      simpa [Role.scan] using hlt

end ScenarioLint.Check
