import ScenarioLint.Keyword
import ScenarioLint.Proofs.Text.Decision
import ScenarioLint.Proofs.Text.Space

/-!
The keyword that leads a line.  White space at the ends of the line makes no difference to it.
-/

namespace ScenarioLint

/-- All white space there is. -/
def spaces : List Char :=
  [' ', '\t', '\n', '\u000b', '\u000c', '\r', '\u0085', '\u00a0', '\u1680', '\u2000', '\u2001',
    '\u2002', '\u2003', '\u2004', '\u2005', '\u2006', '\u2007', '\u2008', '\u2009', '\u200a',
    '\u2028', '\u2029', '\u202f', '\u205f', '\u3000']

private theorem mem_spaces_of_between {c low high : Char} (hlow : low ≤ c) (hhigh : c ≤ high)
    (h : ∀ n ≤ high.toNat - low.toNat, Char.ofNat (low.toNat + n) ∈ spaces) : c ∈ spaces := by
  have hlow : low.toNat ≤ c.toNat := UInt32.le_iff_toNat_le.mp hlow
  have hhigh : c.toNat ≤ high.toNat := UInt32.le_iff_toNat_le.mp hhigh
  have hc := h (c.toNat - low.toNat) (Nat.sub_le_sub_right hhigh _)
  rwa [Nat.add_sub_cancel' hlow, Char.ofNat_toNat] at hc

theorem mem_spaces {c : Char} (h : isSpace c = true) : c ∈ spaces := by
  simp only [isSpace, Bool.or_eq_true, Bool.and_eq_true, beq_iff_eq, decide_eq_true_eq] at h
  obtain (((((((((rfl | ⟨hlow, hhigh⟩) | rfl) | rfl) | rfl) | ⟨hlow, hhigh⟩) | rfl) | rfl) | rfl) |
    rfl) | rfl := h
  case inl.inl.inl.inl.inl.inl.inl.inl.inl.inr => exact mem_spaces_of_between hlow hhigh (by decide)
  case inl.inl.inl.inl.inl.inr => exact mem_spaces_of_between hlow hhigh (by decide)
  all_goals decide

namespace Keyword

/-- The keyword that leads a line. -/
def leading? (line : Text) : Option Keyword :=
  (detect line).map Prod.fst

theorem endsWord_of_isSpace {c : Char} (h : isSpace c = true) (rest : Text) :
    endsWord (c :: rest) = true := by
  have hall : ∀ c ∈ spaces, (!isAlphanumeric c && c != '_') = true := by decide +kernel
  exact hall c (mem_spaces h)

theorem endsWord_of_gap {gap : Text} (hgap : gap ≠ []) (hblank : gap.isBlank = true)
    (rest : Text) : endsWord (gap ++ rest) = true := by
  obtain ⟨c, more, rfl⟩ := List.exists_cons_of_ne_nil hgap
  exact endsWord_of_isSpace (Text.isBlank_iff.mp hblank c List.mem_cons_self) _

/-- White space behind a text ends no word that would otherwise go on. -/
theorem endsWord_append {ws : Text} (hws : ws.isBlank = true) (t : Text) :
    endsWord (t ++ ws) = endsWord t := by
  cases t with
  | cons c rest => rfl
  | nil =>
    cases ws with
    | nil => rfl
    | cons c rest =>
      rw [Text.isBlank, List.all_cons, Bool.and_eq_true] at hws
      exact endsWord_of_isSpace hws.1 rest

/-- What is spelled like a keyword holds no white space. -/
theorem isSpace_of_alike {keyword : Keyword} {t : Text} (h : Text.alike t keyword.word = true) :
    ∀ c ∈ t, isSpace c = false := by
  intro c hc
  rw [Text.alike, beq_iff_eq] at h
  have hmem : c.toLower ∈ keyword.word.toLower := h ▸ List.mem_map_of_mem hc
  have hword : ∀ k ∈ all, ∀ d ∈ k.word.toLower, isSpace d = false := by decide
  have hlower := hword keyword (by cases keyword <;> decide) _ hmem
  rw [Bool.eq_false_iff]
  intro hspace
  have hsame : ∀ c ∈ spaces, c.toLower = c := by decide
  rw [hsame c (mem_spaces hspace), hspace] at hlower
  cases hlower

theorem length_of_alike {a b : Text} (h : Text.alike a b = true) : a.length = b.length := by
  rw [Text.alike, beq_iff_eq] at h
  simpa [Text.toLower] using congrArg List.length h

theorem isSome_rest?_eq (keyword : Keyword) (t : Text) : (keyword.rest? t).isSome =
    (Text.alike (t.take keyword.word.length) keyword.word &&
      endsWord (t.drop keyword.word.length)) := by
  rw [rest?]
  split
  · rename_i h
    exact h.symm
  · rename_i h
    exact (Bool.eq_false_iff.mpr h).symm

/-- White space behind a line makes no difference to whether a keyword leads it. -/
theorem isSome_rest?_append {ws : Text} (hws : ws.isBlank = true) (keyword : Keyword) (t : Text) :
    (keyword.rest? (t ++ ws)).isSome = (keyword.rest? t).isSome := by
  rw [isSome_rest?_eq, isSome_rest?_eq]
  by_cases hsize : keyword.word.length ≤ t.length
  · rw [List.take_append_of_le_length hsize, List.drop_append_of_le_length hsize,
      endsWord_append hws]
  · have hshort : Text.alike (t.take keyword.word.length) keyword.word = false := by
      rw [Bool.eq_false_iff]
      intro halike
      have hlength := length_of_alike halike
      rw [List.length_take] at hlength
      omega
    have hspaced : Text.alike ((t ++ ws).take keyword.word.length) keyword.word = false := by
      rw [Bool.eq_false_iff]
      intro halike
      have hlength := length_of_alike halike
      rw [List.take_append] at halike hlength
      cases hmore : ws.take (keyword.word.length - t.length) with
      | nil =>
        rw [hmore, List.append_nil, List.length_take] at hlength
        omega
      | cons c rest =>
        have hc : c ∈ ws.take (keyword.word.length - t.length) := hmore ▸ List.mem_cons_self
        have hvisible := isSpace_of_alike halike c (List.mem_append_right _ hc)
        rw [Text.isBlank_iff.mp hws c (List.mem_of_mem_take hc)] at hvisible
        cases hvisible
    rw [hshort, hspaced, Bool.false_and, Bool.false_and]

theorem leading?_eq_find? (line : Text) :
    leading? line = all.find? fun keyword => (keyword.rest? line.trimStart).isSome := by
  rw [leading?, detect]
  induction all with
  | nil => rfl
  | cons keyword rest ih =>
    rw [List.findSome?_cons, List.find?_cons]
    cases keyword.rest? line.trimStart with
    | none => exact ih
    | some _ => rfl

theorem eq_of_isPrefix {keyword other : Keyword}
    (h : keyword.word.toLower <+: other.word.toLower) : keyword = other := by
  have hall : ∀ k ∈ all, ∀ j ∈ all, k.word.toLower <+: j.word.toLower → k = j := by decide
  exact hall keyword (by cases keyword <;> decide) other (by cases other <;> decide) h

theorem isSome_rest?_iff {keyword : Keyword} {t : Text} : (keyword.rest? t).isSome = true ↔
    ∃ u rest, t = u ++ rest ∧ Text.alike u keyword.word = true ∧ endsWord rest = true := by
  rw [isSome_rest?_eq, Bool.and_eq_true]
  constructor
  · rintro ⟨hword, hend⟩
    exact ⟨_, _, (List.take_append_drop _ _).symm, hword, hend⟩
  · rintro ⟨u, rest, rfl, hword, hend⟩
    rw [List.take_left' (length_of_alike hword), List.drop_left' (length_of_alike hword)]
    exact ⟨hword, hend⟩

/-- A keyword that is found leads the line, and its word ends in front of the rest. -/
theorem exists_of_detect {line rest : Text} {keyword : Keyword}
    (h : detect line = some (keyword, rest)) :
    ∃ u, line.trimStart = u ++ rest ∧ Text.alike u keyword.word = true ∧ endsWord rest = true := by
  obtain ⟨found, _, hfound⟩ := List.exists_of_findSome?_eq_some h
  obtain ⟨tail, htail, hsame⟩ := Option.map_eq_some_iff.mp hfound
  cases hsame
  rw [rest?] at htail
  split at htail
  · next hrest =>
    cases htail
    exact ⟨_, (List.take_append_drop _ _).symm, Bool.and_eq_true_iff.mp hrest⟩
  · cases htail

theorem isSuffix_of_detect {line rest : Text} {keyword : Keyword}
    (h : detect line = some (keyword, rest)) : rest <:+ line := by
  obtain ⟨u, hline, _⟩ := exists_of_detect h
  exact (List.suffix_append u rest).trans (hline ▸ List.dropWhile_suffix isSpace)

/-- A line leads with a keyword if it starts with its word in any case and the word ends there. -/
theorem leading?_eq_some_iff {line : Text} {keyword : Keyword} :
    leading? line = some keyword ↔
      ∃ u rest, line.trimStart = u ++ rest ∧ Text.alike u keyword.word = true ∧
        endsWord rest = true := by
  rw [leading?_eq_find?]
  constructor
  · intro h
    have hrest := List.find?_some h
    exact isSome_rest?_iff.mp hrest
  · intro h
    have hsome : (all.find? fun k => (k.rest? line.trimStart).isSome).isSome = true := by
      rw [List.find?_isSome]
      exact ⟨keyword, by cases keyword <;> decide, isSome_rest?_iff.mpr h⟩
    obtain ⟨other, hother⟩ := Option.isSome_iff_exists.mp hsome
    obtain ⟨u, rest, hline, hword, _⟩ := h
    have hotherRest := List.find?_some hother
    obtain ⟨v, tail, hsplit, hotherWord, _⟩ := isSome_rest?_iff.mp hotherRest
    have hlower : ∀ {a b : Text}, Text.alike a b = true → a.toLower = b.toLower :=
      fun halike => beq_iff_eq.mp halike
    -- of two words that a text starts with, one starts the other
    have hsame : keyword = other := by
      rcases List.prefix_or_prefix_of_prefix (List.prefix_append u rest)
        (hline.symm.trans hsplit ▸ List.prefix_append v tail) with hstarts | hstarts
      · exact eq_of_isPrefix (hlower hword ▸ hlower hotherWord ▸ hstarts.map Char.toLower)
      · exact (eq_of_isPrefix (hlower hword ▸ hlower hotherWord ▸ hstarts.map Char.toLower)).symm
    rw [hother, hsame]

/-- White space at the ends of a line makes no difference to its keyword. -/
theorem leading?_trim (line : Text) : leading? line.trim = leading? line := by
  obtain ⟨ws, hws, hblank⟩ := Text.exists_trimEnd_append line.trimStart
  have htrim : line.trimStart = line.trim ++ ws := hws
  rw [leading?_eq_find?, leading?_eq_find?, Text.trimStart_trim, htrim]
  congr 1
  funext keyword
  exact (isSome_rest?_append hblank keyword line.trim).symm

/-- White space in front of a line makes no difference to its keyword. -/
theorem leading?_append {ws : Text} (hws : ws.isBlank = true) (t : Text) :
    leading? (ws ++ t) = leading? t := by
  rw [leading?, leading?, detect, detect, Text.trimStart_append_of_isBlank hws]

/-- A word that is spelled like a keyword and ends leads the line, however it is indented. -/
theorem leading?_of_alike {margin u rest : Text} {keyword : Keyword}
    (hmargin : margin.isBlank = true) (hword : Text.alike u keyword.word = true)
    (hend : endsWord rest = true) : leading? (margin ++ (u ++ rest)) = some keyword := by
  refine leading?_eq_some_iff.mpr ⟨u, rest, Text.trimStart_append_of_head hmargin ?_, hword, hend⟩
  intro c hc
  have hne : u ≠ [] := by
    rintro rfl
    cases keyword <;> cases hword
  obtain ⟨d, u, rfl⟩ := List.exists_cons_of_ne_nil hne
  exact Option.some.inj hc ▸ isSpace_of_alike hword d List.mem_cons_self

/-- Of a line that starts with a word as long as a keyword, the word has to be the keyword, and to
    end. -/
theorem leading?_append_eq_some_iff {u rest : Text} {keyword : Keyword}
    (hvisible : ∀ c ∈ u, isSpace c = false) (hlength : u.length = keyword.word.length) :
    leading? (u ++ rest) = some keyword ↔
      Text.alike u keyword.word = true ∧ endsWord rest = true := by
  constructor
  · intro h
    obtain ⟨v, tail, hline, hword, hend⟩ := leading?_eq_some_iff.mp h
    have hne : u ≠ [] := by
      rintro rfl
      cases keyword <;> cases hlength
    rw [Text.trimStart_of_head ?_] at hline
    · obtain ⟨rfl, rfl⟩ := List.append_inj hline (hlength.trans (length_of_alike hword).symm)
      exact ⟨hword, hend⟩
    · intro c hc
      rw [List.head?_append_of_ne_nil _ hne] at hc
      exact hvisible c (List.mem_of_mem_head? hc)
  · rintro ⟨hword, hend⟩
    exact leading?_of_alike (show Text.isBlank [] = true from rfl) hword hend

end Keyword

end ScenarioLint
