import ScenarioLint.Proofs.Text.Lines
import ScenarioLint.Proofs.Text.Space

/-!
The words of a text, and the characters that they are made of.
-/

namespace ScenarioLint.Text

/-- The characters of a text that are not white space, in order. -/
def visible (t : Text) : Text :=
  t.filter fun c => !isSpace c

section Cut

variable {word rest : Text}

theorem words_eq_splitOnP (t : Text) :
    words t = (t.splitOnP isSpace).filter fun word => !word.isEmpty := by
  rw [words]
  congr 1
  induction t with
  | nil => rfl
  | cons c rest ih =>
    rw [List.foldr_cons, ih, List.splitOnP_cons_eq_if_modifyHead]
    by_cases hc : isSpace c = true
    · rw [if_pos hc, if_pos hc]
    · rw [if_neg hc, if_neg hc]
      cases hsplit : rest.splitOnP isSpace with
      | nil => exact absurd hsplit (List.splitOnP_ne_nil _ _)
      | cons word more => rfl

/-- A word is not empty and holds no white space. -/
theorem visible_of_mem_words {t word : Text} (h : word ∈ t.words) :
    word ≠ [] ∧ ∀ c ∈ word, isSpace c = false := by
  rw [words_eq_splitOnP, List.mem_filter] at h
  exact ⟨by simpa using h.2, forall_mem_of_mem_splitOnP h.1⟩

theorem words_append_of_isBlank {ws : Text} (h : ws.isBlank = true) (t : Text) :
    words (ws ++ t) = t.words := by
  induction ws with
  | nil => rfl
  | cons c ws ih =>
    rw [isBlank, List.all_cons, Bool.and_eq_true] at h
    rw [← ih h.2]
    simp [words, h.1]

theorem words_of_visible (hne : word ≠ []) (hvisible : ∀ c ∈ word, isSpace c = false) :
    words word = [word] := by
  rw [words_eq_splitOnP, List.splitOnP_eq_singleton hvisible]
  simpa using hne

/-- The first word ends where white space follows. -/
theorem words_append_cons (hne : word ≠ []) (hvisible : ∀ c ∈ word, isSpace c = false) {c : Char}
    (hc : isSpace c = true) (rest : Text) : words (word ++ c :: rest) = word :: words rest := by
  rw [words_eq_splitOnP, words_eq_splitOnP, List.splitOnP_append_cons_of_forall_mem hvisible c hc,
    List.filter_cons_of_pos (by simpa using hne)]

/-- Words with one space between them are recovered. -/
theorem words_join {ts : List Text} (h : ∀ t ∈ ts, t ≠ [] ∧ ∀ c ∈ t, isSpace c = false) :
    (join [' '] ts).words = ts := by
  induction ts with
  | nil => rfl
  | cons t ts ih =>
    obtain ⟨⟨hne, hvisible⟩, hrest⟩ := List.forall_mem_cons.mp h
    cases ts with
    | nil => rw [join_singleton, words_of_visible hne hvisible]
    | cons next ts =>
      rw [join_cons_cons, List.singleton_append, words_append_cons hne hvisible rfl, ih hrest]

/-- A trimmed text is a word, or a word in front of white space and another trimmed text. -/
theorem exists_word {t : Text} (htrim : t.trim = t) (hne : t ≠ []) :
    ∃ word : Text, word ≠ [] ∧ (∀ c ∈ word, isSpace c = false) ∧
      (t = word ∨ ∃ (c : Char) (gap rest : Text), t = word ++ c :: (gap ++ rest) ∧
        isBlank (c :: gap) = true ∧ rest.trim = rest ∧ rest ≠ []) := by
  obtain ⟨hhead, hlast⟩ := ends_of_trim htrim
  have hsplit := List.takeWhile_append_dropWhile (p := fun c => !isSpace c) (l := t)
  refine ⟨t.takeWhile fun c => !isSpace c, ?_, fun c hc => ?_, ?_⟩
  · obtain ⟨c, more, rfl⟩ := List.exists_cons_of_ne_nil hne
    rw [List.takeWhile_cons_of_pos (by simp [hhead c rfl])]
    exact List.cons_ne_nil _ _
  · simpa using List.mem_takeWhile_imp hc
  cases hdrop : t.dropWhile fun c => !isSpace c with
  | nil =>
    rw [hdrop, List.append_nil] at hsplit
    exact .inl hsplit.symm
  | cons c more =>
    have hc : isSpace c = true := by
      have hstop := List.head?_dropWhile_not (fun c => !isSpace c) t
      rw [hdrop] at hstop
      simpa using hstop
    have hend : ∀ d, (c :: more).getLast? = some d → isSpace d = false := by
      intro d hd
      apply hlast d
      rw [← hsplit, hdrop, List.getLast?_append_of_ne_nil _ (List.cons_ne_nil _ _), hd]
    let gap := more.takeWhile isSpace
    let rest := trimStart more
    have hmore : gap ++ rest = more := takeWhile_append_trimStart more
    have hblank : isBlank (c :: gap) = true := by
      rw [isBlank, List.all_cons, hc, ← isBlank, isBlank_takeWhile]
      rfl
    have hrest : rest ≠ [] := by
      intro hnil
      rw [hnil, List.append_nil] at hmore
      rw [hmore, isBlank_iff] at hblank
      have hlast := List.getLast?_eq_some_getLast (List.cons_ne_nil c more)
      have hvisible := hend _ hlast
      rw [hblank _ (List.mem_of_getLast? hlast)] at hvisible
      cases hvisible
    refine .inr ⟨c, gap, rest, by rw [hmore, ← hdrop, hsplit], hblank, ?_, hrest⟩
    apply trim_of_ends fun _ => head?_trimStart
    intro d hd
    apply hend d
    rw [← hmore, ← List.cons_append, List.getLast?_append_of_ne_nil _ hrest, hd]

end Cut

section Visible

variable {t : Text}

theorem visible_append (t u : Text) : visible (t ++ u) = visible t ++ visible u :=
  List.filter_append _ _

theorem visible_of_isBlank (h : t.isBlank = true) : visible t = [] := by
  rw [isBlank_iff] at h
  rw [visible, List.filter_eq_nil_iff]
  intro c hc
  simp [h c hc]

theorem visible_eq_self (h : ∀ c ∈ t, isSpace c = false) : visible t = t := by
  rw [visible, List.filter_eq_self]
  intro c hc
  simp [h c hc]

theorem visible_trimStart (t : Text) : visible t.trimStart = visible t := by
  conv_rhs => rw [← takeWhile_append_trimStart t, visible_append,
    visible_of_isBlank (isBlank_takeWhile t), List.nil_append]

theorem visible_trim (t : Text) : visible t.trim = visible t := by
  obtain ⟨ws, hws, hblank⟩ := exists_trimEnd_append t.trimStart
  rw [← visible_trimStart t, hws, visible_append, visible_of_isBlank hblank, List.append_nil, trim]

/-- The words of a text are made of its visible characters. -/
theorem flatten_words (t : Text) : t.words.flatten = visible t := by
  rw [words, List.flatten_filter_not_isEmpty]
  induction t with
  | nil => rfl
  | cons c rest ih =>
    rw [List.foldr_cons, visible, List.filter_cons, ← visible, ← ih]
    by_cases hc : isSpace c = true
    · simp [hc]
    · rw [if_neg hc, if_pos (by simp [hc])]
      split
      · next hdone =>
        rw [hdone]
        rfl
      · next hdone =>
        rw [hdone]
        rfl

theorem visible_join_words (t : Text) : visible (join [' '] t.words) = visible t := by
  rw [← flatten_words, words_join fun _ hword => visible_of_mem_words hword, flatten_words]

end Visible

section Join

variable {mark : Text} {ts : List Text}

theorem mem_join {c : Char} (h : c ∈ join mark ts) : c ∈ mark ∨ ∃ t ∈ ts, c ∈ t := by
  induction ts with
  | nil => cases h
  | cons t ts ih =>
    cases ts with
    | nil =>
      rw [join_singleton] at h
      exact .inr ⟨t, List.mem_cons_self, h⟩
    | cons next ts =>
      rw [join_cons_cons, List.mem_append, List.mem_append] at h
      obtain ht | hmark | hrest := h
      · exact .inr ⟨t, List.mem_cons_self, ht⟩
      · exact .inl hmark
      · obtain hmark | ⟨u, hu, hc⟩ := ih hrest
        · exact .inl hmark
        · exact .inr ⟨u, List.mem_cons_of_mem _ hu, hc⟩

/-- The first word starts the words that are put together. -/
theorem head?_join (h : ∀ t ∈ ts, t ≠ []) : (join mark ts).head? = ts.head?.bind List.head? := by
  cases ts with
  | nil => rfl
  | cons t ts =>
    have ht := h t List.mem_cons_self
    cases ts with
    | nil => rw [join_singleton]; rfl
    | cons next ts =>
      rw [join_cons_cons, List.head?_append_of_ne_nil _ ht]
      rfl

/-- The last word ends the words that are put together. -/
theorem getLast?_join (h : ∀ t ∈ ts, t ≠ []) :
    (join mark ts).getLast? = ts.getLast?.bind List.getLast? := by
  induction ts with
  | nil => rfl
  | cons t ts ih =>
    cases ts with
    | nil => rw [join_singleton]; rfl
    | cons next ts =>
      have hrest := ih fun u hu => h u (List.mem_cons_of_mem _ hu)
      have hne : join mark (next :: ts) ≠ [] := by
        intro hnil
        have hhead : (join mark (next :: ts)).head? = (next :: ts).head?.bind List.head? :=
          head?_join fun u hu => h u (List.mem_cons_of_mem t hu)
        rw [hnil] at hhead
        exact h next (by simp) (List.head?_eq_none_iff.mp hhead.symm)
      rw [join_cons_cons, ← List.append_assoc, List.getLast?_append_of_ne_nil _ hne, hrest,
        List.getLast?_cons_cons]

theorem isSpace_of_mem_head?_join (h : ∀ t ∈ ts, t ≠ [] ∧ ∀ c ∈ t, isSpace c = false) {c : Char}
    (hc : c ∈ (join mark ts).head?) : isSpace c = false := by
  rw [head?_join fun t ht => (h t ht).1] at hc
  obtain ⟨t, ht, hct⟩ := Option.bind_eq_some_iff.mp hc
  exact (h t (List.mem_of_mem_head? ht)).2 c (List.mem_of_mem_head? hct)

/-- There is no white space at the ends of words that are put together. -/
theorem trim_join (h : ∀ t ∈ ts, t ≠ [] ∧ ∀ c ∈ t, isSpace c = false) :
    (join mark ts).trim = join mark ts := by
  apply trim_of_ends
  · intro c hc
    exact isSpace_of_mem_head?_join h hc
  · intro c hc
    rw [getLast?_join fun t ht => (h t ht).1] at hc
    obtain ⟨t, ht, hct⟩ := Option.bind_eq_some_iff.mp hc
    exact (h t (List.mem_of_getLast? ht)).2 c (List.mem_of_getLast? hct)

end Join

end ScenarioLint.Text
