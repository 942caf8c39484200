import ScenarioLint.Text

/-!
Cutting a text into pieces and lines, and putting them together again.
-/

namespace ScenarioLint.Text

theorem pieces_nil (mark : Char) : pieces mark [] = [[]] :=
  rfl

theorem pieces_eq_splitOn (mark : Char) (t : Text) : pieces mark t = t.splitOn mark := by
  induction t with
  | nil => rw [pieces_nil, List.splitOn_nil]
  | cons c rest ih =>
    rw [List.splitOn_cons_eq_if_modifyHead, ← ih]
    rw [pieces, List.foldr_cons, ← pieces]
    by_cases hc : c = mark
    · simp [hc]
    · have hne : pieces mark rest ≠ [] := ih ▸ List.splitOn_ne_nil mark rest
      cases hpieces : pieces mark rest with
      | nil => exact absurd hpieces hne
      | cons piece done => simp [hc]

theorem pieces_ne_nil (mark : Char) (t : Text) : pieces mark t ≠ [] := by
  rw [pieces_eq_splitOn]
  exact List.splitOn_ne_nil mark t

theorem pieces_of_not_mem {mark : Char} {t : Text} (h : mark ∉ t) : pieces mark t = [t] := by
  rw [pieces_eq_splitOn, List.splitOn_eq_singleton h]

theorem pieces_cons_self (mark : Char) (t : Text) :
    pieces mark (mark :: t) = [] :: pieces mark t := by
  rw [pieces, List.foldr_cons, if_pos rfl, ← pieces]

theorem exists_pieces_cons {mark c : Char} (hc : c ≠ mark) (t : Text) :
    ∃ piece done, pieces mark t = piece :: done ∧ pieces mark (c :: t) = (c :: piece) :: done := by
  obtain ⟨piece, done, hpieces⟩ := List.exists_cons_of_ne_nil (pieces_ne_nil mark t)
  refine ⟨piece, done, hpieces, ?_⟩
  rw [pieces, List.foldr_cons, if_neg hc, ← pieces, hpieces]

theorem pieces_append_cons (mark : Char) (s t : Text) :
    pieces mark (s ++ mark :: t) = pieces mark s ++ pieces mark t := by
  induction s with
  | nil => exact pieces_cons_self mark t
  | cons c s ih =>
    by_cases hc : c = mark
    · subst hc
      rw [List.cons_append, pieces_cons_self, pieces_cons_self, ih, List.cons_append]
    · obtain ⟨piece, done, hpieces, hcons⟩ := exists_pieces_cons hc s
      obtain ⟨first, rest, hall, hallCons⟩ := exists_pieces_cons hc (s ++ mark :: t)
      rw [ih, hpieces, List.cons_append] at hall
      obtain ⟨rfl, rfl⟩ := List.cons.inj hall
      rw [List.cons_append, hallCons, hcons, List.cons_append]

/-- The first piece is all that a text without the mark changes when it stands in front. -/
theorem exists_pieces_append {mark : Char} {front : Text} (h : mark ∉ front) (t : Text) :
    ∃ piece more, pieces mark t = piece :: more ∧
      pieces mark (front ++ t) = (front ++ piece) :: more := by
  induction front with
  | nil =>
    obtain ⟨piece, more, hpieces⟩ := List.exists_cons_of_ne_nil (pieces_ne_nil mark t)
    exact ⟨piece, more, hpieces, hpieces⟩
  | cons c front ih =>
    rw [List.mem_cons, not_or] at h
    obtain ⟨hc, hfront⟩ := h
    obtain ⟨piece, more, ht, hpieces⟩ := ih hfront
    obtain ⟨first, rest, hall, hcons⟩ := exists_pieces_cons (Ne.symm hc) (front ++ t)
    rw [hpieces] at hall
    obtain ⟨rfl, rfl⟩ := List.cons.inj hall
    exact ⟨piece, more, ht, by rw [List.cons_append, hcons]; rfl⟩

theorem length_pieces (mark : Char) (t : Text) : (pieces mark t).length = t.count mark + 1 := by
  induction t with
  | nil => rfl
  | cons c t ih =>
    by_cases hc : c = mark
    · subst hc
      rw [pieces_cons_self, List.length_cons, ih, List.count_cons_self]
    · obtain ⟨piece, done, hpieces, hcons⟩ := exists_pieces_cons hc t
      rw [hcons, List.count_cons_of_ne hc, ← ih, hpieces, List.length_cons, List.length_cons]

theorem join_eq_intercalate (mark : Text) (ts : List Text) : join mark ts = mark.intercalate ts :=
  rfl

theorem join_singleton (mark t : Text) : join mark [t] = t := by
  rw [join_eq_intercalate, List.intercalate_singleton]

theorem join_cons_of_ne_nil (mark t : Text) {ts : List Text} (h : ts ≠ []) :
    join mark (t :: ts) = t ++ (mark ++ join mark ts) := by
  rw [join_eq_intercalate, List.intercalate_cons_of_ne_nil h, List.append_assoc,
    ← join_eq_intercalate]

theorem join_cons_cons (mark t next : Text) (ts : List Text) :
    join mark (t :: next :: ts) = t ++ (mark ++ join mark (next :: ts)) :=
  join_cons_of_ne_nil mark t (List.cons_ne_nil _ _)

/-- The pieces of a text put together with the mark between them are the text. -/
theorem join_pieces (mark : Char) (t : Text) : join [mark] (pieces mark t) = t := by
  rw [pieces_eq_splitOn, join_eq_intercalate, List.intercalate_splitOn]

/-- Texts without the mark are recovered from their join. -/
theorem pieces_join {mark : Char} {ts : List Text} (hne : ts ≠ []) (h : ∀ t ∈ ts, mark ∉ t) :
    pieces mark (join [mark] ts) = ts := by
  rw [pieces_eq_splitOn, join_eq_intercalate, List.splitOn_intercalate mark h hne]

theorem join_append_cons (mark : Char) (before : List Text) (t : Text) (after : List Text) :
    ∃ pre post, join [mark] (before ++ t :: after) = pre ++ t ++ post ∧
      (pre = [] ∨ pre.getLast? = some mark) ∧ (post = [] ∨ post.head? = some mark) := by
  induction before with
  | nil =>
    refine ⟨[], join [mark] (t :: after) |>.drop t.length, ?_, .inl rfl, ?_⟩
    all_goals cases after <;> simp [join, List.intersperse]
  | cons first before ih =>
    obtain ⟨pre, post, hjoin, hpre, hpost⟩ := ih
    refine ⟨first ++ mark :: pre, post, ?_, .inr ?_, hpost⟩
    · rw [List.cons_append, join_cons_of_ne_nil _ _ (by simp), hjoin]
      simp
    · rcases hpre with rfl | hpre
      · simp
      · simp [List.getLast?_cons, hpre]

/-- A piece lies in its text between marks or ends of the text. -/
theorem exists_of_mem_pieces {mark : Char} {t piece : Text} (h : piece ∈ pieces mark t) :
    ∃ pre post, t = pre ++ piece ++ post ∧ (pre = [] ∨ pre.getLast? = some mark) ∧
      (post = [] ∨ post.head? = some mark) := by
  obtain ⟨before, after, hsplit⟩ := List.append_of_mem h
  obtain ⟨pre, post, hjoin, hpre, hpost⟩ := join_append_cons mark before piece after
  rw [← hsplit, join_pieces] at hjoin
  exact ⟨pre, post, hjoin, hpre, hpost⟩

theorem forall_mem_of_mem_splitOnP {p : Char → Bool} {t piece : Text}
    (h : piece ∈ t.splitOnP p) : ∀ c ∈ piece, p c = false := by
  induction t generalizing piece with
  | nil =>
    rw [List.splitOnP_nil, List.mem_singleton] at h
    simp [h]
  | cons c rest ih =>
    rw [List.splitOnP_cons_eq_if_modifyHead] at h
    by_cases hc : p c = true
    · rw [if_pos hc, List.mem_cons] at h
      rcases h with rfl | h
      · exact nofun
      · exact ih h
    · rw [if_neg hc] at h
      cases hpieces : rest.splitOnP p with
      | nil => simp [hpieces] at h
      | cons first done =>
        rw [hpieces, List.modifyHead_cons, List.mem_cons] at h
        rcases h with rfl | h
        · rw [List.forall_mem_cons]
          exact ⟨Bool.not_eq_true _ ▸ hc, ih (hpieces ▸ List.mem_cons_self)⟩
        · exact ih (hpieces ▸ List.mem_cons_of_mem _ h)

theorem not_mem_of_mem_pieces {mark : Char} {t piece : Text} (h : piece ∈ pieces mark t) :
    mark ∉ piece := by
  rw [pieces_eq_splitOn] at h
  intro hmark
  simpa using forall_mem_of_mem_splitOnP h mark hmark

theorem unlines_eq_join (ls : List Text) : unlines ls = join ['\n'] (ls ++ [[]]) := by
  induction ls with
  | nil => rfl
  | cons line rest ih =>
    rw [List.cons_append, join_cons_of_ne_nil _ _ (by simp), ← ih]
    simp [unlines]

/-- The pieces of written lines are the lines, and an empty one behind the last line feed. -/
theorem pieces_unlines {ls : List Text} (h : ∀ line ∈ ls, '\n' ∉ line) :
    pieces '\n' (unlines ls) = ls ++ [[]] := by
  rw [unlines_eq_join]
  apply pieces_join (by simp)
  intro t ht
  rcases List.mem_append.mp ht with ht | ht
  · exact h t ht
  · simp [List.mem_singleton.mp ht]

theorem unlines_eq_join_append {ls : List Text} (hne : ls ≠ []) :
    unlines ls = join ['\n'] ls ++ ['\n'] := by
  induction ls with
  | nil => exact absurd rfl hne
  | cons line rest ih =>
    cases rest with
    | nil => simp [unlines, join]
    | cons next rest =>
      have hrest := ih (List.cons_ne_nil _ _)
      rw [join_cons_cons, List.append_assoc, List.append_assoc, ← hrest]
      simp [unlines]

/-- The pieces of a text, each with a line feed behind it, are the text with one. -/
theorem unlines_pieces (t : Text) : unlines (pieces '\n' t) = t ++ ['\n'] := by
  rw [unlines_eq_join_append (pieces_ne_nil '\n' t), join_pieces]

/-- Written lines that hold no line feed are read back without carriage returns at their ends. -/
theorem lines_unlines_of_feed {ls : List Text} (hfeed : ∀ line ∈ ls, '\n' ∉ line) :
    lines (unlines ls) = ls.map dropReturn := by
  simp [lines, pieces_unlines hfeed]

/-- Written lines are read back as their pieces, without carriage returns at their ends. -/
theorem lines_unlines_eq (ls : List Text) :
    lines (unlines ls) = (ls.flatMap (pieces '\n')).map dropReturn := by
  have hunlines : unlines ls = unlines (ls.flatMap (pieces '\n')) := by
    rw [unlines, unlines, List.flatMap_assoc]
    congr 1
    funext line
    exact (unlines_pieces line).symm
  have hfeed : ∀ piece ∈ ls.flatMap (pieces '\n'), '\n' ∉ piece := by
    intro piece hpiece
    obtain ⟨line, _, hmem⟩ := List.mem_flatMap.mp hpiece
    exact not_mem_of_mem_pieces hmem
  rw [hunlines, lines_unlines_of_feed hfeed]

theorem dropReturn_of_getLast {t : Text} (h : t.getLast? ≠ some '\r') : t.dropReturn = t := by
  rw [dropReturn, if_neg h]

theorem dropReturn_of_not_mem {t : Text} (h : '\r' ∉ t) : t.dropReturn = t :=
  dropReturn_of_getLast fun hlast => h (List.mem_of_getLast? hlast)

theorem dropReturn_concat (t : Text) : dropReturn (t ++ ['\r']) = t := by
  rw [dropReturn, if_pos List.getLast?_concat, List.dropLast_concat]

/-- Lines that hold no line feed and end in no carriage return are read back as they were
    written. -/
theorem lines_unlines {ls : List Text} (hfeed : ∀ line ∈ ls, '\n' ∉ line)
    (hreturn : ∀ line ∈ ls, line.getLast? ≠ some '\r') : lines (unlines ls) = ls := by
  have hid : ls.map dropReturn = ls.map id :=
    List.map_congr_left fun line hline => dropReturn_of_getLast (hreturn line hline)
  rw [lines_unlines_of_feed hfeed, hid, List.map_id]

/-- Each line feed in a written line makes one line more of it. -/
theorem length_lines_unlines (ls : List Text) :
    (lines (unlines ls)).length = ls.length + ls.flatten.count '\n' := by
  rw [lines_unlines_eq, List.length_map]
  induction ls with
  | nil => rfl
  | cons line rest ih =>
    rw [List.flatMap_cons, List.length_append, ih, length_pieces, List.flatten_cons,
      List.count_append, List.length_cons]
    omega

theorem mem_of_mem_dropReturn {t : Text} {c : Char} (h : c ∈ t.dropReturn) : c ∈ t := by
  rw [dropReturn] at h
  split at h
  · exact List.dropLast_subset _ h
  · exact h

/-- A line is a piece of its text, perhaps without a carriage return at its end. -/
theorem exists_piece_of_mem_lines {t line : Text} (h : line ∈ lines t) :
    ∃ piece ∈ pieces '\n' t, line = piece ∨ line = piece.dropReturn := by
  rw [lines, List.mem_append] at h
  rcases h with h | h
  · obtain ⟨piece, hpiece, rfl⟩ := List.mem_map.mp h
    exact ⟨piece, List.dropLast_subset _ hpiece, .inr rfl⟩
  · split at h
    · cases h
    · rw [List.mem_singleton] at h
      subst h
      refine ⟨_, ?_, .inl rfl⟩
      have hne := pieces_ne_nil '\n' t
      rw [List.getLastD_eq_getLast?, List.getLast?_eq_some_getLast hne]
      exact List.getLast_mem hne

theorem feed_not_mem_of_mem_lines {t line : Text} (h : line ∈ lines t) : '\n' ∉ line := by
  obtain ⟨piece, hpiece, rfl | rfl⟩ := exists_piece_of_mem_lines h
  · exact not_mem_of_mem_pieces hpiece
  · exact fun hmem => not_mem_of_mem_pieces hpiece (mem_of_mem_dropReturn hmem)

theorem lines_unlines_eq_self_iff {ls : List Text}
    (hreturn : ∀ line ∈ ls, line.getLast? ≠ some '\r') :
    lines (unlines ls) = ls ↔ ∀ line ∈ ls, '\n' ∉ line := by
  refine ⟨fun h line hline => ?_, fun hfeed => lines_unlines hfeed hreturn⟩
  exact feed_not_mem_of_mem_lines (h ▸ hline)

end ScenarioLint.Text
