import ScenarioLint.Regex.Reader

/-!
How the reader of patterns goes over a text in pieces, and what the pieces describe.
-/

namespace ScenarioLint.Regex

section Splits

/-- A text splits into one text for each expression of a list. -/
def Splits : List Regex → Text → Prop
  | [], t => t = []
  | r :: rest, t => ∃ u v, t = u ++ v ∧ r.Describes u ∧ Splits rest v

theorem splits_singleton {r : Regex} {t : Text} : Splits [r] t ↔ r.Describes t := by
  constructor
  · rintro ⟨u, v, rfl, hu, rfl⟩
    rwa [List.append_nil]
  · intro h
    exact ⟨t, [], (List.append_nil t).symm, h, rfl⟩

theorem splits_append {rs rs' : List Regex} {t : Text} :
    Splits (rs ++ rs') t ↔ ∃ u v, t = u ++ v ∧ Splits rs u ∧ Splits rs' v := by
  induction rs generalizing t with
  | nil =>
    constructor
    · intro h
      exact ⟨[], t, rfl, rfl, h⟩
    · rintro ⟨u, v, rfl, rfl, hv⟩
      exact hv
  | cons r rs ih =>
    constructor
    · rintro ⟨u, v, rfl, hu, hv⟩
      obtain ⟨w, x, rfl, hw, hx⟩ := ih.mp hv
      exact ⟨u ++ w, x, (List.append_assoc u w x).symm, ⟨u, w, rfl, hu, hw⟩, hx⟩
    · rintro ⟨_, x, rfl, ⟨u, w, rfl, hu, hw⟩, hx⟩
      exact ⟨u, w ++ x, List.append_assoc u w x, hu, ih.mpr ⟨w, x, rfl, hw, hx⟩⟩

private theorem describes_foldl_seq {r : Regex} {rs : List Regex} {t : Text} :
    (rs.foldl seq r).Describes t ↔ Splits (r :: rs) t := by
  induction rs generalizing r with
  | nil => exact splits_singleton.symm
  | cons s rs ih =>
    rw [List.foldl_cons, ih]
    constructor
    · rintro ⟨_, v, rfl, ⟨u, w, rfl, hu, hw⟩, hv⟩
      exact ⟨u, w ++ v, List.append_assoc u w v, hu, w, v, rfl, hw, hv⟩
    · rintro ⟨u, _, rfl, hu, w, v, rfl, hw, hv⟩
      exact ⟨u ++ w, v, (List.append_assoc u w v).symm, ⟨u, w, rfl, hu, hw⟩, hv⟩

theorem describes_sequence {rs : List Regex} {t : Text} :
    (sequence rs).Describes t ↔ Splits rs t := by
  cases rs with
  | nil => rfl
  | cons r rs => exact describes_foldl_seq

end Splits

namespace Reader

theorem run_append (s : Reader) (t u : Text) : s.run (t ++ u) = (s.run t).bind fun s => s.run u := by
  rw [run, List.foldlM_append]
  rfl

theorem run_cons (s : Reader) (c : Char) (t : Text) :
    s.run (c :: t) = (s.step c).bind fun s => s.run t :=
  List.foldlM_cons

end Reader

section Pieces

/-- Between two parts of a branch. -/
def Stage.IsOpen (stage : Stage) : Prop :=
  stage = .ready ∨ stage = .part ∨ stage = .repeated

/-- A piece of a pattern is read as the given parts wherever case counts and a part may begin, and
    another part may begin behind it. -/
def Pushes (piece : Text) (rs : List Regex) : Prop :=
  ∀ outer earlier parts ⦃stage⦄, Stage.IsOpen stage → ∃ next, Stage.IsOpen next ∧
    Reader.run ⟨outer, ⟨earlier, parts⟩, false, stage⟩ piece =
      some ⟨outer, ⟨earlier, rs.reverse ++ parts⟩, false, next⟩

theorem pushes_nil : Pushes [] [] := by
  intro outer earlier parts stage hopen
  exact ⟨stage, hopen, rfl⟩

theorem Pushes.append {piece piece' : Text} {rs rs' : List Regex} (h : Pushes piece rs)
    (h' : Pushes piece' rs') : Pushes (piece ++ piece') (rs ++ rs') := by
  intro outer earlier parts stage hopen
  obtain ⟨next, hnext, hrun⟩ := h outer earlier parts hopen
  obtain ⟨last, hlast, hrun'⟩ := h' outer earlier (rs.reverse ++ parts) hnext
  refine ⟨last, hlast, ?_⟩
  rw [Reader.run_append, hrun, Option.bind_some, hrun', List.reverse_append, List.append_assoc]

/-- A piece that repeats nothing before it is read alike at every open stage. -/
theorem pushes_of_ready {piece : Text} {rs : List Regex}
    (hhead : ∃ c ∈ piece.head?, c ≠ '*' ∧ c ≠ '+' ∧ c ≠ '?' ∧ c ≠ '\x7b') {next : Stage}
    (hnext : next.IsOpen)
    (h : ∀ outer earlier parts, Reader.run ⟨outer, ⟨earlier, parts⟩, false, .ready⟩ piece =
      some ⟨outer, ⟨earlier, rs.reverse ++ parts⟩, false, next⟩) : Pushes piece rs := by
  intro outer earlier parts stage hopen
  refine ⟨next, hnext, ?_⟩
  obtain ⟨c, hc, hstar, hplus, hmark, hbrace⟩ := hhead
  obtain ⟨more, rfl⟩ := List.head?_eq_some_iff.mp hc
  rw [← h, Reader.run_cons, Reader.run_cons]
  obtain rfl | rfl | rfl := hopen
  · rfl
  · simp [Reader.step, Reader.readPart, hstar, hplus, hmark, hbrace, Reader.push, Reader.literal]
  · simp [Reader.step, Reader.readPart, hmark, Reader.push, Reader.literal]

end Pieces

/-- An anchored pattern is read as the parts between its anchors. -/
theorem read?_of_pushes {piece : Text} {rs : List Regex} (h : Pushes piece rs) :
    read? ('^' :: (piece ++ ['$'])) = some (sequence rs) := by
  obtain ⟨next, hnext, hrun⟩ := h [] none [] (.inl rfl)
  have hstart : Reader.start.step '^' = some ⟨[], ⟨none, []⟩, false, .ready⟩ := rfl
  have hend : Reader.run ⟨[], ⟨none, rs.reverse⟩, false, next⟩ ['$'] =
      some ⟨[], ⟨none, rs.reverse⟩, false, .closed⟩ := by
    obtain rfl | rfl | rfl := hnext <;> rfl
  rw [List.append_nil] at hrun
  rw [read?, Reader.run_cons, hstart, Option.bind_some, Reader.run_append, hrun, Option.bind_some,
    hend]
  simp [Branches.close]

section Languages

/-- Wherever case counts and a part may begin, a piece of a pattern is read as expressions that the
    texts of a language split into. -/
def Writes (piece : Text) (language : Text → Prop) : Prop :=
  ∃ rs, Pushes piece rs ∧ ∀ t, Splits rs t ↔ language t

theorem Writes.congr {piece : Text} {language language' : Text → Prop} (h : Writes piece language)
    (hiff : ∀ t, language t ↔ language' t) : Writes piece language' := by
  obtain ⟨rs, hpushes, hsplits⟩ := h
  exact ⟨rs, hpushes, fun t => (hsplits t).trans (hiff t)⟩

theorem writes_nil : Writes [] fun t => t = [] :=
  ⟨[], pushes_nil, fun _ => Iff.rfl⟩

theorem Writes.append {piece piece' : Text} {language language' : Text → Prop}
    (h : Writes piece language) (h' : Writes piece' language') :
    Writes (piece ++ piece') fun t => ∃ u v, t = u ++ v ∧ language u ∧ language' v := by
  obtain ⟨rs, hpushes, hsplits⟩ := h
  obtain ⟨rs', hpushes', hsplits'⟩ := h'
  refine ⟨rs ++ rs', hpushes.append hpushes', fun t => ?_⟩
  rw [splits_append]
  simp only [hsplits, hsplits']

/-- Between anchors, a piece is read as an expression for its language. -/
theorem Writes.read? {piece : Text} {language : Text → Prop} (h : Writes piece language) :
    ∃ r, Regex.read? ('^' :: (piece ++ ['$'])) = some r ∧ ∀ t, r.Describes t ↔ language t := by
  obtain ⟨rs, hpushes, hsplits⟩ := h
  exact ⟨_, read?_of_pushes hpushes, fun t => describes_sequence.trans (hsplits t)⟩

end Languages

/-- Nothing may follow the end of a pattern. -/
theorem read?_append_eq_none {source : Text} {r : Regex} (h : read? source = some r) (c : Char)
    (more : Text) : read? (source ++ c :: more) = none := by
  rw [read?] at h ⊢
  rw [Reader.run_append]
  cases hrun : Reader.start.run source with
  | none => rfl
  | some s =>
    rw [hrun] at h
    have hclosed : s.stage = .closed := by
      by_cases hclosed : s.stage = .closed
      · exact hclosed
      · simp [hclosed] at h
    have hstep : s.step c = none := by
      rw [Reader.step, hclosed]
    rw [Option.bind_some, Reader.run_cons, hstep]
    rfl

end ScenarioLint.Regex
