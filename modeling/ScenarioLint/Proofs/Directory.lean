import ScenarioLint.Directory

/-!
Reading what was written.  The way to a file that is written goes through directories, and a file takes the
place of none, so the way is the same afterwards and leads to what was written.
-/

namespace ScenarioLint.Directory

variable {d after : Directory} {path content : Text} {place other start : List Text}

/-- The directory with a text in the file at a place. -/
def put (d : Directory) (place : List Text) (content : Text) : Directory :=
  ⟨(place, .file (some content)) :: d.entries⟩

/-- A file can be written at the path. -/
def Writable (d : Directory) (path : Text) : Prop :=
  path.getLast? ≠ some '/' ∧ ∃ place, d.place path = .ok place ∧ d.entry? place ≠ some .directory

theorem entry?_put_self : entry? (d.put place content) place = some (.file (some content)) := by
  simp [ entry?, put]

theorem entry?_put_of_directory (h : d.entry? other = some .directory) (hne : other ≠ place) :
    entry? (d.put place content) other = some .directory := by
  have hlookup : (d.put place content).entries.lookup other = d.entries.lookup other := by
    rw [put, List.lookup_cons, beq_false_of_ne hne]
  rw [ entry?] at h
  rw [ entry?, hlookup]
  cases hentry : d.entries.lookup other with
  | some entry =>
    rw [hentry] at h
    exact h
  | none =>
    rw [hentry] at h
    dsimp only at h
    split at h
    · rename_i hway
      rcases Bool.or_eq_true_iff.mp hway with hempty | hany
      · simp [hempty]
      · simp [put, hany]
    · cases h

/-- To write a file changes no way through directories. -/
theorem walk_put (hplace : d.entry? place ≠ some .directory) {pieces : List Text}
    (h : d.walk start pieces = .ok other) :
    (d.put place content).walk start pieces = .ok other := by
  induction pieces generalizing start with
  | nil => exact h
  | cons piece rest ih =>
    rw [walk] at h
    cases hentry : d.entry? start with
    | none =>
      rw [hentry] at h
      cases h
    | some entry =>
      cases entry with
      | file content =>
        rw [hentry] at h
        cases h
      | directory =>
        have hne : start ≠ place := fun heq => hplace (heq ▸ hentry)
        rw [hentry] at h
        rw [walk, entry?_put_of_directory hentry hne]
        dsimp only at h ⊢
        by_cases hstay : (piece.isEmpty || decide (piece = ['.'])) = true
        · rw [if_pos hstay] at h ⊢
          exact ih h
        · rw [if_neg hstay] at h ⊢
          by_cases hup : piece = ['.', '.']
          · rw [if_pos hup] at h ⊢
            split at h
            · cases h
            · rename_i hroot
              rw [if_neg hroot]
              exact ih h
          · rw [if_neg hup] at h ⊢
            exact ih h

theorem place_put (hplace : d.entry? place ≠ some .directory) (h : d.place path = .ok other) :
    (d.put place content).place path = .ok other := by
  unfold Directory.place at h ⊢
  split at h
  · cases h
  · exact h
  · exact walk_put hplace h

theorem withoutSlash_of_getLast (h : path.getLast? ≠ some '/') : withoutSlash path = path := by
  have hhead : path.reverse.dropWhile (· = '/') = path.reverse := by
    cases hreverse : path.reverse with
    | nil => rfl
    | cons c rest =>
      have hc : c ≠ '/' := by
        rintro rfl
        rw [← List.head?_reverse, hreverse] at h
        exact h rfl
      simp [hc]
  rw [withoutSlash, hhead, List.reverse_reverse]

theorem write_eq_ok_iff : d.write path content = .ok after ↔
    path.getLast? ≠ some '/' ∧ ∃ place, d.place path = .ok place ∧
      d.entry? place ≠ some .directory ∧ after = d.put place content := by
  by_cases hslash : path.getLast? = some '/'
  · simp only [hslash, ne_eq, not_true_eq_false, false_and, iff_false]
    rw [write]
    cases d.place _ with
    | error e => exact nofun
    | ok place => simp [bind, Except.bind, hslash]
  · have hpath : (if (names path).isEmpty then path else withoutSlash path) = path := by
      rw [withoutSlash_of_getLast hslash, ite_self]
    rw [write, hpath]
    cases hplace : d.place path with
    | error e => simp [bind, Except.bind]
    | ok place =>
      simp only [bind, Except.bind]
      by_cases hdirectory : d.entry? place = some .directory
      · simp [hdirectory]
      · simp [hslash, hdirectory, put, eq_comm (a := after)]

theorem exists_write_iff : (∃ after, d.write path content = .ok after) ↔ d.Writable path := by
  simp only [write_eq_ok_iff, Writable]
  constructor
  · rintro ⟨_, hslash, place, hplace, hentry, _⟩
    exact ⟨hslash, place, hplace, hentry⟩
  · rintro ⟨hslash, place, hplace, hentry⟩
    exact ⟨_, hslash, place, hplace, hentry, rfl⟩

/-- A file holds what was written into it. -/
theorem read_of_write (h : d.write path content = .ok after) : after.read path = .ok content := by
  obtain ⟨_, place, hplace, hentry, rfl⟩ := write_eq_ok_iff.mp h
  rw [read, place_put hentry hplace]
  simp only [bind, Except.bind, entry?_put_self]

end ScenarioLint.Directory
