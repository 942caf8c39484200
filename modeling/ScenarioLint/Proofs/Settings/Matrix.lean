import ScenarioLint.Proofs.MethodName
import ScenarioLint.Settings.Reading

/-!
The rows of a status matrix: they are sorted, their methods are in capitals, and the entries tell
the rows.
-/

namespace ScenarioLint

namespace ByKind

variable {α : Type}

/-- The entry of a kind is found in the list of the entries. -/
theorem lookup_toList (m : ByKind α) (kind : ScenarioKind) : m.toList.lookup kind = m.get? kind := by
  obtain ⟨happy, error, edge⟩ := m
  cases kind <;> cases happy <;> cases error <;> cases edge <;> rfl

/-- The entries of the kinds are all there is. -/
theorem eq_of_get?_eq {m m' : ByKind α} (h : ∀ kind, m.get? kind = m'.get? kind) : m = m' := by
  have hhappy : m.happy = m'.happy := h .happy
  have herror : m.error = m'.error := h .error
  have hedge : m.edge = m'.edge := h .edge
  obtain ⟨happy, error, edge⟩ := m
  simp only at hhappy herror hedge
  rw [hhappy, herror, hedge]

theorem toList_inj {m m' : ByKind α} (h : m.toList = m'.toList) : m = m' := by
  apply eq_of_get?_eq
  intro kind
  rw [← lookup_toList, h, lookup_toList]

theorem toList_eq_nil_iff {m : ByKind α} : m.toList = [] ↔ m = .empty :=
  ⟨fun h => toList_inj h, fun h => h ▸ rfl⟩

end ByKind

namespace StatusMatrix

/-- What normalizing makes of the rows of a matrix: each method has one row, in the order of the
    methods, and no method has a small ASCII letter. -/
structure Canonical (rows : List (Text × ByKind (List StatusCode))) : Prop where
  sorted : rows.Pairwise fun a b => a.1 < b.1
  capital : ∀ row ∈ rows, ∀ c ∈ row.1, c.isLower = false

section ChangeRow

variable {key : Text} {f : ByKind (List StatusCode) → ByKind (List StatusCode)}
  {rows : List (Text × ByKind (List StatusCode))}

/-- Changing a row adds no other key. -/
theorem key_of_mem_changeRow {row : Text × ByKind (List StatusCode)}
    (h : row ∈ changeRow key f rows) : row.1 = key ∨ ∃ old ∈ rows, old.1 = row.1 := by
  induction rows with
  | nil => exact .inl (congrArg Prod.fst (List.mem_singleton.mp h))
  | cons first rest ih =>
    rw [changeRow] at h
    split at h
    · next hsame =>
      obtain rfl | hrest := List.mem_cons.mp h
      · exact .inl hsame.symm
      · exact .inr ⟨row, List.mem_cons_of_mem _ hrest, rfl⟩
    · split at h
      · obtain rfl | hold := List.mem_cons.mp h
        · exact .inl rfl
        · exact .inr ⟨row, hold, rfl⟩
      · obtain rfl | hrest := List.mem_cons.mp h
        · exact .inr ⟨_, List.mem_cons_self, rfl⟩
        · obtain hkey | ⟨old, hold, heq⟩ := ih hrest
          · exact .inl hkey
          · exact .inr ⟨old, List.mem_cons_of_mem _ hold, heq⟩

private theorem lt_of_not_lt_of_ne {a b : Text} (hlt : ¬a < b) (hne : a ≠ b) : b < a := by
  by_cases hgt : b < a
  · exact hgt
  · exact absurd (List.le_antisymm (List.not_lt.mp hgt) (List.not_lt.mp hlt)) hne

theorem sorted_changeRow (h : rows.Pairwise fun a b => a.1 < b.1) :
    (changeRow key f rows).Pairwise fun a b => a.1 < b.1 := by
  induction rows with
  | nil => exact List.pairwise_singleton _ _
  | cons first rest ih =>
    obtain ⟨hfirst, hrest⟩ := List.pairwise_cons.mp h
    rw [changeRow]
    split
    · exact List.pairwise_cons.mpr ⟨hfirst, hrest⟩
    · next hne =>
      split
      · next hlt =>
        refine List.pairwise_cons.mpr ⟨fun row hrow => ?_, h⟩
        obtain rfl | hrow := List.mem_cons.mp hrow
        · exact hlt
        · exact List.lt_trans hlt (hfirst row hrow)
      · next hnlt =>
        refine List.pairwise_cons.mpr ⟨fun row hrow => ?_, ih hrest⟩
        obtain hkey | ⟨old, hold, heq⟩ := key_of_mem_changeRow hrow
        · rw [hkey]
          exact lt_of_not_lt_of_ne hnlt hne
        · exact heq ▸ hfirst old hold

theorem Canonical.changeRow (hkey : ∀ c ∈ key, c.isLower = false) (h : Canonical rows) :
    Canonical (changeRow key f rows) := by
  refine ⟨sorted_changeRow h.sorted, fun row hrow => ?_⟩
  obtain hsame | ⟨old, hold, heq⟩ := key_of_mem_changeRow hrow
  · exact hsame ▸ hkey
  · exact heq ▸ h.capital old hold

end ChangeRow

theorem canonical_normalized (m : StatusMatrix) : Canonical m.normalized.rows :=
  List.foldlRecOn m.rows _ ⟨.nil, nofun⟩ fun _ h _ _ =>
    h.changeRow fun _ => Text.isLower_of_mem_methodName

section Entries

variable {rows rows' : List (Text × ByKind (List StatusCode))}

/-- The entries of one row. -/
def rowEntries (row : Text × ByKind (List StatusCode)) :
    List (Text × ScenarioKind × List StatusCode) :=
  row.2.toList.map fun (kind, codes) => (row.1, kind, codes)

theorem entries_eq (m : StatusMatrix) : m.entries = m.rows.flatMap rowEntries :=
  rfl

private theorem fst_of_mem_rowEntries {row : Text × ByKind (List StatusCode)}
    {e : Text × ScenarioKind × List StatusCode} (h : e ∈ rowEntries row) : e.1 = row.1 := by
  obtain ⟨⟨kind, codes⟩, _, rfl⟩ := List.mem_map.mp h
  rfl

private theorem filter_rowEntries_append {first : Text × ByKind (List StatusCode)}
    (h : (first :: rows).Pairwise fun a b => a.1 < b.1) :
    (rowEntries first ++ rows.flatMap rowEntries).filter (·.1 = first.1) = rowEntries first := by
  have hfirst : (rowEntries first).filter (·.1 = first.1) = rowEntries first :=
    List.filter_eq_self.mpr fun e he => decide_eq_true (fst_of_mem_rowEntries he)
  have hrest : (rows.flatMap rowEntries).filter (·.1 = first.1) = [] := by
    rw [List.filter_eq_nil_iff]
    intro e he
    obtain ⟨row, hrow, he⟩ := List.mem_flatMap.mp he
    have hlt := List.rel_of_pairwise_cons h hrow
    rw [fst_of_mem_rowEntries he, decide_eq_true_iff]
    rintro heq
    exact List.lt_irrefl _ (heq ▸ hlt)
  rw [List.filter_append, hfirst, hrest, List.append_nil]

private theorem rowEntries_inj {row row' : Text × ByKind (List StatusCode)}
    (hkey : row.1 = row'.1) (h : rowEntries row = rowEntries row') : row = row' := by
  have hlist : row.2.toList = row'.2.toList := by
    have hmap := congrArg (List.map fun e => (e.2.1, e.2.2)) h
    simpa [rowEntries, Function.comp_def] using hmap
  exact Prod.ext hkey (ByKind.toList_inj hlist)

private theorem rows_eq_of_flatMap_eq (h : rows.Pairwise fun a b => a.1 < b.1)
    (h' : rows'.Pairwise fun a b => a.1 < b.1) (hfull : ∀ row ∈ rows, row.2 ≠ .empty)
    (hfull' : ∀ row ∈ rows', row.2 ≠ .empty)
    (heq : rows.flatMap rowEntries = rows'.flatMap rowEntries) : rows = rows' := by
  have hne : ∀ row : Text × ByKind (List StatusCode), row.2 ≠ .empty → rowEntries row ≠ [] := by
    intro row hrow hnil
    exact hrow (ByKind.toList_eq_nil_iff.mp (List.map_eq_nil_iff.mp hnil))
  induction rows generalizing rows' with
  | nil =>
    cases rows' with
    | nil => rfl
    | cons first' rest' =>
      have hnil := List.append_eq_nil_iff.mp heq.symm
      exact absurd hnil.1 (hne first' (hfull' first' List.mem_cons_self))
  | cons first rest ih =>
    cases rows' with
    | nil =>
      have hnil := List.append_eq_nil_iff.mp heq
      exact absurd hnil.1 (hne first (hfull first List.mem_cons_self))
    | cons first' rest' =>
      rw [List.flatMap_cons, List.flatMap_cons] at heq
      have hkey : first.1 = first'.1 := by
        obtain ⟨e, more, hmore⟩ := List.exists_cons_of_ne_nil (hne first (hfull first List.mem_cons_self))
        obtain ⟨e', more', hmore'⟩ :=
          List.exists_cons_of_ne_nil (hne first' (hfull' first' List.mem_cons_self))
        rw [← fst_of_mem_rowEntries (hmore ▸ List.mem_cons_self : e ∈ rowEntries first),
          ← fst_of_mem_rowEntries (hmore' ▸ List.mem_cons_self : e' ∈ rowEntries first')]
        rw [hmore, hmore'] at heq
        rw [(List.cons.inj heq).1]
      have hentries : rowEntries first = rowEntries first' := by
        have hfilter := congrArg (List.filter (·.1 = first.1)) heq
        rw [filter_rowEntries_append h, hkey, filter_rowEntries_append h'] at hfilter
        exact hfilter
      obtain rfl := rowEntries_inj hkey hentries
      have hrest := ih h.of_cons h'.of_cons (fun row hrow => hfull row (List.mem_cons_of_mem _ hrow))
        (fun row hrow => hfull' row (List.mem_cons_of_mem _ hrow)) (List.append_cancel_left heq)
      rw [hrest]

/-- Matrices without empty rows are told apart by their entries. -/
theorem entries_inj {m m' : StatusMatrix} (h : Canonical m.rows) (h' : Canonical m'.rows)
    (hfull : ∀ row ∈ m.rows, row.2 ≠ .empty) (hfull' : ∀ row ∈ m'.rows, row.2 ≠ .empty)
    (heq : m.entries = m'.entries) : m = m' := by
  rw [entries_eq, entries_eq] at heq
  have hrows := rows_eq_of_flatMap_eq h.sorted h'.sorted hfull hfull' heq
  cases m
  exact congrArg mk hrows

/-- The methods of the entries of a canonical matrix are in capitals. -/
theorem Canonical.isLower_of_mem_entries {m : StatusMatrix} (h : Canonical m.rows)
    {e : Text × ScenarioKind × List StatusCode} (he : e ∈ m.entries) :
    ∀ c ∈ e.1, c.isLower = false := by
  rw [entries_eq] at he
  obtain ⟨row, hrow, he⟩ := List.mem_flatMap.mp he
  rw [fst_of_mem_rowEntries he]
  exact h.capital row hrow

end Entries

end StatusMatrix

/-- The settings of a file are normalized. -/
theorem Settings.parse_eq_normalized {format : Settings.Format} {text : Text} {s : Settings}
    (h : Settings.parse format text = .ok s) : ∃ read : Settings, s = read.normalized := by
  simp only [parse] at h
  split at h
  · next read _ =>
    split at h
    · exact ⟨read, (Except.ok.inj h).symm⟩
    · cases h
  · cases h

end ScenarioLint
