import ScenarioLint.Proofs.MethodName
import ScenarioLint.Proofs.Policy.ByteOrder
import ScenarioLint.Proofs.Settings.Matrix

/-!
A status matrix as a store.  Its rows are kept under the names of methods, a change of one row shows
under no other name, and what the rows hold is what their entries list.
-/

namespace ScenarioLint

/-- A run shows what was given last, if every step shows what it is given and else what was there. -/
theorem view_foldl {σ α β : Type} (good : σ → Prop) (view : σ → Option β) {step : σ → α → σ}
    {given : α → Option β} (hgood : ∀ s a, good s → good (step s a))
    (hstep : ∀ s a, good s → view (step s a) = (given a).or (view s)) (as : List α) {s : σ}
    (hs : good s) : view (as.foldl step s) = (as.filterMap given).getLast?.or (view s) := by
  induction as generalizing s with
  | nil => rfl
  | cons a as ih =>
    rw [List.foldl_cons, ih (hgood s a hs), hstep s a hs]
    cases hgiven : given a with
    | none => rw [List.filterMap_cons_none hgiven, Option.none_or]
    | some b =>
      rw [List.filterMap_cons_some hgiven, List.getLast?_cons, Option.some_or, Option.or_some]
      rfl

namespace ByKind

variable {α : Type}

theorem get?_empty (kind : ScenarioKind) : (empty : ByKind α).get? kind = none := by
  cases kind <;> rfl

theorem get?_put (m : ByKind α) (kind other : ScenarioKind) (a : α) :
    (m.put kind a).get? other = if kind = other then some a else m.get? other := by
  cases kind <;> cases other <;> rfl

theorem get?_extend (m other : ByKind α) (kind : ScenarioKind) :
    (m.extend other).get? kind = (other.get? kind).or (m.get? kind) := by
  cases kind <;> rfl

theorem mem_toList_iff {m : ByKind α} {kind : ScenarioKind} {a : α} :
    (kind, a) ∈ m.toList ↔ m.get? kind = some a := by
  have hall : kind ∈ ScenarioKind.all := by cases kind <;> decide
  rw [toList, List.mem_filterMap]
  constructor
  · rintro ⟨other, _, heq⟩
    obtain ⟨b, hb, hpair⟩ := Option.map_eq_some_iff.mp heq
    cases hpair
    exact hb
  · intro h
    exact ⟨kind, hall, by rw [h]; rfl⟩

/-- The entries are listed in the order of the kinds. -/
theorem pairwise_toList (m : ByKind α) : m.toList.Pairwise fun a b => a.1.rank < b.1.rank := by
  have hall : ScenarioKind.all.Pairwise fun a b => a.rank < b.rank := by decide
  refine hall.filterMap _ fun kind other hlt a ha b hb => ?_
  obtain ⟨_, _, rfl⟩ := Option.map_eq_some_iff.mp ha
  obtain ⟨_, _, rfl⟩ := Option.map_eq_some_iff.mp hb
  exact hlt

end ByKind

namespace StatusMatrix

/-- Rows in the order of their keys, each of which is the name of a method. -/
structure Keyed (rows : List (Text × ByKind (List StatusCode))) : Prop extends Canonical rows where
  methodName_eq : ∀ row ∈ rows, methodName row.1 = row.1

/-- The codes that rows hold for a key and a kind. -/
def codesAt? (rows : List (Text × ByKind (List StatusCode))) (key : Text) (kind : ScenarioKind) :
    Option (List StatusCode) :=
  (rows.lookup key).bind (·.get? kind)

theorem allowed_eq (m : StatusMatrix) (method : Text) (kind : ScenarioKind) :
    m.allowed method kind = (codesAt? m.rows (methodName method) kind).getD [] :=
  rfl

variable {key other : Text} {kind : ScenarioKind} {codes : List StatusCode}
  {f : ByKind (List StatusCode) → ByKind (List StatusCode)}
  {rows rows' : List (Text × ByKind (List StatusCode))}

section Sorted

/-- In sorted rows, a row is found under its key. -/
theorem mem_iff_lookup (h : rows.Pairwise fun a b => a.1 < b.1)
    {row : ByKind (List StatusCode)} : (key, row) ∈ rows ↔ rows.lookup key = some row := by
  constructor
  · intro hmem
    obtain ⟨front, back, rfl⟩ := List.append_of_mem hmem
    rw [List.lookup_eq_some_iff]
    refine ⟨front, back, rfl, fun p hp => bne_iff_ne.mpr ?_⟩
    have hlt : p.1 < key := (List.pairwise_append.mp h).2.2 p hp (key, row) List.mem_cons_self
    rintro rfl
    exact List.lt_irrefl _ hlt
  · intro hlookup
    obtain ⟨front, back, rfl, _⟩ := List.lookup_eq_some_iff.mp hlookup
    exact List.mem_append_right _ List.mem_cons_self

theorem lookup_cons_of_ne {row : ByKind (List StatusCode)} (h : key ≠ other) :
    ((key, row) :: rows).lookup other = rows.lookup other := by
  rw [List.lookup_cons, beq_false_of_ne h.symm]

/-- Changing a row leaves all other rows as they are. -/
theorem lookup_changeRow (h : rows.Pairwise fun a b => a.1 < b.1) :
    (changeRow key f rows).lookup other =
      if key = other then some (f ((rows.lookup key).getD .empty)) else rows.lookup other := by
  induction rows with
  | nil =>
    rw [changeRow]
    split
    · next hkey => rw [← hkey, List.lookup_cons_self, List.lookup_nil, Option.getD_none]
    · next hkey => rw [lookup_cons_of_ne hkey]
  | cons first rest ih =>
    obtain ⟨hfirst, hrest⟩ := List.pairwise_cons.mp h
    obtain ⟨name, row⟩ := first
    rw [changeRow]
    split
    · next hsame =>
      subst hsame
      rw [List.lookup_cons_self, Option.getD_some]
      split
      · next hkey => rw [← hkey, List.lookup_cons_self]
      · next hkey => rw [lookup_cons_of_ne hkey, lookup_cons_of_ne hkey]
    · next hne =>
      split
      · next hlt =>
        -- the key comes before all others, so that it has no row yet
        have hnone : ((name, row) :: rest).lookup key = none := by
          rw [List.lookup_eq_none_iff, List.forall_mem_cons]
          refine ⟨bne_iff_ne.mpr hne, fun p hp => bne_iff_ne.mpr ?_⟩
          rintro rfl
          exact List.lt_asymm hlt (hfirst p hp)
        rw [hnone, Option.getD_none]
        split
        · next hkey => rw [← hkey, List.lookup_cons_self]
        · next hkey => rw [lookup_cons_of_ne hkey]
      · by_cases hname : name = other
        · subst hname
          rw [if_neg hne, List.lookup_cons_self, List.lookup_cons_self]
        · rw [lookup_cons_of_ne hname, lookup_cons_of_ne hname, lookup_cons_of_ne (Ne.symm hne)]
          exact ih hrest

/-- Rows in which the same is found under every key are the same. -/
theorem eq_of_lookup_eq (h : rows.Pairwise fun a b => a.1 < b.1)
    (h' : rows'.Pairwise fun a b => a.1 < b.1) (heq : ∀ key, rows.lookup key = rows'.lookup key) :
    rows = rows' := by
  have hnodup : ∀ {l : List (Text × ByKind (List StatusCode))},
      l.Pairwise (fun a b => a.1 < b.1) → l.Nodup := by
    intro l hl
    refine hl.imp fun {a b} hlt hab => ?_
    rw [hab] at hlt
    exact List.lt_irrefl _ hlt
  have hperm : rows.Perm rows' := by
    rw [List.perm_ext_iff_of_nodup (hnodup h) (hnodup h')]
    rintro ⟨key, row⟩
    rw [mem_iff_lookup h, mem_iff_lookup h', heq]
  exact hperm.eq_of_pairwise (fun _ _ _ _ hlt hgt => absurd hgt (List.lt_asymm hlt)) h h'

theorem codesAt?_put (h : rows.Pairwise fun a b => a.1 < b.1) (k : ScenarioKind) :
    codesAt? (changeRow key (·.put kind codes) rows) other k =
      if key = other ∧ kind = k then some codes else codesAt? rows other k := by
  rw [codesAt?, lookup_changeRow h]
  by_cases hkey : key = other
  · subst hkey
    rw [if_pos rfl, Option.bind_some, ByKind.get?_put, codesAt?]
    simp only [true_and]
    cases rows.lookup key with
    | none => rw [Option.getD_none, ByKind.get?_empty, Option.bind_none]
    | some row => rfl
  · rw [if_neg hkey, if_neg fun hboth => hkey hboth.1]
    rfl

theorem codesAt?_extend (h : rows.Pairwise fun a b => a.1 < b.1)
    (more : ByKind (List StatusCode)) (k : ScenarioKind) :
    codesAt? (changeRow key (·.extend more) rows) other k =
      (if key = other then more.get? k else none).or (codesAt? rows other k) := by
  rw [codesAt?, lookup_changeRow h]
  by_cases hkey : key = other
  · subst hkey
    rw [if_pos rfl, if_pos rfl, Option.bind_some, ByKind.get?_extend, codesAt?]
    cases rows.lookup key with
    | none => rw [Option.getD_none, ByKind.get?_empty, Option.bind_none]
    | some row => rfl
  · rw [if_neg hkey, if_neg hkey]
    rfl

end Sorted

section Keyed

theorem Keyed.changeRow (hkey : methodName key = key) (h : Keyed rows) :
    Keyed (changeRow key f rows) := by
  refine ⟨h.toCanonical.changeRow fun c hc => ?_, fun row hrow => ?_⟩
  · rw [← hkey] at hc
    exact Text.isLower_of_mem_methodName hc
  · obtain hsame | ⟨old, hold, heq⟩ := key_of_mem_changeRow hrow
    · rw [hsame, hkey]
    · rw [← heq, h.methodName_eq old hold]

theorem keyed_empty : Keyed empty.rows :=
  ⟨⟨.nil, nofun⟩, nofun⟩

theorem Keyed.set {m : StatusMatrix} (h : Keyed m.rows) (method : Text) (kind : ScenarioKind)
    (codes : List StatusCode) : Keyed (m.set method kind codes).rows :=
  h.changeRow (methodName_methodName method)

theorem keyed_standard : Keyed standard.rows := by
  repeat apply Keyed.set
  exact keyed_empty

theorem keyed_normalized (m : StatusMatrix) : Keyed m.normalized.rows :=
  List.foldlRecOn m.rows _ keyed_empty fun _ h row _ => h.changeRow (methodName_methodName row.1)

/-- Keyed rows are told apart by the names that have a row and by the codes that they hold. -/
theorem Keyed.eq_of_codesAt?_eq (h : Keyed rows) (h' : Keyed rows')
    (hsome : ∀ method, (rows.lookup (methodName method)).isSome ↔
      (rows'.lookup (methodName method)).isSome)
    (hcodes : ∀ method kind, codesAt? rows (methodName method) kind =
      codesAt? rows' (methodName method) kind) : rows = rows' := by
  have hnamed : ∀ {l : List (Text × ByKind (List StatusCode))}, Keyed l → ∀ {key row},
      l.lookup key = some row → methodName key = key := by
    intro l hl key row hlookup
    exact hl.methodName_eq _ ((mem_iff_lookup hl.sorted).mpr hlookup)
  refine eq_of_lookup_eq h.sorted h'.sorted fun key => ?_
  by_cases hkey : methodName key = key
  · have hrow := hsome key
    have hget := hcodes key
    rw [hkey] at hrow hget
    cases hleft : rows.lookup key with
    | none =>
      rw [hleft] at hrow
      exact (Option.not_isSome_iff_eq_none.mp fun hright => Bool.noConfusion (hrow.mpr hright)).symm
    | some row =>
      rw [hleft] at hrow
      obtain ⟨row', hright⟩ := Option.isSome_iff_exists.mp (hrow.mp rfl)
      rw [hright, Option.some.injEq]
      refine ByKind.eq_of_get?_eq fun kind => ?_
      simpa only [codesAt?, hleft, hright, Option.bind_some] using hget kind
  · have hnone : ∀ {l : List (Text × ByKind (List StatusCode))}, Keyed l → l.lookup key = none :=
      fun hl => Option.eq_none_iff_forall_ne_some.mpr fun _ hlookup => hkey (hnamed hl hlookup)
    rw [hnone h, hnone h']

end Keyed

section Entries

variable {m : StatusMatrix}

theorem mem_entries_iff (h : Keyed m.rows) :
    (key, kind, codes) ∈ m.entries ↔ codesAt? m.rows key kind = some codes := by
  rw [entries_eq, List.mem_flatMap, codesAt?, Option.bind_eq_some_iff]
  constructor
  · rintro ⟨⟨name, row⟩, hrow, he⟩
    obtain ⟨⟨k, c⟩, hpair, heq⟩ := List.mem_map.mp he
    cases heq
    exact ⟨row, (mem_iff_lookup h.sorted).mp hrow, ByKind.mem_toList_iff.mp hpair⟩
  · rintro ⟨row, hrow, hcodes⟩
    exact ⟨(key, row), (mem_iff_lookup h.sorted).mpr hrow,
      List.mem_map.mpr ⟨(kind, codes), ByKind.mem_toList_iff.mpr hcodes, rfl⟩⟩

/-- Whatever is listed is what is allowed, however the method is written. -/
theorem allowed_of_mem_entries (h : Keyed m.rows) (hmem : (key, kind, codes) ∈ m.entries)
    {method : Text} (hmethod : SameMethod key method) : m.allowed method kind = codes := by
  have hcodes := (mem_entries_iff h).mp hmem
  have hname : methodName key = key := by
    obtain ⟨row, hrow, _⟩ := Option.bind_eq_some_iff.mp hcodes
    exact h.methodName_eq _ ((mem_iff_lookup h.sorted).mpr hrow)
  rw [allowed_eq, ← methodName_eq_iff.mpr hmethod, hname, hcodes, Option.getD_some]

/-- One entry is listed before another: its method comes first in the order of bytes, or it is the
    same and its kind comes first. -/
def Precedes (e e' : Text × ScenarioKind × List StatusCode) : Prop :=
  Policy.bytes e.1 < Policy.bytes e'.1 ∨ e.1 = e'.1 ∧ e.2.1.rank < e'.2.1.rank

theorem pairwise_entries (h : Keyed m.rows) : m.entries.Pairwise Precedes := by
  rw [entries_eq, List.pairwise_flatMap]
  refine ⟨fun row _ => ?_, h.sorted.imp fun {row row'} hlt e he e' he' => ?_⟩
  · refine row.2.pairwise_toList.map _ fun a b hlt => ?_
    exact .inr ⟨rfl, hlt⟩
  · obtain ⟨_, _, rfl⟩ := List.mem_map.mp he
    obtain ⟨_, _, rfl⟩ := List.mem_map.mp he'
    exact .inl (Policy.bytes_lt_bytes_iff.mpr hlt)

end Entries

end StatusMatrix

end ScenarioLint
