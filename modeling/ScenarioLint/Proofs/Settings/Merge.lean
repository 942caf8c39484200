import ScenarioLint.Proofs.Settings.Decoding
import ScenarioLint.Proofs.Settings.Store

/-!
Merging the spellings of a method.  A settings file may hold several rows for one method, under keys
that differ in case and padding, and each row may be silent about some kinds.  For each kind the row
with the greatest key that speaks about it counts, and none of them is lost.
-/

namespace ScenarioLint

/-- The last of the values that some items give, and the item that gives it. -/
theorem exists_of_getLast?_filterMap {α β : Type} {given : α → Option β} {as : List α} {b : β}
    (h : (as.filterMap given).getLast? = some b) :
    ∃ front a back, as = front ++ a :: back ∧ given a = some b ∧ ∀ c ∈ back, given c = none := by
  obtain ⟨_, hlast⟩ := List.getLast?_eq_some_iff.mp h
  obtain ⟨front, rest, rfl, _, hrest⟩ := List.filterMap_eq_append_iff.mp hlast
  obtain ⟨silent, a, back, rfl, _, ha, hback⟩ := List.filterMap_eq_cons_iff.mp hrest
  exact ⟨front ++ silent, a, back, (List.append_assoc _ _ _).symm, ha,
    List.filterMap_eq_nil_iff.mp hback⟩

namespace StatusMatrix

variable {m : StatusMatrix} {method : Text} {kind : ScenarioKind} {codes : List StatusCode}

/-- The codes of a row for a kind, if its key names the method. -/
def spelledCodes? (method : Text) (kind : ScenarioKind) (row : Text × ByKind (List StatusCode)) :
    Option (List StatusCode) :=
  if SameMethod row.1 method then row.2.get? kind else none

theorem spelledCodes?_eq_some_iff {row : Text × ByKind (List StatusCode)} :
    spelledCodes? method kind row = some codes ↔
      SameMethod row.1 method ∧ row.2.get? kind = some codes := by
  rw [spelledCodes?]
  split <;> simp [*]

/-- The rows of a decoded matrix are in the order of their keys. -/
theorem sorted_of_decodeMatrix {node : Settings.Node} (h : Settings.decodeMatrix node = .ok m) :
    m.rows.Pairwise fun a b => a.1 < b.1 := by
  obtain ⟨rows, hrows, hm⟩ := Settings.exists_ok_of_bind h
  cases hm
  refine Settings.decodeTable_induction (fun done key node next hdone hnext => ?_) .nil hrows
  obtain ⟨row, _, hrow⟩ := Settings.exists_ok_of_bind hnext
  cases hrow
  exact sorted_changeRow hdone

/-- The last row that speaks about a kind counts. -/
theorem codesAt?_normalized (m : StatusMatrix) (method : Text) (kind : ScenarioKind) :
    codesAt? m.normalized.rows (methodName method) kind =
      (m.rows.filterMap (spelledCodes? method kind)).getLast? := by
  have hstep : ∀ rows (row : Text × ByKind (List StatusCode)), Keyed rows →
      codesAt? (changeRow (methodName row.1) (·.extend row.2) rows) (methodName method) kind =
        (spelledCodes? method kind row).or (codesAt? rows (methodName method) kind) := by
    intro rows row h
    rw [codesAt?_extend h.sorted, spelledCodes?]
    simp only [methodName_eq_iff]
  have hfold := view_foldl Keyed (fun rows => codesAt? rows (methodName method) kind)
    (fun _ row h => h.changeRow (methodName_methodName row.1)) hstep m.rows keyed_empty
  exact hfold.trans Option.or_none

/-- The codes that count for a method and a kind: those under the greatest key, in the order of bytes,
    that names the method and has codes for the kind. -/
def Counts (m : StatusMatrix) (method : Text) (kind : ScenarioKind) (codes : List StatusCode) : Prop :=
  ∃ row ∈ m.rows, SameMethod row.1 method ∧ row.2.get? kind = some codes ∧
    ∀ other ∈ m.rows, SameMethod other.1 method → (other.2.get? kind).isSome → other ≠ row →
      Policy.bytes other.1 < Policy.bytes row.1

theorem counts_of_codesAt?_normalized (h : m.rows.Pairwise fun a b => a.1 < b.1)
    (hcodes : codesAt? m.normalized.rows (methodName method) kind = some codes) :
    Counts m method kind codes := by
  rw [codesAt?_normalized] at hcodes
  obtain ⟨front, row, back, hrows, hrow, hback⟩ := exists_of_getLast?_filterMap hcodes
  obtain ⟨hsame, hget⟩ := spelledCodes?_eq_some_iff.mp hrow
  have hmem : row ∈ m.rows := hrows ▸ List.mem_append_right _ List.mem_cons_self
  refine ⟨row, hmem, hsame, hget, fun other hother hnames hsome hne => ?_⟩
  rw [hrows] at h hother
  obtain hfront | hrest := List.mem_append.mp hother
  · exact Policy.bytes_lt_bytes_iff.mpr
      ((List.pairwise_append.mp h).2.2 other hfront row List.mem_cons_self)
  · -- behind the row that counts no row speaks about the kind
    have hbehind := List.mem_of_ne_of_mem hne hrest
    obtain ⟨spoken, hspoken⟩ := Option.isSome_iff_exists.mp hsome
    have hgiven := spelledCodes?_eq_some_iff.mpr ⟨hnames, hspoken⟩
    rw [hback other hbehind] at hgiven
    cases hgiven

theorem codesAt?_normalized_eq_none_iff :
    codesAt? m.normalized.rows (methodName method) kind = none ↔
      ∀ row ∈ m.rows, SameMethod row.1 method → row.2.get? kind = none := by
  rw [codesAt?_normalized, List.getLast?_eq_none_iff, List.filterMap_eq_nil_iff]
  refine forall₂_congr fun row _ => ?_
  rw [spelledCodes?]
  split <;> simp [*]

/-- Merging the spellings of a method.  A method allows for a kind what the greatest key that names it
    and speaks about the kind gives, and nothing if no key does.  Whatever kind is spoken about under
    any key has an entry under the name of its method. -/
theorem allowed_normalized {node : Settings.Node} {m : StatusMatrix}
    (h : Settings.decodeMatrix node = .ok m) (method : Text) (kind : ScenarioKind) :
    (Counts m method kind (m.normalized.allowed method kind) ∨
      (∀ row ∈ m.rows, SameMethod row.1 method → row.2.get? kind = none) ∧
        m.normalized.allowed method kind = []) ∧
    ∀ row ∈ m.rows, SameMethod row.1 method → (row.2.get? kind).isSome →
      (methodName method, kind, m.normalized.allowed method kind) ∈ m.normalized.entries := by
  have hsorted := sorted_of_decodeMatrix h
  rw [allowed_eq, mem_entries_iff (keyed_normalized m)]
  cases hcodes : codesAt? m.normalized.rows (methodName method) kind with
  | none =>
    have hsilent := codesAt?_normalized_eq_none_iff.mp hcodes
    refine ⟨.inr ⟨hsilent, rfl⟩, fun row hrow hsame hsome => ?_⟩
    rw [hsilent row hrow hsame] at hsome
    cases hsome
  | some codes =>
    exact ⟨.inl (counts_of_codesAt?_normalized hsorted hcodes), fun _ _ _ _ => rfl⟩

/-- Three spellings of one method, of which the two padded ones come first in the order of bytes. -/
theorem allowed_normalized_spellings :
    let codes : List Int → Settings.Node := fun cs => .list (cs.map .integer) true
    let node : Settings.Node := .table
      [(some "get".toList, .table [(some "happy".toList, codes [200, 206])] true),
       (some " Get".toList, .table [(some "Happy".toList, codes [201]),
          (some "error".toList, codes [404])] true),
       (some "GET ".toList, .table [(some "error".toList, codes [])] true)] true
    let m : StatusMatrix := ⟨[(" Get".toList, ⟨some [201], some [404], none⟩),
      ("GET ".toList, ⟨none, some [], none⟩), ("get".toList, ⟨some [200, 206], none, none⟩)]⟩
    Settings.decodeMatrix node = .ok m ∧
    m.normalized.allowed "geT".toList .happy = [200, 206] ∧
    ("GET".toList, .error, m.normalized.allowed "geT".toList .error) ∈ m.normalized.entries ∧
    m.normalized.allowed "geT".toList .error = [] := by
  intro codes node m
  have hdecode : Settings.decodeMatrix node = .ok m := by decide +kernel
  obtain ⟨hhappy | ⟨hsilent, _⟩, _⟩ := allowed_normalized hdecode "geT".toList .happy
  · obtain ⟨row, hrow, _, hget, hgreatest⟩ := hhappy
    obtain ⟨_, hkept⟩ := allowed_normalized hdecode "geT".toList .error
    refine ⟨hdecode, ?_, hkept ("GET ".toList, ⟨none, some [], none⟩) (by decide) (by decide) rfl,
      by decide +kernel⟩
    simp only [m, List.mem_cons, List.not_mem_nil, or_false] at hrow
    obtain rfl | rfl | rfl := hrow
    · have hbefore := hgreatest ("get".toList, ⟨some [200, 206], none, none⟩) (by decide) (by decide)
        rfl (by decide)
      exact absurd hbefore (by decide)
    · cases hget
    · exact (Option.some.inj hget).symm
  · have hnone := hsilent ("get".toList, ⟨some [200, 206], none, none⟩) (by decide) (by decide)
    cases hnone

end StatusMatrix

end ScenarioLint
