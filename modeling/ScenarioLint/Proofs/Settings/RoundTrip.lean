import ScenarioLint.Proofs.Json.Decoding
import ScenarioLint.Proofs.Settings.Decoding
import ScenarioLint.Proofs.Settings.Store

/-!
Settings on their way through JSON.  Reading a settings file sorts the keywords and merges the rows of
a method; settings that have been through this come back unchanged from the JSON that is written of
them.
-/

namespace ScenarioLint

open Json (Value)

namespace ByKind

variable {α : Type}

theorem foldl_put_toList (m : ByKind α) :
    m.toList.foldl (fun done e => done.put e.1 e.2) .empty = m := by
  obtain ⟨happy, error, edge⟩ := m
  cases happy <;> cases error <;> cases edge <;> rfl

theorem extend_empty (m : ByKind α) : empty.extend m = m :=
  eq_of_get?_eq fun kind => by rw [get?_extend, get?_empty, Option.or_none]

end ByKind

namespace StatusMatrix

variable {rows : List (Text × ByKind (List StatusCode))}

/-- A row whose key comes behind all others is put at the end. -/
theorem changeRow_of_forall_lt {key : Text} {f : ByKind (List StatusCode) → ByKind (List StatusCode)}
    (h : ∀ row ∈ rows, row.1 < key) : changeRow key f rows = rows ++ [(key, f .empty)] := by
  induction rows with
  | nil => rfl
  | cons first rest ih =>
    obtain ⟨hfirst, hrest⟩ := List.forall_mem_cons.mp h
    have hne : key ≠ first.1 := by
      rintro rfl
      exact List.lt_irrefl _ hfirst
    rw [changeRow, if_neg hne, if_neg (List.lt_asymm hfirst), ih hrest, List.cons_append]

/-- Rows that are added in the order of their keys are kept as they are. -/
theorem foldl_changeRow (done : List (Text × ByKind (List StatusCode)))
    {key : Text × ByKind (List StatusCode) → Text}
    {change : Text × ByKind (List StatusCode) → ByKind (List StatusCode) → ByKind (List StatusCode)}
    (hsorted : (done ++ rows).Pairwise fun a b => a.1 < b.1)
    (h : ∀ row ∈ rows, key row = row.1 ∧ change row .empty = row.2) :
    rows.foldl (fun done row => changeRow (key row) (change row) done) done = done ++ rows := by
  induction rows generalizing done with
  | nil => rw [List.foldl_nil, List.append_nil]
  | cons row rest ih =>
    obtain ⟨⟨hkey, hchange⟩, hrest⟩ := List.forall_mem_cons.mp h
    have hbehind : ∀ old ∈ done, old.1 < key row := by
      rw [hkey]
      exact fun old hold => (List.pairwise_append.mp hsorted).2.2 old hold row List.mem_cons_self
    rw [List.foldl_cons, changeRow_of_forall_lt hbehind, hkey, hchange,
      ih _ (by simpa using hsorted) hrest, List.append_assoc, List.singleton_append]

/-- Normalizing changes no matrix that is keyed by the names of methods. -/
theorem normalized_eq_self {m : StatusMatrix} (h : Keyed m.rows) : m.normalized = m :=
  congrArg mk (foldl_changeRow [] h.sorted fun row hrow =>
    ⟨h.methodName_eq row hrow, ByKind.extend_empty row.2⟩)

end StatusMatrix

namespace Settings

/-- Normalizing a second time changes nothing. -/
theorem normalized_normalized (s : Settings) : s.normalized.normalized = s.normalized := by
  have hkeywords : ∀ k ∈ Keyword.all, (Keyword.all.filter (s.keywords.contains ·)).contains k =
      s.keywords.contains k := by
    intro k hk
    rw [List.contains_eq_mem, List.contains_eq_mem]
    simp [List.mem_filter, hk]
  have hmatrix := StatusMatrix.normalized_eq_self (StatusMatrix.keyed_normalized s.matrix)
  simp only [normalized, hmatrix, List.filter_congr hkeywords]

theorem pairwise_keywords (s : Settings) :
    s.normalized.keywords.Pairwise fun a b => a.rank < b.rank := by
  have hall : Keyword.all.Pairwise fun a b => a.rank < b.rank := by decide
  exact hall.filter _

section Node

/-- The settings tree of a written value. -/
theorem ofJsonItems_sources (items : List Value) :
    Node.ofJsonItems (Value.sources items) = items.map fun v => Node.ofJson v.source := by
  induction items with
  | nil => rfl
  | cons v rest ih => rw [Value.sources, Node.ofJsonItems, ih, List.map_cons]

theorem ofJsonMembers_memberSources (members : List (Text × Value)) :
    Node.ofJsonMembers (Value.memberSources members) =
      members.map fun m => (some m.1, Node.ofJson m.2.source) := by
  induction members with
  | nil => rfl
  | cons m rest ih => rw [Value.memberSources, Node.ofJsonMembers, ih, List.map_cons]

theorem ofJson_array {α : Type} (f : α → Value) (as : List α) :
    Node.ofJson (Value.array (as.map f)).source =
      .list (as.map fun a => Node.ofJson (f a).source) true := by
  rw [Value.source, Node.ofJson, ofJsonItems_sources, List.map_map]
  rfl

theorem ofJson_object {α : Type} (key : α → Text) (f : α → Value) (as : List α) :
    Node.ofJson (Value.object (as.map fun a => (key a, f a))).source =
      .table (as.map fun a => (some (key a), Node.ofJson (f a).source)) true := by
  rw [Value.source, Node.ofJson, ofJsonMembers_memberSources, List.map_map]
  rfl

theorem ofJson_count (n : Nat) : Node.ofJson (Value.count n).source = .integer n := by
  rw [Value.count, Value.source, Node.ofJson, Json.Literal.integer?_ofInteger]

end Node

section Decode

theorem decodeCode_count (code : StatusCode) :
    decodeCode (Node.ofJson (Value.count code.toNat).source) = .ok code := by
  have hrange : (0 ≤ (code.toNat : Int) && (code.toNat : Int) < UInt16.size) = true :=
    Bool.and_eq_true_iff.mpr ⟨decide_eq_true (by omega),
      decide_eq_true (Int.ofNat_lt.mpr code.toNat_lt_size)⟩
  rw [ofJson_count, decodeCode, Node.untagged_integer]
  simp only [hrange, if_true, Int.toNat_natCast, UInt16.ofNat_toNat]

theorem decodeMinimum_count (minimum : UInt64) :
    decodeMinimum (Node.ofJson (Value.count minimum.toNat).source) = .ok minimum := by
  have hrange : (0 ≤ (minimum.toNat : Int) && (minimum.toNat : Int) < UInt64.size) = true :=
    Bool.and_eq_true_iff.mpr ⟨decide_eq_true (by omega),
      decide_eq_true (Int.ofNat_lt.mpr minimum.toNat_lt_size)⟩
  rw [ofJson_count, decodeMinimum, Node.untagged_integer]
  simp only [hrange, if_true, Int.toNat_natCast, UInt64.ofNat_toNat]

theorem decodeKind_name (kind : ScenarioKind) : decodeKind kind.name = .ok kind := by
  cases kind <;> rfl

theorem decodeKeyword_word (k : Keyword) :
    decodeKeyword .json (Node.ofJson (Value.string k.word).source) = .ok k := by
  cases k <;> rfl

/-- A table with one entry for each kind that has one. -/
theorem decodeByKind_toList {α : Type} {f : Node → Except Fault α} {node : α → Node}
    (h : ∀ a, f (node a) = .ok a) (m : ByKind α) :
    decodeByKind f (.table (m.toList.map fun e => (some e.1.name, node e.2)) true) = .ok m := by
  rw [decodeByKind, decodeTable_of_forall (fun done e => done.put e.1 e.2),
    ByKind.foldl_put_toList]
  intro done e _
  rw [decodeKind_name, h]
  rfl

theorem decodeByKind_codes (row : ByKind (List StatusCode)) :
    decodeByKind (decodeList decodeCode) (Node.ofJson (Value.object (row.toList.map fun e =>
      (e.1.name, .array (e.2.map fun code => .count code.toNat)))).source) = .ok row := by
  rw [ofJson_object (fun e : ScenarioKind × List StatusCode => e.1.name)]
  have hcodes : ∀ codes : List StatusCode, decodeList decodeCode
      (Node.ofJson (Value.array (codes.map fun code => .count code.toNat)).source) = .ok codes := by
    intro codes
    rw [ofJson_array]
    exact decodeList_of_forall fun code _ => decodeCode_count code
  exact decodeByKind_toList hcodes row

/-- A matrix is decoded from its JSON. -/
theorem decodeMatrix_matrixValue {m : StatusMatrix} (h : m.rows.Pairwise fun a b => a.1 < b.1) :
    decodeMatrix (Node.ofJson (matrixValue m).source) = .ok m := by
  rw [matrixValue, ofJson_object Prod.fst, decodeMatrix,
    decodeTable_of_forall fun rows row => StatusMatrix.changeRow row.1 (fun _ => row.2) rows]
  · rw [StatusMatrix.foldl_changeRow [] h fun _ _ => ⟨rfl, rfl⟩]
    rfl
  · intro rows row _
    rw [decodeByKind_codes row.2]
    rfl

theorem decodeTargets_targetsValue (t : ChecklistTargets) :
    decodeTargets (Node.ofJson (targetsValue t).source) = .ok t := by
  rw [targetsValue, ofJson_object (fun e : ScenarioKind × UInt64 => e.1.name), decodeTargets,
    ChecklistTargets.entries, decodeByKind_toList decodeMinimum_count]
  rfl

theorem decode_value {s : Settings} (h : s.matrix.rows.Pairwise fun a b => a.1 < b.1) :
    decode .json (Node.ofJson s.value.source) = .ok s := by
  have hkeywords : decodeList (decodeKeyword .json)
      (Node.ofJson (Value.array (s.keywords.map fun k => .string k.word)).source) = .ok s.keywords := by
    rw [ofJson_array]
    exact decodeList_of_forall fun k _ => decodeKeyword_word k
  have htree : Node.ofJson s.value.source = .table
      [(some "allowed_keywords".toList,
          Node.ofJson (Value.array (s.keywords.map fun k => .string k.word)).source),
       (some "status_matrix".toList, Node.ofJson (matrixValue s.matrix).source),
       (some "checklist_targets".toList, Node.ofJson (targetsValue s.targets).source)] true := rfl
  have hfirst : Draft.read .json {} "allowed_keywords".toList
      (Node.ofJson (Value.array (s.keywords.map fun k => .string k.word)).source) =
        .ok ⟨some s.keywords, none, none⟩ := by
    simp only [Draft.read, hkeywords]
    rfl
  have hsecond : Draft.read .json ⟨some s.keywords, none, none⟩ "status_matrix".toList
      (Node.ofJson (matrixValue s.matrix).source) = .ok ⟨some s.keywords, some s.matrix, none⟩ := by
    simp only [Draft.read, decodeMatrix_matrixValue h]
    rfl
  have hthird : Draft.read .json ⟨some s.keywords, some s.matrix, none⟩ "checklist_targets".toList
      (Node.ofJson (targetsValue s.targets).source) =
        .ok ⟨some s.keywords, some s.matrix, some s.targets⟩ := by
    simp only [Draft.read, decodeTargets_targetsValue]
    rfl
  rw [htree, decode]
  · simp only [decodeTable, Node.untagged_table, List.foldlM_cons, List.foldlM_nil, hfirst, hsecond,
      hthird, bind, Except.bind]
    rfl
  · intro _ _ _ hlist
    cases hlist

end Decode

/-- Settings are written without doubles. -/
theorem isExact_value (s : Settings) : s.value.isExact = true := by
  have hkeywords : (Value.array (s.keywords.map fun k => .string k.word)).isExact = true :=
    Value.isExact_array fun _ _ => rfl
  have hmatrix : (matrixValue s.matrix).isExact = true :=
    Value.isExact_object fun _ _ => Value.isExact_object fun _ _ => Value.isExact_array fun _ _ => rfl
  have htargets : (targetsValue s.targets).isExact = true := Value.isExact_object fun _ _ => rfl
  rw [value, Value.isExact, Value.membersExact_iff]
  simp only [List.forall_mem_cons, hkeywords, hmatrix, htargets, List.not_mem_nil, false_implies,
    implies_true, and_true]

/-- Settings that have been read from a file are read again from their JSON, compact or over several
    lines.  Their keywords are sorted without repetition, and their methods are trimmed and in ASCII
    capitals. -/
theorem parse_value {format : Format} {text : Text} {s : Settings} (h : parse format text = .ok s) :
    parse .json s.value.compact = .ok s ∧ parse .json s.value.pretty = .ok s ∧
      s.keywords.Pairwise (fun a b => a.rank < b.rank) ∧
      ∀ row ∈ s.matrix.rows, row.1.trim = row.1 ∧ row.1.toUpper = row.1 := by
  obtain ⟨read, rfl⟩ := parse_eq_normalized h
  have hkeyed : StatusMatrix.Keyed read.normalized.matrix.rows :=
    StatusMatrix.keyed_normalized read.matrix
  have hdecode := decode_value hkeyed.sorted
  have hexact := isExact_value read.normalized
  refine ⟨?_, ?_, pairwise_keywords read,
    fun row hrow => methodName_eq_self_iff.mp (hkeyed.methodName_eq row hrow)⟩
  · simp only [parse, readTree, Json.Document.read_compact hexact, hdecode, normalized_normalized,
      if_true]
  · simp only [parse, readTree, Json.Document.read_pretty hexact, hdecode, normalized_normalized,
      if_true]

/-- A file with repeated and unsorted keywords and with three spellings of one method. -/
theorem parse_value_spellings :
    let text : Text := "allowed_keywords: [Then, Given, Then]\n".toList ++
      "status_matrix:\n  get: \x7bhappy: [200]\x7d\n  ' Get': \x7bEDGE: []\x7d\n".toList ++
      "  'GET ': \x7bhappy: [204, 206]\x7d\n".toList
    let s : Settings := ⟨[.given, .then], ⟨[("GET".toList, ⟨some [200], none, some []⟩)]⟩, .standard⟩
    parse .yaml text = .ok s ∧ parse .json s.value.compact = .ok s ∧
      parse .json s.value.pretty = .ok s := by
  intro text s
  have hparse : parse .yaml text = .ok s := by decide +kernel
  obtain ⟨hcompact, hpretty, _⟩ := parse_value hparse
  exact ⟨hparse, hcompact, hpretty⟩

end Settings

end ScenarioLint
