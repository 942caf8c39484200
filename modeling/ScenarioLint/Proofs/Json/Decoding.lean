import ScenarioLint.Json.Decode
import ScenarioLint.Proofs.Json.Reading

/-!
Decoding what was encoded.  A value that came out of a decoder keeps to the limits of the decoder, and
within these limits the tree of a value denotes the value again.
-/

namespace ScenarioLint.Json

/-- What the decoder makes values of: an integer of at most 64 bits, arrays and objects at most
    `depth` within one another, and sorted keys. -/
inductive Value.Fits : (depth : Nat) → Value → Prop
  | null {depth : Nat} : Fits depth .null
  | bool {depth : Nat} (b : Bool) : Fits depth (.bool b)
  | integer {depth : Nat} {k : Int} (hlow : Int64.minValue.toInt ≤ k) (hhigh : k < UInt64.size) :
      Fits depth (.number (.integer k))
  | real {depth : Nat} (x : Binary64) : Fits depth (.number (.real x))
  | string {depth : Nat} (t : Text) : Fits depth (.string t)
  | array {depth : Nat} {items : List Value} (h : ∀ v ∈ items, Fits depth v) :
      Fits (depth + 1) (.array items)
  | object {depth : Nat} {members : List (Text × Value)}
      (hsorted : members.Pairwise fun a b => a.1 < b.1) (h : ∀ m ∈ members, Fits depth m.2) :
      Fits (depth + 1) (.object members)

section Members

variable {key : Text} {v : Value} {members : List (Text × Value)}

theorem mem_insertMember {m : Text × Value} (h : m ∈ insertMember key v members) :
    m = (key, v) ∨ m ∈ members := by
  induction members with
  | nil => exact .inl (List.mem_singleton.mp h)
  | cons first rest ih =>
    rw [insertMember] at h
    split at h
    · obtain rfl | hrest := List.mem_cons.mp h
      · exact .inl rfl
      · exact .inr (List.mem_cons_of_mem _ hrest)
    · split at h
      · obtain rfl | hold := List.mem_cons.mp h
        · exact .inl rfl
        · exact .inr hold
      · obtain rfl | hrest := List.mem_cons.mp h
        · exact .inr List.mem_cons_self
        · exact (ih hrest).imp_right (List.mem_cons_of_mem _)

theorem sorted_insertMember (h : members.Pairwise fun a b => a.1 < b.1) :
    (insertMember key v members).Pairwise fun a b => a.1 < b.1 := by
  induction members with
  | nil => exact List.pairwise_singleton _ _
  | cons first rest ih =>
    obtain ⟨hfirst, hrest⟩ := List.pairwise_cons.mp h
    rw [insertMember]
    split
    · next hsame => exact List.pairwise_cons.mpr ⟨hsame ▸ hfirst, hrest⟩
    · next hne =>
      split
      · next hlt =>
        refine List.pairwise_cons.mpr ⟨fun m hm => ?_, h⟩
        obtain rfl | hm := List.mem_cons.mp hm
        · exact hlt
        · exact List.lt_trans hlt (hfirst m hm)
      · next hnlt =>
        have hgt : first.1 < key := by
          by_contra hnot
          exact hne (List.le_antisymm (List.not_lt.mp hnot) (List.not_lt.mp hnlt))
        refine List.pairwise_cons.mpr ⟨fun m hm => ?_, ih hrest⟩
        obtain rfl | hm := mem_insertMember hm
        · exact hgt
        · exact hfirst m hm

/-- A member behind all others is put at the end. -/
theorem insertMember_of_forall_lt (h : ∀ m ∈ members, m.1 < key) :
    insertMember key v members = members ++ [(key, v)] := by
  induction members with
  | nil => rfl
  | cons first rest ih =>
    obtain ⟨hfirst, hrest⟩ := List.forall_mem_cons.mp h
    have hne : key ≠ first.1 := by
      rintro rfl
      exact List.lt_irrefl _ hfirst
    rw [insertMember, if_neg hne, if_neg (List.lt_asymm hfirst), ih hrest, List.cons_append]

end Members

/-- The literal of an integer denotes the integer. -/
theorem Literal.integer?_ofInteger (k : Int) : (ofInteger k).integer? = some k := by
  have hwhole : ((none : Option Text).isSome || (none : Option Int).isSome ||
      (decide (k < 0) && decide (k.natAbs = 0))) = false := by
    rw [Option.isSome_none, Option.isSome_none, Bool.false_or, Bool.false_or, ← Bool.decide_and,
      decide_eq_false_iff_not]
    omega
  have hsame : (if decide (k < 0) = true then -(k.natAbs : Int) else k.natAbs) = k := by
    split
    · next hneg =>
      rw [decide_eq_true_eq] at hneg
      omega
    · next hnot =>
      rw [decide_eq_true_eq] at hnot
      omega
  rw [integer?, ofInteger, ofDigits_ofNat, hwhole, if_neg Bool.false_ne_true, hsame]

/-- An integer of at most 64 bits is kept as it is written. -/
theorem Literal.number?_ofInteger {k : Int} (hlow : Int64.minValue.toInt ≤ k)
    (hhigh : k < UInt64.size) : (ofInteger k).number? = some (.integer k) := by
  have hrange : (Int64.minValue.toInt ≤ k && k < UInt64.size) = true :=
    Bool.and_eq_true_iff.mpr ⟨decide_eq_true hlow, decide_eq_true hhigh⟩
  rw [number?, integer?_ofInteger]
  exact if_pos hrange

theorem Literal.fits_of_number? {n : Literal} {number : Number} (h : n.number? = some number)
    (depth : Nat) : Value.Fits depth (.number number) := by
  rw [number?] at h
  split at h
  · split at h
    · rename_i hrange
      cases h
      simp only [Bool.and_eq_true, decide_eq_true_eq] at hrange
      exact .integer hrange.1 hrange.2
    · obtain ⟨x, _, rfl⟩ := Option.map_eq_some_iff.mp h
      exact .real x
  · obtain ⟨x, _, rfl⟩ := Option.map_eq_some_iff.mp h
    exact .real x

namespace Source

mutual

/-- Every value that is decoded fits. -/
theorem fits_of_value? : ∀ (s : Source) {depth : Nat} {v : Value}, s.value? depth = some v →
    v.Fits depth
  | .null, _, _, h => by
    cases h
    exact .null
  | .bool b, _, _, h => by
    cases h
    exact .bool b
  | .number n, depth, _, h => by
    obtain ⟨number, hnumber, rfl⟩ := Option.map_eq_some_iff.mp h
    exact Literal.fits_of_number? hnumber depth
  | .string t, _, _, h => by
    cases h
    exact .string t
  | .unpaired, _, _, h => by cases h
  | .broken, _, _, h => by cases h
  | .array items closed, depth, _, h => by
    rw [value?] at h
    split at h
    · rename_i hdepth
      simp only [Bool.and_eq_true, decide_eq_true_eq] at hdepth
      obtain ⟨depth, rfl⟩ := Nat.exists_eq_succ_of_ne_zero hdepth.2.ne'
      obtain ⟨vs, hvs, rfl⟩ := Option.map_eq_some_iff.mp h
      exact .array (fits_of_values? items hvs)
    · cases h
  | .object members closed, depth, _, h => by
    rw [value?] at h
    split at h
    · rename_i hdepth
      simp only [Bool.and_eq_true, decide_eq_true_eq] at hdepth
      obtain ⟨depth, rfl⟩ := Nat.exists_eq_succ_of_ne_zero hdepth.2.ne'
      obtain ⟨ms, hms, rfl⟩ := Option.map_eq_some_iff.mp h
      obtain ⟨hsorted, hfits⟩ := fits_of_members? members hms .nil nofun
      exact .object hsorted hfits
    · cases h

theorem fits_of_values? : ∀ (items : List Source) {depth : Nat} {vs : List Value},
    values? depth items = some vs → ∀ v ∈ vs, v.Fits depth
  | [], _, _, h => by
    cases h
    exact nofun
  | s :: rest, depth, vs, h => by
    rw [values?] at h
    split at h
    · rename_i v more hv hmore
      cases h
      exact List.forall_mem_cons.mpr ⟨fits_of_value? s hv, fits_of_values? rest hmore⟩
    · cases h

theorem fits_of_members? : ∀ (members : List (Option Text × Source)) {depth : Nat}
    {done ms : List (Text × Value)}, members? depth members done = some ms →
    done.Pairwise (fun a b => a.1 < b.1) → (∀ m ∈ done, m.2.Fits depth) →
    ms.Pairwise (fun a b => a.1 < b.1) ∧ ∀ m ∈ ms, m.2.Fits depth
  | [], _, _, _, h, hsorted, hfits => by
    cases h
    exact ⟨hsorted, hfits⟩
  | (none, _) :: _, _, _, _, h, _, _ => by cases h
  | (some key, s) :: rest, depth, done, ms, h, hsorted, hfits => by
    rw [members?] at h
    split at h
    · rename_i v hv
      refine fits_of_members? rest h (sorted_insertMember hsorted) fun m hm => ?_
      obtain rfl | hm := mem_insertMember hm
      · exact fits_of_value? s hv
      · exact hfits m hm
    · cases h

end

theorem values?_sources {depth : Nat} {items : List Value}
    (h : ∀ v ∈ items, v.source.value? depth = some v) :
    values? depth (Value.sources items) = some items := by
  induction items with
  | nil => rfl
  | cons v rest ih =>
    obtain ⟨hv, hrest⟩ := List.forall_mem_cons.mp h
    rw [Value.sources, values?, hv, ih hrest]

theorem members?_memberSources {depth : Nat} {members done : List (Text × Value)}
    (hsorted : (done ++ members).Pairwise fun a b => a.1 < b.1)
    (h : ∀ m ∈ members, m.2.source.value? depth = some m.2) :
    members? depth (Value.memberSources members) done = some (done ++ members) := by
  induction members generalizing done with
  | nil => rw [Value.memberSources, members?, List.append_nil]
  | cons first rest ih =>
    obtain ⟨hfirst, hrest⟩ := List.forall_mem_cons.mp h
    have hlt : ∀ m ∈ done, m.1 < first.1 := fun m hm =>
      (List.pairwise_append.mp hsorted).2.2 m hm first List.mem_cons_self
    rw [Value.memberSources, members?, hfirst]
    dsimp only
    rw [insertMember_of_forall_lt hlt, ih (by simpa using hsorted) hrest, List.append_assoc]
    rfl

end Source

namespace Value

theorem areExact_iff {items : List Value} :
    areExact items = true ↔ ∀ v ∈ items, v.isExact = true := by
  induction items with
  | nil => simp [areExact]
  | cons v rest ih => rw [areExact, Bool.and_eq_true, ih, List.forall_mem_cons]

theorem membersExact_iff {members : List (Text × Value)} :
    membersExact members = true ↔ ∀ m ∈ members, m.2.isExact = true := by
  induction members with
  | nil => simp [membersExact]
  | cons m rest ih => rw [membersExact, Bool.and_eq_true, ih, List.forall_mem_cons]

theorem isExact_array {α : Type} {f : α → Value} {as : List α} (h : ∀ a ∈ as, (f a).isExact = true) :
    (array (as.map f)).isExact = true := by
  rw [isExact, areExact_iff, List.forall_mem_map]
  exact h

theorem isExact_object {α : Type} {key : α → Text} {f : α → Value} {as : List α}
    (h : ∀ a ∈ as, (f a).isExact = true) :
    (object (as.map fun a => (key a, f a))).isExact = true := by
  rw [isExact, membersExact_iff, List.forall_mem_map]
  exact h

theorem isExact_present {members : List (String × Option Value)}
    (h : ∀ m ∈ members, ∀ v ∈ m.2, v.isExact = true) : (present members).isExact = true := by
  rw [present, isExact, membersExact_iff]
  intro m hm
  obtain ⟨⟨key, v⟩, hmem, hv⟩ := List.mem_filterMap.mp hm
  obtain ⟨w, hw, rfl⟩ := Option.map_eq_some_iff.mp hv
  exact h _ hmem w hw

/-- A value that fits is decoded from its tree. -/
theorem Fits.value?_source {depth : Nat} {v : Value} (h : v.Fits depth) (hexact : v.isExact = true) :
    v.source.value? depth = some v := by
  induction h with
  | null => rfl
  | bool b => rfl
  | @integer depth k hlow hhigh =>
    rw [source, Source.value?, Literal.number?_ofInteger hlow hhigh]
    rfl
  | real x => cases hexact
  | string t => rfl
  | @array depth items hitems ih =>
    have hall := areExact_iff.mp hexact
    rw [source, Source.value?, Nat.add_sub_cancel, Source.values?_sources fun v hv => ih v hv (hall v hv)]
    rfl
  | @object depth members hsorted hmembers ih =>
    have hall := membersExact_iff.mp hexact
    rw [source, Source.value?, Nat.add_sub_cancel,
      Source.members?_memberSources (by simpa using hsorted) fun m hm => ih m hm (hall m hm)]
    rfl

theorem source_ne_null {v : Value} (h : v ≠ .null) : v.source ≠ .null := by
  match v with
  | .null => exact absurd rfl h
  | .bool _ | .string _ | .array _ | .object _ | .number (.integer _) | .number (.real _) =>
    exact nofun

end Value

namespace Source

variable {α : Type} {f : Source → Option α} {value : α → Value}

/-- An array of which each item is decoded. -/
theorem list?_array {as : List α} (h : ∀ a ∈ as, f (value a).source = some a) :
    list? f (Value.array (as.map value)).source = some as := by
  rw [Value.source, list?]
  induction as with
  | nil => rfl
  | cons a rest ih =>
    obtain ⟨ha, hrest⟩ := List.forall_mem_cons.mp h
    rw [List.map_cons, Value.sources, List.mapM_cons, ha, ih hrest]
    rfl

theorem optional?_of_ne_null (f : Source → Option α) {s : Source} (h : s ≠ .null) :
    optional? f (some s) = (f s).map some := by
  rw [optional?]
  rintro rfl
  exact h rfl

/-- A value that is left out if there is none, and else decoded. -/
theorem optional?_map {a : Option α} (hnull : ∀ b ∈ a, value b ≠ .null)
    (h : ∀ b ∈ a, f (value b).source = some b) :
    optional? f ((a.map value).map Value.source) = some a := by
  cases a with
  | none => rfl
  | some b =>
    rw [Option.map_some, Option.map_some,
      optional?_of_ne_null f (Value.source_ne_null (hnull b rfl)), h b rfl, Option.map_some]

/-- A natural number of at most 64 bits is kept as it is written. -/
theorem nat?_count {n : Nat} (h : n < UInt64.size) : nat? (Value.count n).source = some n := by
  rw [Value.count, Value.source, nat?, Literal.natBelow?, Literal.integer?_ofInteger]
  exact if_pos h

end Source

end ScenarioLint.Json
