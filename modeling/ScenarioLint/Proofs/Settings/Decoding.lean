import ScenarioLint.Settings.Node

/-!
Decoding the tree of a settings file: what holds of everything that a table denotes, and what a table
or a list denotes of which each entry is decoded.
-/

namespace ScenarioLint.Settings

/-- Two steps that succeed one after the other succeed each. -/
theorem exists_ok_of_bind {ε α β : Type} {x : Except ε α} {f : α → Except ε β} {b : β}
    (h : x >>= f = .ok b) : ∃ a, x = .ok a ∧ f a = .ok b := by
  cases x with
  | error e => cases h
  | ok a => exact ⟨a, rfl, h⟩

section Fold

variable {σ ι ε : Type} {step : σ → ι → Except ε σ}

theorem foldlM_induction {good : σ → Prop}
    (hstep : ∀ s i next, good s → step s i = .ok next → good next) {is : List ι} {s last : σ}
    (hs : good s) (h : is.foldlM step s = .ok last) : good last := by
  induction is generalizing s with
  | nil =>
    cases h
    exact hs
  | cons i is ih =>
    rw [List.foldlM_cons] at h
    obtain ⟨next, hnext, hrest⟩ := exists_ok_of_bind h
    exact ih (hstep s i next hs hnext) hrest

theorem foldlM_of_forall {plain : σ → ι → σ} {is : List ι} {s : σ}
    (h : ∀ s, ∀ i ∈ is, step s i = .ok (plain s i)) : is.foldlM step s = .ok (is.foldl plain s) := by
  induction is generalizing s with
  | nil => rfl
  | cons i is ih =>
    rw [List.foldlM_cons, h s i List.mem_cons_self]
    exact ih fun s j hj => h s j (List.mem_cons_of_mem _ hj)

end Fold

namespace Node

@[simp]
theorem untagged_integer (n : Int) : untagged (.integer n) = .integer n :=
  rfl

@[simp]
theorem untagged_list (items : List Node) (closed : Bool) :
    untagged (.list items closed) = .list items closed :=
  rfl

@[simp]
theorem untagged_table (entries : List (Option Text × Node)) (closed : Bool) :
    untagged (.table entries closed) = .table entries closed :=
  rfl

end Node

section Table

variable {α : Type} {f : α → Text → Node → Except Fault α} {start last : α}

/-- What every entry of a table preserves holds of what the table denotes. -/
theorem decodeTable_induction {good : α → Prop}
    (hstep : ∀ a key node next, good a → f a key node = .ok next → good next) {node : Node}
    (hstart : good start) (h : decodeTable f start node = .ok last) : good last := by
  unfold decodeTable at h
  split at h
  · cases h
    exact hstart
  · obtain ⟨done, hdone, hclosed⟩ := exists_ok_of_bind h
    have hgood : good done := by
      refine foldlM_induction (fun a entry next ha hnext => ?_) hstart hdone
      obtain ⟨key, node⟩ := entry
      cases key with
      | none => cases hnext
      | some key => exact hstep a key node next ha hnext
    split at hclosed
    · cases hclosed
      exact hgood
    · cases hclosed
  · cases h

/-- A table whose entries are decoded one by one. -/
theorem decodeTable_of_forall {β : Type} {key : β → Text} {node : β → Node} {bs : List β}
    (step : α → β → α) (h : ∀ a, ∀ b ∈ bs, f a (key b) (node b) = .ok (step a b)) :
    decodeTable f start (.table (bs.map fun b => (some (key b), node b)) true) =
      .ok (bs.foldl step start) := by
  rw [decodeTable, Node.untagged_table]
  simp only [List.foldlM_map, foldlM_of_forall h]
  rfl

end Table

section List

variable {α : Type} {f : Node → Except Fault α} {node : α → Node} {as : List α}

/-- A list whose items are decoded one by one. -/
theorem decodeList_of_forall (h : ∀ a ∈ as, f (node a) = .ok a) :
    decodeList f (.list (as.map node) true) = .ok as := by
  have hmap : (as.map node).mapM f = .ok as := by
    induction as with
    | nil => rfl
    | cons a as ih =>
      obtain ⟨ha, has⟩ := List.forall_mem_cons.mp h
      rw [List.map_cons, List.mapM_cons, ha, ih has]
      rfl
  rw [decodeList, Node.untagged_list]
  simp only [hmap]
  rfl

end List

end ScenarioLint.Settings
