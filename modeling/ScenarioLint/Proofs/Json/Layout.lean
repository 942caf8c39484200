import ScenarioLint.Json.Source
import ScenarioLint.Proofs.Json.Pretty

/-!
Written forms that differ in white space only.  A layout says which white space stands between the
tokens of a value; the compact and the pretty form are two of them.
-/

namespace ScenarioLint.Json

/-- The white space between tokens. -/
structure Layout where
  /-- In front of an item and of a closing bracket, for each level. -/
  gap : Nat → Text
  /-- Behind a colon. -/
  colon : Text
  isGap_of_mem_gap : ∀ level, ∀ c ∈ gap level, isGap c = true
  isGap_of_mem_colon : ∀ c ∈ colon, isGap c = true

namespace Layout

def compact : Layout where
  gap _ := []
  colon := []
  isGap_of_mem_gap _ := List.forall_mem_nil _
  isGap_of_mem_colon := List.forall_mem_nil _

def pretty : Layout where
  gap := Value.newline
  colon := [' ']
  isGap_of_mem_gap level := by
    rw [Value.newline, List.forall_mem_cons]
    exact ⟨rfl, fun c hc => List.eq_of_mem_replicate hc ▸ rfl⟩
  isGap_of_mem_colon := by decide

end Layout

namespace Value

mutual

/-- The written form in a layout, at a level. -/
def laidOut (l : Layout) (level : Nat) : Value → Text
  | null => "null".toList
  | bool true => "true".toList
  | bool false => "false".toList
  | number n => n.written
  | string t => quoted t
  | array [] => "[]".toList
  | array (v :: rest) =>
    '[' :: (l.gap (level + 1) ++ (v.laidOut l (level + 1) ++ laidOutItems l level rest))
  | object [] => "\x7b\x7d".toList
  | object ((key, v) :: rest) =>
    '\x7b' :: (l.gap (level + 1) ++ (quoted key ++ (':' :: l.colon ++ (v.laidOut l (level + 1) ++
      laidOutMembers l level rest))))

def laidOutItems (l : Layout) (level : Nat) : List Value → Text
  | [] => l.gap level ++ [']']
  | v :: rest =>
    ',' :: (l.gap (level + 1) ++ (v.laidOut l (level + 1) ++ laidOutItems l level rest))

def laidOutMembers (l : Layout) (level : Nat) : List (Text × Value) → Text
  | [] => l.gap level ++ ['\x7d']
  | (key, v) :: rest =>
    ',' :: (l.gap (level + 1) ++ (quoted key ++ (':' :: l.colon ++ (v.laidOut l (level + 1) ++
      laidOutMembers l level rest))))

end

mutual

theorem laidOut_compact (level : Nat) : ∀ v : Value, v.laidOut .compact level = v.compact
  | null | bool true | bool false | number _ | string _ | array [] | object [] => rfl
  | array (v :: items) => by
    rw [laidOut, compact, laidOut_compact (level + 1) v, laidOutItems_compact level items]
    rfl
  | object ((key, v) :: members) => by
    rw [laidOut, compact, laidOut_compact (level + 1) v, laidOutMembers_compact level members]
    rfl

theorem laidOutItems_compact (level : Nat) :
    ∀ items : List Value, laidOutItems .compact level items = compactItems items
  | [] => rfl
  | v :: items => by
    rw [laidOutItems, compactItems, laidOut_compact (level + 1) v, laidOutItems_compact level items]
    rfl

theorem laidOutMembers_compact (level : Nat) :
    ∀ members : List (Text × Value), laidOutMembers .compact level members = compactMembers members
  | [] => rfl
  | (key, v) :: members => by
    rw [laidOutMembers, compactMembers, laidOut_compact (level + 1) v,
      laidOutMembers_compact level members]
    rfl

end

mutual

theorem laidOut_pretty (level : Nat) : ∀ v : Value, v.laidOut .pretty level = v.prettyAt level
  | null | bool true | bool false | number _ | string _ | array [] | object [] => rfl
  | array (v :: items) => by
    rw [laidOut, prettyAt, laidOut_pretty (level + 1) v, laidOutItems_pretty level items,
      List.append_assoc]
    rfl
  | object ((key, v) :: members) => by
    rw [laidOut, prettyAt, laidOut_pretty (level + 1) v, laidOutMembers_pretty level members]
    simp only [List.append_assoc]
    rfl

theorem laidOutItems_pretty (level : Nat) :
    ∀ items : List Value, laidOutItems .pretty level items = prettyItems level items
  | [] => rfl
  | v :: items => by
    rw [laidOutItems, prettyItems, laidOut_pretty (level + 1) v, laidOutItems_pretty level items,
      List.append_assoc]
    rfl

theorem laidOutMembers_pretty (level : Nat) :
    ∀ members : List (Text × Value), laidOutMembers .pretty level members = prettyMembers level members
  | [] => rfl
  | (key, v) :: members => by
    rw [laidOutMembers, prettyMembers, laidOut_pretty (level + 1) v,
      laidOutMembers_pretty level members]
    simp only [List.append_assoc]
    rfl

end

/-- No layout changes how a value starts. -/
theorem head?_laidOut (l : Layout) (level : Nat) :
    ∀ v : Value, (v.laidOut l level).head? = (v.prettyAt level).head?
  | null | bool true | bool false | number _ | string _ | array [] | object [] => rfl
  | array (_ :: _) | object ((_, _) :: _) => by
    rw [laidOut, prettyAt]
    rfl

theorem exists_head_laidOut (l : Layout) (level : Nat) (v : Value) :
    ∃ c rest, v.laidOut l level = c :: rest ∧ isOpening c = true ∧ c ≠ ']' := by
  obtain ⟨c, _, hpretty, hc⟩ := exists_head_prettyAt level v
  have hhead : (v.laidOut l level).head? = some c := by rw [head?_laidOut, hpretty, List.head?_cons]
  obtain ⟨rest, hrest⟩ := List.head?_eq_some_iff.mp hhead
  exact ⟨c, rest, hrest, hc⟩

end Value

end ScenarioLint.Json
