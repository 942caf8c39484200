import Mathlib.Data.List.Infix
import ScenarioLint.Check.Checklist
import ScenarioLint.Proofs.Text.Space

/-!
The issues of a batch.  There is one for each kind that has too few scenarios, told apart by the kind
that its message quotes, and nothing but the number of scenarios of each kind matters.
-/

namespace ScenarioLint

def ScenarioKind.quoted (kind : ScenarioKind) : Text :=
  '\'' :: (kind.name ++ ['\''])

/-- The message of the issue quotes the name of the kind. -/
def Issue.quotes (issue : Issue) (kind : ScenarioKind) : Bool :=
  kind.quoted <:+: issue.message

namespace Check

/-- The kind has a minimum, and the batch holds fewer scenarios of it. -/
def Lacks (targets : ChecklistTargets) (kinds : List ScenarioKind) (kind : ScenarioKind) : Prop :=
  ∃ minimum ∈ targets.get? kind, kinds.count kind < minimum.toNat

instance (targets : ChecklistTargets) (kinds : List ScenarioKind) (kind : ScenarioKind) :
    Decidable (Lacks targets kinds kind) :=
  inferInstanceAs (Decidable (∃ minimum ∈ targets.get? kind, _))

private theorem quote_not_mem_ofNat (n : Nat) : '\'' ∉ Text.ofNat n :=
  Text.not_mem_ofNat rfl n

private theorem append_cons_inj {c : Char} {a b s t : Text} (ha : c ∉ a) (hb : c ∉ b)
    (h : a ++ c :: s = b ++ c :: t) : a = b ∧ s = t := by
  have hlength := congrArg (List.idxOf c) h
  rw [List.idxOf_append_of_notMem ha, List.idxOf_append_of_notMem hb] at hlength
  obtain ⟨hab, hst⟩ := List.append_inj h (by simpa using hlength)
  exact ⟨hab, (List.cons.inj hst).2⟩

private theorem quote_not_mem_name (kind : ScenarioKind) : '\'' ∉ kind.name := by
  cases kind <;> decide

/-- The only kind that the message of an issue of a batch quotes is the one that the issue is
    about. -/
theorem quotes_checklistIssue_iff {kind other : ScenarioKind} {minimum : UInt64} {found : Nat} :
    (checklistIssue kind minimum found).quotes other = true ↔ kind = other := by
  obtain ⟨front, back, hmessage, hfront, hback⟩ : ∃ front back,
      (checklistIssue kind minimum found).message =
        front ++ '\'' :: (kind.name ++ '\'' :: back) ∧ '\'' ∉ front ∧ '\'' ∉ back := by
    refine ⟨"Checklist: need at least ".toList ++ Text.ofNat minimum.toNat ++ [' '],
      " scenarios, found ".toList ++ Text.ofNat found ++ ['.'], by simp [checklistIssue], ?_, ?_⟩
    · simp [quote_not_mem_ofNat]
    · simp [quote_not_mem_ofNat]
  rw [Issue.quotes, decide_eq_true_eq, hmessage]
  constructor
  · rintro ⟨a, b, hsplit⟩
    have hsplit : a ++ '\'' :: (other.name ++ '\'' :: b) =
        front ++ '\'' :: (kind.name ++ '\'' :: back) := by
      simpa [ScenarioKind.quoted] using hsplit
    -- Both sides hold two quotes, so there is none in front of the name or behind it.
    have hcount := congrArg (List.count '\'') hsplit
    simp only [List.count_append, List.count_cons_self, List.count_eq_zero.mpr hfront,
      List.count_eq_zero.mpr hback, List.count_eq_zero.mpr (quote_not_mem_name _)] at hcount
    have ha : '\'' ∉ a := List.count_eq_zero.mp (by omega)
    obtain ⟨_, hrest⟩ := append_cons_inj ha hfront hsplit
    obtain ⟨hname, _⟩ := append_cons_inj (quote_not_mem_name _) (quote_not_mem_name _) hrest
    revert hname
    cases kind <;> cases other <;> decide
  · rintro rfl
    exact ⟨front, back, by simp [ScenarioKind.quoted]⟩

/-- The issue about a kind, if the batch lacks scenarios of it. -/
def shortfall? (policy : Policy) (kinds : List ScenarioKind) (kind : ScenarioKind) :
    Option Issue :=
  (policy.settings.targets.get? kind).bind fun minimum =>
    if kinds.count kind < minimum.toNat then
      some (checklistIssue kind minimum (kinds.count kind))
    else none

theorem checklist_eq_filterMap (policy : Policy) (kinds : List ScenarioKind) :
    checklist policy kinds = ScenarioKind.all.filterMap (shortfall? policy kinds) := by
  rw [checklist, ChecklistTargets.entries, ByKind.toList, List.filterMap_filterMap]
  congr 1
  funext kind
  rw [Option.bind_map]
  rfl

theorem isSome_shortfall?_iff {policy : Policy} {kinds : List ScenarioKind} {kind : ScenarioKind} :
    (shortfall? policy kinds kind).isSome = true ↔ Lacks policy.settings.targets kinds kind := by
  rw [shortfall?, Lacks]
  cases policy.settings.targets.get? kind with
  | none => simp
  | some minimum =>
    by_cases hfew : kinds.count kind < minimum.toNat <;> simp [hfew]

theorem quotes_of_shortfall? {policy : Policy} {kinds : List ScenarioKind} {kind : ScenarioKind}
    {issue : Issue} (h : shortfall? policy kinds kind = some issue) (other : ScenarioKind) :
    issue.quotes other = decide (kind = other) := by
  rw [shortfall?, Option.bind_eq_some_iff] at h
  obtain ⟨minimum, _, hissue⟩ := h
  split at hissue
  · cases hissue
    rw [Bool.eq_iff_iff, quotes_checklistIssue_iff, decide_eq_true_eq]
  · cases hissue

/-- Exactly one issue is about a kind of which the batch lacks scenarios, and none about another
    kind. -/
theorem countP_quotes_checklist (policy : Policy) (kinds : List ScenarioKind)
    (kind : ScenarioKind) :
    (checklist policy kinds).countP (·.quotes kind) =
      if Lacks policy.settings.targets kinds kind then 1 else 0 := by
  have hquotes : ∀ other, ((shortfall? policy kinds other).map (·.quotes kind)).getD false =
      (decide (other = kind) && (shortfall? policy kinds kind).isSome) := by
    intro other
    cases hissue : shortfall? policy kinds other with
    | none =>
      by_cases hkind : other = kind
      · subst hkind
        simp [hissue]
      · simp [hkind]
    | some issue =>
      by_cases hkind : other = kind
      · subst hkind
        simp [hissue, quotes_of_shortfall? hissue]
      · simp [hkind, quotes_of_shortfall? hissue]
  rw [checklist_eq_filterMap, List.countP_filterMap]
  simp only [hquotes, ← isSome_shortfall?_iff]
  cases (shortfall? policy kinds kind).isSome <;> cases kind <;> rfl

theorem checklist_eq_of_perm {kinds others : List ScenarioKind} (h : kinds.Perm others)
    (policy : Policy) : checklist policy kinds = checklist policy others := by
  rw [checklist, checklist]
  simp only [h.count_eq]

end Check

end ScenarioLint
