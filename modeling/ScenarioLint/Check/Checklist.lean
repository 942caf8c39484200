import ScenarioLint.Issue
import ScenarioLint.Policy.Basic

/-!
Checking that a batch holds enough scenarios of each kind.
-/

namespace ScenarioLint.Check

def checklistIssue (kind : ScenarioKind) (minimum : UInt64) (found : Nat) : Issue :=
  ⟨.checklist, none, none,
    "Checklist: need at least ".toList ++ Text.ofNat minimum.toNat ++ " '".toList ++ kind.name ++
      "' scenarios, found ".toList ++ Text.ofNat found ++ ".".toList⟩

/-- The issues of a batch whose scenarios have the given kinds: one for each kind that has too
    few. -/
def checklist (policy : Policy) (kinds : List ScenarioKind) : List Issue :=
  policy.settings.targets.entries.filterMap fun (kind, minimum) =>
    let found := kinds.count kind
    if found < minimum.toNat then some (checklistIssue kind minimum found) else none

end ScenarioLint.Check
