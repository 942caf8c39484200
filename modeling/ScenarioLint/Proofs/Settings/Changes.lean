import ScenarioLint.Policy.Basic
import ScenarioLint.Proofs.Settings.Store
import ScenarioLint.Settings.Change

/-!
Settings as stores over whole runs of changes.  What is set last counts, and what is set last is all
that counts: two runs that agree on it end in the same status matrix and in the same minimums.
-/

namespace ScenarioLint

/-- The matrices that a run of changes may start with: the empty one, the standard one, or that of a
    settings file. -/
inductive StatusMatrix.Initial : StatusMatrix → Prop
  | empty : Initial .empty
  | standard : Initial .standard
  | parsed {format : Settings.Format} {text : Text} {s : Settings}
      (h : Settings.parse format text = .ok s) : Initial s.matrix

theorem StatusMatrix.Initial.keyed {m : StatusMatrix} (h : Initial m) : Keyed m.rows := by
  cases h with
  | empty => exact keyed_empty
  | standard => exact keyed_standard
  | parsed h =>
    obtain ⟨read, rfl⟩ := Settings.parse_eq_normalized h
    exact keyed_normalized read.matrix

namespace Settings

open StatusMatrix (Keyed codesAt?)

/-- The codes that a change sets for a method and a kind. -/
def Change.codes? (method : Text) (kind : ScenarioKind) : Change → Option (List StatusCode)
  | .allow other k codes => if SameMethod other method ∧ k = kind then some codes else none
  | _ => none

/-- The minimum that a change sets for a kind. -/
def Change.minimum? (kind : ScenarioKind) : Change → Option UInt64
  | .require k minimum => if k = kind then some minimum else none
  | _ => none

def lastCodes? (method : Text) (kind : ScenarioKind) (changes : List Change) :
    Option (List StatusCode) :=
  (changes.filterMap (Change.codes? method kind)).getLast?

def lastMinimum? (kind : ScenarioKind) (changes : List Change) : Option UInt64 :=
  (changes.filterMap (Change.minimum? kind)).getLast?

variable {s : Settings} {method : Text} {kind : ScenarioKind} {changes others : List Change}

section Step

theorem keyed_apply (h : Keyed s.matrix.rows) (c : Change) : Keyed (s.apply c).matrix.rows := by
  cases c with
  | allow method kind codes => exact h.set method kind codes
  | require | restrict => exact h

theorem codesAt?_apply (h : Keyed s.matrix.rows) (c : Change) :
    codesAt? (s.apply c).matrix.rows (methodName method) kind =
      (c.codes? method kind).or (codesAt? s.matrix.rows (methodName method) kind) := by
  cases c with
  | allow other k codes =>
    rw [apply, StatusMatrix.set, StatusMatrix.codesAt?_put h.sorted, Change.codes?]
    simp only [methodName_eq_iff]
    split <;> rfl
  | require | restrict => rfl

theorem isSome_lookup_apply (h : Keyed s.matrix.rows) (c : Change) :
    ((s.apply c).matrix.rows.lookup (methodName method)).isSome ↔
      (∃ kind, (c.codes? method kind).isSome) ∨
        (s.matrix.rows.lookup (methodName method)).isSome := by
  cases c with
  | allow other k codes =>
    rw [apply, StatusMatrix.set, StatusMatrix.lookup_changeRow h.sorted]
    simp only [methodName_eq_iff]
    by_cases hmethod : SameMethod other method
    · simp [Change.codes?, hmethod]
    · simp [Change.codes?, hmethod]
  | require | restrict => simp [apply, Change.codes?]

theorem get?_apply (c : Change) :
    (s.apply c).targets.get? kind = (c.minimum? kind).or (s.targets.get? kind) := by
  cases c with
  | require k minimum =>
    rw [apply, ChecklistTargets.set, ChecklistTargets.get?, ByKind.get?_put, Change.minimum?]
    split <;> rfl
  | allow | restrict => rfl

end Step

section Run

theorem keyed_applyAll (h : Keyed s.matrix.rows) (changes : List Change) :
    Keyed (s.applyAll changes).matrix.rows :=
  List.foldlRecOn (motive := fun s : Settings => Keyed s.matrix.rows) changes apply h
    fun _ h c _ => keyed_apply h c

theorem codesAt?_applyAll (h : Keyed s.matrix.rows) (changes : List Change) :
    codesAt? (s.applyAll changes).matrix.rows (methodName method) kind =
      (lastCodes? method kind changes).or (codesAt? s.matrix.rows (methodName method) kind) :=
  view_foldl (fun s : Settings => Keyed s.matrix.rows)
    (fun s => codesAt? s.matrix.rows (methodName method) kind) (fun _ c h => keyed_apply h c)
    (fun _ c h => codesAt?_apply h c) changes h

theorem get?_applyAll (changes : List Change) :
    (s.applyAll changes).targets.get? kind =
      (lastMinimum? kind changes).or (s.targets.get? kind) :=
  view_foldl (fun _ => True) (fun s : Settings => s.targets.get? kind) (fun _ _ _ => trivial)
    (fun _ c _ => get?_apply c) changes trivial

theorem isSome_lastCodes?_iff :
    (lastCodes? method kind changes).isSome ↔ ∃ c ∈ changes, (c.codes? method kind).isSome := by
  rw [lastCodes?, List.getLast?_isSome, ne_eq, List.filterMap_eq_nil_iff]
  simp [Option.isSome_iff_ne_none]

/-- A method has a row after a run if a change sets codes for it or it had a row before. -/
theorem isSome_lookup_applyAll (h : Keyed s.matrix.rows) :
    ((s.applyAll changes).matrix.rows.lookup (methodName method)).isSome ↔
      (∃ kind, (lastCodes? method kind changes).isSome) ∨
        (s.matrix.rows.lookup (methodName method)).isSome := by
  simp only [isSome_lastCodes?_iff]
  induction changes generalizing s with
  | nil => simp [applyAll]
  | cons c changes ih =>
    rw [applyAll, List.foldl_cons, ← applyAll, ih (keyed_apply h c), isSome_lookup_apply h]
    simp only [List.exists_mem_cons_iff, exists_or]
    rw [or_left_comm, or_assoc]

theorem matrix_applyAll_eq (h : Keyed s.matrix.rows)
    (hlast : ∀ method kind, lastCodes? method kind changes = lastCodes? method kind others) :
    (s.applyAll changes).matrix = (s.applyAll others).matrix := by
  refine congrArg StatusMatrix.mk (Keyed.eq_of_codesAt?_eq (keyed_applyAll h changes)
    (keyed_applyAll h others) (fun method => ?_) fun method kind => ?_)
  · simp only [isSome_lookup_applyAll h, hlast]
  · rw [codesAt?_applyAll h, codesAt?_applyAll h, hlast]

theorem targets_applyAll_eq
    (hlast : ∀ kind, lastMinimum? kind changes = lastMinimum? kind others) :
    (s.applyAll changes).targets = (s.applyAll others).targets := by
  refine congrArg ChecklistTargets.mk (ByKind.eq_of_get?_eq fun kind => ?_)
  have hget : (s.applyAll changes).targets.get? kind = _ := get?_applyAll changes
  rwa [hlast, ← get?_applyAll] at hget

/-- Settings are stores.  After any run of changes: a method allows for a kind what was set last under
    any spelling of the method, and what it allowed at first if nothing was set; the entries are in
    order, and each of them is what is allowed under every spelling of its method; the minimum of a
    kind is the one that was set last.  Two runs that agree on what is set last end in the same matrix
    and in the same minimums, so that the policies have the same fingerprint. -/
theorem store_applyAll {s : Settings} (h : s.matrix.Initial) (changes : List Change) :
    (∀ method kind, (s.applyAll changes).matrix.allowed method kind =
      (lastCodes? method kind changes).getD (s.matrix.allowed method kind)) ∧
    (∀ method kind codes, (method, kind, codes) ∈ (s.applyAll changes).matrix.entries →
      ∀ other, SameMethod method other →
        (s.applyAll changes).matrix.allowed other kind = codes) ∧
    (s.applyAll changes).matrix.entries.Pairwise StatusMatrix.Precedes ∧
    (∀ kind, (s.applyAll changes).targets.get? kind =
      (lastMinimum? kind changes).or (s.targets.get? kind)) ∧
    ∀ others,
      ((∀ method kind, lastCodes? method kind changes = lastCodes? method kind others) →
        (s.applyAll changes).matrix = (s.applyAll others).matrix) ∧
      ((∀ kind, lastMinimum? kind changes = lastMinimum? kind others) →
        (s.applyAll changes).targets = (s.applyAll others).targets) ∧
      ((∀ method kind, lastCodes? method kind changes = lastCodes? method kind others) →
        (∀ kind, lastMinimum? kind changes = lastMinimum? kind others) →
        ∀ steps assertions keywords small,
          (Policy.compile steps assertions
            ⟨keywords, (s.applyAll changes).matrix, (s.applyAll changes).targets⟩
            small).fingerprint =
          (Policy.compile steps assertions
            ⟨keywords, (s.applyAll others).matrix, (s.applyAll others).targets⟩
            small).fingerprint) := by
  have hkeyed := h.keyed
  have hafter := keyed_applyAll hkeyed changes
  refine ⟨fun method kind => ?_, fun method kind codes hmem other hsame => ?_,
    StatusMatrix.pairwise_entries hafter, fun kind => get?_applyAll changes, fun others => ?_⟩
  · rw [StatusMatrix.allowed_eq, codesAt?_applyAll hkeyed, StatusMatrix.allowed_eq]
    cases lastCodes? method kind changes <;> rfl
  · exact StatusMatrix.allowed_of_mem_entries hafter hmem hsame
  · refine ⟨matrix_applyAll_eq hkeyed, targets_applyAll_eq, fun hcodes hminimums => ?_⟩
    intro steps assertions keywords small
    rw [matrix_applyAll_eq hkeyed hcodes, targets_applyAll_eq hminimums]

/-- A run that starts with a settings file and sets what two methods allow, each under several
    spellings. -/
theorem store_applyAll_spellings :
    let s : Settings :=
      ⟨Keyword.all, ⟨[("GET".toList, ⟨some [200], none, some [400]⟩)]⟩, .standard⟩
    let changes : List Change := [.allow "get ".toList .happy [204], .require .edge 2,
      .allow "put".toList .error [], .allow "\tGet".toList .happy [206]]
    let others : List Change := [.allow "GET".toList .happy [206], .allow "PUT".toList .error [],
      .require .edge 2]
    s.matrix.Initial ∧
    (s.applyAll changes).matrix.allowed " gEt".toList .happy = [206] ∧
    (s.applyAll changes).matrix.allowed "get".toList .edge = [400] ∧
    ("PUT".toList, .error, []) ∈ (s.applyAll changes).matrix.entries ∧
    SameMethod "PUT".toList " Put".toList ∧
    (s.applyAll changes).matrix.allowed " Put".toList .error = [] ∧
    (s.applyAll changes).targets.get? .edge = some 2 ∧
    (∀ method kind, lastCodes? method kind changes = lastCodes? method kind others) ∧
    (s.applyAll changes).matrix = (s.applyAll others).matrix ∧
    (∀ kind, lastMinimum? kind changes = lastMinimum? kind others) ∧
    (s.applyAll changes).targets = (s.applyAll others).targets := by
  intro s changes others
  have hinitial : s.matrix.Initial := by
    have hparse : Settings.parse .yaml ("status_matrix:\n  get: \x7bhappy: [200]\x7d\n".toList ++
        "  'GET ': \x7bEdge: [400]\x7d\n".toList) = .ok s := by decide +kernel
    exact .parsed hparse
  have hcodes : ∀ method kind, lastCodes? method kind changes = lastCodes? method kind others := by
    intro method kind
    have hspelled : ∀ {a b : Text}, methodName a = methodName b →
        (SameMethod a method ↔ SameMethod b method) := by
      intro a b h
      rw [← methodName_eq_iff, ← methodName_eq_iff, h]
    have hget : SameMethod "get ".toList method ↔ SameMethod "GET".toList method := hspelled rfl
    have htab : SameMethod "\tGet".toList method ↔ SameMethod "GET".toList method := hspelled rfl
    have hput : SameMethod "put".toList method ↔ SameMethod "PUT".toList method := hspelled rfl
    have hdistinct : ¬(SameMethod "GET".toList method ∧ SameMethod "PUT".toList method) := by
      rw [← methodName_eq_iff, ← methodName_eq_iff]
      rintro ⟨heq, heq'⟩
      exact absurd (heq.trans heq'.symm) (by decide)
    simp only [lastCodes?, changes, others, List.filterMap_cons, Change.codes?, hget, htab, hput]
    by_cases hmethod : SameMethod "GET".toList method
    · have hnot : ¬SameMethod "PUT".toList method := fun h => hdistinct ⟨hmethod, h⟩
      simp only [hmethod, hnot, true_and, false_and, if_false]
      cases kind <;> rfl
    · simp only [hmethod, false_and, if_false]
  have hminimums : ∀ kind, lastMinimum? kind changes = lastMinimum? kind others := by
    intro kind
    cases kind <;> rfl
  obtain ⟨hallowed, hentries, _, htargets, hothers⟩ := store_applyAll hinitial changes
  have hput : ("PUT".toList, .error, []) ∈ (s.applyAll changes).matrix.entries := by decide +kernel
  have hspelled : SameMethod "PUT".toList " Put".toList := by decide
  refine ⟨hinitial, ?_, ?_, hput, hspelled, hentries _ _ _ hput _ hspelled, ?_, hcodes,
    (hothers others).1 hcodes, hminimums, (hothers others).2.1 hminimums⟩
  · rw [hallowed]
    decide +kernel
  · rw [hallowed]
    decide +kernel
  · rw [htargets]
    rfl

end Run

end Settings

end ScenarioLint
