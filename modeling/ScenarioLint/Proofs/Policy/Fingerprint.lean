import ScenarioLint.Proofs.Policy.Bytes
import ScenarioLint.Proofs.Regex.Reader
import ScenarioLint.Proofs.Settings.Matrix
import ScenarioLint.Proofs.Template.Compilation

/-!
Which policies share the bytes that a fingerprint digests.

Keywords and patterns are always told apart.  The status codes are not, because a code may hold the
zero byte that ends a list of codes.
-/

namespace ScenarioLint.Policy

open Template (Pattern Rulebook)

section Words

/-- A text in front of the zero byte that ends it. -/
def endedBytes (t : Text) : List UInt8 :=
  bytes t ++ [0]

theorem terminated_eq (ts : List Text) : terminated ts = ts.flatMap endedBytes :=
  rfl

theorem terminated_cons (t : Text) (ts : List Text) :
    terminated (t :: ts) = endedBytes t ++ terminated ts :=
  List.flatMap_cons

theorem stops_of_head {good : Text → Prop} {c : Char}
    (hgood : ∀ t, good t → ∃ d more, t = d :: more ∧ d ≠ c) (t : Text) (x : List UInt8) :
    Stops endedBytes good (bytes (c :: t) ++ x) := by
  intro s hs y heq
  obtain ⟨d, more, rfl, hne⟩ := hgood s hs
  rw [endedBytes, List.append_assoc] at heq
  exact hne (bytes_cons_append_inj heq).1

private def IsWord (t : Text) : Prop :=
  ∃ keyword : Keyword, t = keyword.word

private theorem prefixFree_words : PrefixFree endedBytes IsWord := by
  apply prefixFree_terminated
  rintro _ u ⟨keyword, rfl⟩ ⟨other, hother⟩
  have hzero : '\x00' ∈ other.word := by
    rw [← hother]
    exact List.mem_append_right _ List.mem_cons_self
  cases other <;> exact absurd hzero (by decide)

private theorem word_inj {a b : Keyword} (h : a.word = b.word) : a = b := by
  cases a <;> cases b <;> first | rfl | exact absurd h (by decide)

end Words

section Sources

/-- The text of a pattern: one that can be read, and its head. -/
private def IsSource (t : Text) : Prop :=
  (∃ r, Regex.read? t = some r) ∧ ∃ more, t = '^' :: '\\' :: 's' :: more

private theorem isSource_of_mem {rulebook : Rulebook} {small : Text → Bool}
    {text : Option Text} {t : Text}
    (h : t ∈ (rulebookPatterns rulebook small text).map Pattern.source) : IsSource t := by
  obtain ⟨p, hp, rfl⟩ := List.mem_map.mp h
  cases text with
  | none => cases hp
  | some text =>
    obtain ⟨_, hcompiled⟩ := Pattern.exists_isCompiled hp
    exact ⟨⟨p.regex, hcompiled.read_source⟩, _, hcompiled.source_eq⟩

private theorem prefixFree_sources : PrefixFree endedBytes IsSource := by
  apply prefixFree_terminated
  rintro s u ⟨⟨r, hread⟩, _⟩ ⟨⟨_, hmore⟩, _⟩
  rw [Regex.read?_append_eq_none hread] at hmore
  cases hmore

end Sources

section Limits

/-- The bytes of an entry of the status matrix. -/
def entryBytes : Text × ScenarioKind × List StatusCode → List UInt8
  | (method, kind, codes) => bytes method ++ bytes kind.name ++ codes.flatMap codeBytes ++ [0]

/-- The bytes of a minimum with its kind. -/
def targetBytes : ScenarioKind × UInt64 → List UInt8
  | (kind, minimum) => bytes kind.name ++ minimumBytes minimum

/-- The bytes of settings apart from the keywords. -/
def limitBytes (s : Settings) : List UInt8 :=
  s.matrix.entries.flatMap entryBytes ++ s.targets.entries.flatMap targetBytes

theorem preimage_eq (p : Policy) :
    p.preimage = (p.settings.keywords.map Keyword.word).flatMap endedBytes ++
      (endedBytes "steps".toList ++ ((p.steps.map Pattern.source).flatMap endedBytes ++
        (endedBytes "assertions".toList ++ ((p.assertions.map Pattern.source).flatMap endedBytes ++
          limitBytes p.settings)))) := by
  rw [preimage, terminated_eq, terminated_cons, terminated_cons, terminated_eq, terminated_eq,
    limitBytes, List.append_assoc, List.append_assoc, List.append_assoc, List.append_assoc,
    List.append_assoc]
  rfl

private theorem kindName_append_inj {kind kind' : ScenarioKind} {x y : List UInt8}
    (h : bytes kind.name ++ x = bytes kind'.name ++ y) : kind = kind' ∧ x = y := by
  have hnames : ∀ a b : ScenarioKind, a.name <+: b.name → a = b := by
    intro a b hstarts
    cases a <;> cases b <;> first | rfl | exact absurd hstarts (by decide)
  have hkind : kind = kind' := by
    obtain ⟨u, hu, _⟩ | ⟨u, hu, _⟩ := bytes_append_eq h
    · exact hnames _ _ ⟨u, hu.symm⟩
    · exact (hnames _ _ ⟨u, hu.symm⟩).symm
  subst hkind
  exact ⟨rfl, List.append_cancel_left h⟩

private theorem exists_kindName (kind : ScenarioKind) :
    ∃ c more, kind.name = c :: more ∧ c.isLower = true ∧ c ≠ 's' := by
  cases kind
  · exact ⟨'h', "appy".toList, rfl, by decide, by decide⟩
  · exact ⟨'e', "rror".toList, rfl, by decide, by decide⟩
  · exact ⟨'e', "dge".toList, rfl, by decide, by decide⟩

private theorem method_append_inj {m m' : Text} {kind kind' : ScenarioKind} {x y : List UInt8}
    (hm : ∀ c ∈ m, c.isLower = false) (hm' : ∀ c ∈ m', c.isLower = false)
    (h : bytes m ++ (bytes kind.name ++ x) = bytes m' ++ (bytes kind'.name ++ y)) :
    m = m' ∧ kind = kind' ∧ x = y := by
  -- a method that goes on where the other one ends goes on with a small letter
  have hend : ∀ {n u : Text} {k : ScenarioKind} {v w : List UInt8},
      (∀ c ∈ n ++ u, c.isLower = false) → bytes k.name ++ v = bytes u ++ w → u = [] := by
    intro n u k v w hlower heq
    cases u with
    | nil => rfl
    | cons d u =>
      obtain ⟨c, more, hname, hc, _⟩ := exists_kindName k
      rw [hname] at heq
      rw [(bytes_cons_append_inj heq).1] at hc
      have hd := hlower d (List.mem_append_right _ List.mem_cons_self)
      rw [hd] at hc
      cases hc
  have hsame : m = m' := by
    obtain ⟨u, rfl, hu⟩ | ⟨u, rfl, hu⟩ := bytes_append_eq h
    · rw [hend hm' hu, List.append_nil]
    · rw [hend hm hu, List.append_nil]
  subst hsame
  exact ⟨rfl, kindName_append_inj (List.append_cancel_left h)⟩

/-- An entry whose end shows: its method is in capitals, and none of its codes starts with a zero
    byte. -/
def EndShows (e : Text × ScenarioKind × List StatusCode) : Prop :=
  (∀ c ∈ e.1, c.isLower = false) ∧ ∀ code ∈ e.2.2, code.toUInt8 ≠ 0

private theorem stops_codeBytes (x : List UInt8) :
    Stops codeBytes (fun code => code.toUInt8 ≠ 0) (0 :: x) := by
  intro code hcode y heq
  exact hcode (List.head_eq_of_cons_eq heq)

private theorem prefixFree_entryBytes : PrefixFree entryBytes EndShows := by
  rintro ⟨m, kind, codes⟩ ⟨m', kind', codes'⟩ ⟨hm, hcodes⟩ ⟨hm', hcodes'⟩ x y h
  simp only [entryBytes, List.append_assoc] at h
  obtain ⟨rfl, rfl, hrest⟩ := method_append_inj hm hm' h
  obtain ⟨rfl, hzero⟩ := (prefixFree_codeBytes _).flatMap_append_inj hcodes hcodes'
    (stops_codeBytes x) (stops_codeBytes y) hrest
  exact ⟨rfl, List.tail_eq_of_cons_eq hzero⟩

private theorem prefixFree_targetBytes : PrefixFree targetBytes fun _ => True := by
  rintro ⟨kind, minimum⟩ ⟨kind', minimum'⟩ _ _ x y h
  simp only [targetBytes, List.append_assoc] at h
  obtain ⟨rfl, hrest⟩ := kindName_append_inj h
  obtain ⟨rfl, hxy⟩ := prefixFree_minimumBytes (fun _ => True) trivial trivial hrest
  exact ⟨rfl, hxy⟩

private theorem stops_targets (targets : List (ScenarioKind × UInt64)) :
    Stops entryBytes (fun e => e.1 ≠ [] ∧ EndShows e) (targets.flatMap targetBytes) := by
  rintro ⟨method, kind, codes⟩ ⟨hne, hlower, _⟩ y heq
  obtain ⟨d, rest, rfl⟩ := List.exists_cons_of_ne_nil hne
  rw [entryBytes, List.append_assoc, List.append_assoc, List.append_assoc] at heq
  cases targets with
  | nil =>
    have hnil := congrArg List.length heq
    simp at hnil
  | cons target targets =>
    obtain ⟨c, more, hname, hc, _⟩ := exists_kindName target.1
    rw [List.flatMap_cons, targetBytes, hname, List.append_assoc] at heq
    rw [← (bytes_cons_append_inj heq).1] at hc
    rw [hlower d List.mem_cons_self] at hc
    cases hc

/-- Neither an entry nor a minimum starts like a pattern. -/
private theorem stops_limitBytes {s : Settings}
    (hlower : ∀ e ∈ s.matrix.entries, ∀ c ∈ e.1, c.isLower = false) :
    Stops endedBytes IsSource (limitBytes s) := by
  rintro _ ⟨_, more, rfl⟩ y heq
  rw [endedBytes, List.append_assoc, limitBytes] at heq
  cases hentries : s.matrix.entries with
  | nil =>
    rw [hentries, List.flatMap_nil, List.nil_append] at heq
    cases htargets : s.targets.entries with
    | nil =>
      rw [htargets] at heq
      have hnil := congrArg List.length heq
      simp at hnil
    | cons target targets =>
      rw [htargets, List.flatMap_cons, targetBytes, List.append_assoc] at heq
      obtain ⟨c, rest, hname, hc, _⟩ := exists_kindName target.1
      rw [hname] at heq
      rw [← (bytes_cons_append_inj heq).1] at hc
      exact absurd hc (by decide)
  | cons e entries =>
    have hmethod := hlower e (hentries ▸ List.mem_cons_self)
    obtain ⟨method, kind, codes⟩ := e
    rw [hentries, List.flatMap_cons, entryBytes] at heq
    simp only [List.append_assoc] at heq
    obtain ⟨c, rest, hname, hc, hs⟩ := exists_kindName kind
    obtain ⟨u, hu, _⟩ | ⟨u, hu, hrest⟩ := bytes_append_eq heq
    · have hs := hmethod 's' (by simp [hu])
      exact absurd hs (by decide)
    · -- the method ends within the head of the pattern, or it holds the small letter of that head
      rw [hname] at hrest
      rcases method with _ | ⟨a, _ | ⟨b, _ | ⟨d, method⟩⟩⟩
      · rw [List.nil_append] at hu
        rw [← hu] at hrest
        rw [(bytes_cons_append_inj hrest).1] at hc
        exact absurd hc (by decide)
      · obtain ⟨-, rfl⟩ : '^' = a ∧ '\\' :: 's' :: more = u := by simpa using hu
        rw [(bytes_cons_append_inj hrest).1] at hc
        exact absurd hc (by decide)
      · obtain ⟨-, -, rfl⟩ : '^' = a ∧ '\\' = b ∧ 's' :: more = u := by simpa using hu
        exact hs (bytes_cons_append_inj hrest).1
      · obtain ⟨-, -, rfl, -⟩ : '^' = a ∧ '\\' = b ∧ 's' = d ∧ more = method ++ u := by
          simpa using hu
        have hs := hmethod 's' (by simp)
        exact absurd hs (by decide)

end Limits

/-- A policy that can be compiled: from rulebooks, either of which may be absent, and from the
    settings of a file, wherever the engine draws the line between sources. -/
def Buildable (p : Policy) : Prop :=
  ∃ (steps assertions : Option Text) (small : Text → Bool) (format : Settings.Format) (text : Text)
    (settings : Settings),
    Settings.parse format text = .ok settings ∧ p = compile steps assertions settings small

/-- The bytes of the entries of a matrix show where each entry ends: no entry is for the method
    without a name, and no code is a multiple of 256, so that none starts with a zero byte. -/
structure SelfDelimiting (m : StatusMatrix) : Prop where
  method_ne_nil : ∀ e ∈ m.entries, e.1 ≠ []
  code_ne_zero : ∀ e ∈ m.entries, ∀ code ∈ e.2.2, code.toUInt8 ≠ 0

/-- What is said of all codes of a list is decided by going over the list. -/
instance (priority := high) decidableForallMemCodes {good : StatusCode → Prop}
    [DecidablePred good] (codes : List StatusCode) : Decidable (∀ code ∈ codes, good code) :=
  List.decidableBAll good codes

namespace Buildable

variable {p q : Policy}

private theorem canonical (hp : p.Buildable) : StatusMatrix.Canonical p.settings.matrix.rows := by
  obtain ⟨steps, assertions, small, format, text, settings, hparse, rfl⟩ := hp
  obtain ⟨read, rfl⟩ := Settings.parse_eq_normalized hparse
  exact StatusMatrix.canonical_normalized read.matrix

private theorem isSource_step (hp : p.Buildable) {t : Text} (ht : t ∈ p.steps.map Pattern.source) :
    IsSource t := by
  obtain ⟨steps, assertions, small, format, text, settings, _, rfl⟩ := hp
  exact isSource_of_mem ht

private theorem isSource_assertion (hp : p.Buildable) {t : Text}
    (ht : t ∈ p.assertions.map Pattern.source) : IsSource t := by
  obtain ⟨steps, assertions, small, format, text, settings, _, rfl⟩ := hp
  exact isSource_of_mem ht

/-- The digested bytes are those of the keywords, the patterns and the rest, each for itself. -/
theorem preimage_eq_preimage_iff (hp : p.Buildable) (hq : q.Buildable) :
    p.preimage = q.preimage ↔
      p.settings.keywords = q.settings.keywords ∧
        p.steps.map Pattern.source = q.steps.map Pattern.source ∧
          p.assertions.map Pattern.source = q.assertions.map Pattern.source ∧
            limitBytes p.settings = limitBytes q.settings := by
  constructor
  · intro h
    rw [preimage_eq, preimage_eq] at h
    have hword : ∀ {s : Settings}, ∀ t ∈ s.keywords.map Keyword.word, IsWord t := by
      intro s t ht
      obtain ⟨keyword, _, rfl⟩ := List.mem_map.mp ht
      exact ⟨keyword, rfl⟩
    have hsteps : ∀ x, Stops endedBytes IsWord (endedBytes "steps".toList ++ x) := by
      intro x
      rw [endedBytes, List.append_assoc]
      apply stops_of_head
      rintro _ ⟨keyword, rfl⟩
      cases keyword <;> exact ⟨_, _, rfl, by decide⟩
    have hassertions : ∀ x, Stops endedBytes IsSource (endedBytes "assertions".toList ++ x) := by
      intro x
      rw [endedBytes, List.append_assoc]
      apply stops_of_head
      rintro _ ⟨_, more, rfl⟩
      exact ⟨_, _, rfl, by decide⟩
    obtain ⟨hwords, h⟩ := prefixFree_words.flatMap_append_inj hword hword (hsteps _) (hsteps _) h
    obtain ⟨hsources, h⟩ := prefixFree_sources.flatMap_append_inj (fun _ => hp.isSource_step)
      (fun _ => hq.isSource_step) (hassertions _) (hassertions _) (List.append_cancel_left h)
    obtain ⟨hsources', h⟩ := prefixFree_sources.flatMap_append_inj (fun _ => hp.isSource_assertion)
      (fun _ => hq.isSource_assertion)
      (stops_limitBytes fun _ => hp.canonical.isLower_of_mem_entries)
      (stops_limitBytes fun _ => hq.canonical.isLower_of_mem_entries) (List.append_cancel_left h)
    exact ⟨(List.map_inj_right fun _ _ => word_inj).mp hwords, hsources, hsources', h⟩
  · rintro ⟨hwords, hsources, hsources', hlimits⟩
    rw [preimage_eq, preimage_eq, hwords, hsources, hsources', hlimits]

/-- The rest of the settings is told from its bytes if both matrices delimit their entries. -/
theorem limitBytes_eq_iff (hp : p.Buildable) (hq : q.Buildable)
    (hmatrix : SelfDelimiting p.settings.matrix) (hmatrix' : SelfDelimiting q.settings.matrix) :
    limitBytes p.settings = limitBytes q.settings ↔
      p.settings.matrix.entries = q.settings.matrix.entries ∧
        p.settings.targets = q.settings.targets := by
  constructor
  · intro h
    have hfree : PrefixFree entryBytes fun e => e.1 ≠ [] ∧ EndShows e :=
      fun _ _ ha hb => prefixFree_entryBytes ha.2 hb.2
    obtain ⟨hentries, htargets⟩ := hfree.flatMap_append_inj
      (fun e he => ⟨hmatrix.method_ne_nil e he, hp.canonical.isLower_of_mem_entries he,
        hmatrix.code_ne_zero e he⟩)
      (fun e he => ⟨hmatrix'.method_ne_nil e he, hq.canonical.isLower_of_mem_entries he,
        hmatrix'.code_ne_zero e he⟩)
      (stops_targets _) (stops_targets _) h
    have hend : Stops targetBytes (fun _ => True) [] := by
      rintro ⟨kind, minimum⟩ _ y heq
      have hnil := congrArg List.length heq
      simp [targetBytes, minimumBytes] at hnil
    rw [← List.append_nil (p.settings.targets.entries.flatMap targetBytes),
      ← List.append_nil (q.settings.targets.entries.flatMap targetBytes)] at htargets
    obtain ⟨hminimums, _⟩ := prefixFree_targetBytes.flatMap_append_inj (fun _ _ => trivial)
      (fun _ _ => trivial) hend hend htargets
    exact ⟨hentries, congrArg ChecklistTargets.mk (ByKind.toList_inj hminimums)⟩
  · rintro ⟨hentries, htargets⟩
    rw [limitBytes, limitBytes, hentries, htargets]

end Buildable

section Identity

variable {p q : Policy}

/-- Two policies have the same digested bytes exactly if they have the same keywords, the same
    pattern sources and the same bytes for the rest of their settings.  If no entry of either matrix
    is for the method without a name and no code is a multiple of 256, these bytes are the same
    exactly if the entries of the matrices and the minimums are, and matrices without empty rows are
    then the same as well. -/
theorem preimage_eq_iff (hp : p.Buildable) (hq : q.Buildable) :
    (p.preimage = q.preimage ↔
      p.settings.keywords = q.settings.keywords ∧
        p.steps.map Pattern.source = q.steps.map Pattern.source ∧
          p.assertions.map Pattern.source = q.assertions.map Pattern.source ∧
            limitBytes p.settings = limitBytes q.settings) ∧
    (SelfDelimiting p.settings.matrix → SelfDelimiting q.settings.matrix →
      (p.preimage = q.preimage ↔
        p.settings.keywords = q.settings.keywords ∧
          p.steps.map Pattern.source = q.steps.map Pattern.source ∧
            p.assertions.map Pattern.source = q.assertions.map Pattern.source ∧
              p.settings.matrix.entries = q.settings.matrix.entries ∧
                p.settings.targets = q.settings.targets)) ∧
    ((∀ row ∈ p.settings.matrix.rows, row.2 ≠ .empty) →
      (∀ row ∈ q.settings.matrix.rows, row.2 ≠ .empty) →
        (p.settings.matrix.entries = q.settings.matrix.entries ↔
          p.settings.matrix = q.settings.matrix)) := by
  refine ⟨hp.preimage_eq_preimage_iff hq, fun hmatrix hmatrix' => ?_, fun hfull hfull' => ?_⟩
  · rw [hp.preimage_eq_preimage_iff hq, hp.limitBytes_eq_iff hq hmatrix hmatrix']
  · constructor
    · intro hentries
      exact StatusMatrix.entries_inj hp.canonical hq.canonical hfull hfull' hentries
    · intro hmatrix
      rw [hmatrix]

private theorem buildable_of_json (text : Text) {steps : Option Text} {s : Settings}
    (h : (Settings.parse .json text).toOption = some s) : (compile steps none s).Buildable := by
  cases hparse : Settings.parse .json text with
  | ok read =>
    rw [hparse] at h
    cases h
    exact ⟨steps, none, _, .json, text, s, hparse, rfl⟩
  | error e =>
    rw [hparse] at h
    cases h

/-- A policy that allows a method some codes and constrains nothing else. -/
def allowing (steps : Option Text) (method : Text) (row : ByKind (List StatusCode)) : Policy :=
  compile steps none ⟨Keyword.all, ⟨[(method, row)]⟩, .empty⟩

theorem preimage_ne_of_other_code :
    (allowing (some "Given a".toList) "GET".toList ⟨some [200], none, none⟩).preimage ≠
      (allowing (some "Given a".toList) "GET".toList ⟨some [201], none, none⟩).preimage := by
  have hp : (allowing (some "Given a".toList) "GET".toList ⟨some [200], none, none⟩).Buildable := by
    apply buildable_of_json ("\x7b\"checklist_targets\":\x7b\x7d,\"status_matrix\":" ++
      "\x7b\"GET\":\x7b\"happy\":[200]\x7d\x7d\x7d").toList
    decide +kernel
  have hq : (allowing (some "Given a".toList) "GET".toList ⟨some [201], none, none⟩).Buildable := by
    apply buildable_of_json ("\x7b\"checklist_targets\":\x7b\x7d,\"status_matrix\":" ++
      "\x7b\"GET\":\x7b\"happy\":[201]\x7d\x7d\x7d").toList
    decide +kernel
  intro heq
  obtain ⟨_, _, _, hentries, _⟩ := ((preimage_eq_iff hp hq).2.1 ⟨by decide, by decide⟩
    ⟨by decide, by decide⟩).mp heq
  exact absurd hentries (by decide)

/-- The code 18176 is written as a zero byte and the letter `G`, so that codes can be written like
    the entries of another matrix: two policies share their digested bytes although one of them
    allows every code. -/
theorem exists_preimage_eq_of_zero_byte :
    ∃ p q : Policy, p.Buildable ∧ q.Buildable ∧ p.preimage = q.preimage ∧
      p.allowedCodes "GET".toList .happy = [18176, 21573, 25701, 25959] ∧
        q.allowedCodes "GET".toList .happy = [] := by
  refine ⟨allowing none "GET".toList ⟨some [18176, 21573, 25701, 25959], none, none⟩,
    allowing none "GET".toList ⟨some [], none, some []⟩, ?_, ?_, by decide +kernel, by decide,
    by decide⟩
  · apply buildable_of_json ("\x7b\"checklist_targets\":\x7b\x7d,\"status_matrix\":" ++
      "\x7b\"GET\":\x7b\"happy\":[18176,21573,25701,25959]\x7d\x7d\x7d").toList
    decide +kernel
  · apply buildable_of_json ("\x7b\"checklist_targets\":\x7b\x7d,\"status_matrix\":" ++
      "\x7b\"GET\":\x7b\"happy\":[],\"edge\":[]\x7d\x7d\x7d").toList
    decide +kernel

end Identity

end ScenarioLint.Policy
