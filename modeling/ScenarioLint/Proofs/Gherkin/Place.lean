import ScenarioLint.Gherkin.Reader
import ScenarioLint.Proofs.Gherkin.Written

/-!
Places between written lines: what is skipped in front of a line that counts, and how a series of
nodes is read one after the other.
-/

namespace ScenarioLint.Gherkin

theorem isIgnorable_of_isFiller {line : Text} (h : IsFiller line) :
    Line.isIgnorable (some line) = true := by
  obtain ⟨ind, more, hind, rfl, hmore⟩ := h
  have hbody : Line.body (ind ++ more) = more := by
    apply body_append hind
    intro c hc
    rcases hmore with rfl | hmore
    · cases hc
    · rw [hmore] at hc
      exact Option.some.inj hc ▸ rfl
  rw [Line.isIgnorable, hbody]
  rcases hmore with rfl | hmore
  · rfl
  · obtain ⟨rest, rfl⟩ := List.head?_eq_some_iff.mp hmore
    rfl

/-- A line that does not count is no line of a description either. -/
theorem description?_of_isIgnorable {line : Line} (h : Line.isIgnorable line = true) :
    Line.description? line = none := by
  cases line with
  | none => rfl
  | some t =>
    have hblank : Text.isBlank (Line.indent t) = true :=
      isBlank_of_isIndentation fun _ => List.mem_takeWhile_imp
    have hsplit : t = Line.indent t ++ Line.body t := List.takeWhile_append_dropWhile.symm
    rw [Line.isIgnorable] at h
    cases hbody : Line.body t with
    | nil =>
      have htrim : t.trim = [] := by
        rw [hsplit, hbody, Text.trim, Text.trimStart_append_of_isBlank hblank]
        rfl
      simp [Line.description?, htrim]
    | cons c rest =>
      simp only [hbody, beq_iff_eq] at h
      subst h
      have htrim : t.trim = Text.trimEnd ('#' :: rest) := by
        rw [hsplit, hbody, Text.trim, Text.trimStart_append_of_head hblank]
        intro c hc
        exact Option.some.inj hc ▸ rfl
      have hstart : ['#'] <+: Text.trimEnd ('#' :: rest) := by
        by_cases hrest : Text.trimEnd rest = []
        · obtain ⟨ws, hws, hwsBlank⟩ := Text.exists_trimEnd_append rest
          have hend : Text.trimEnd (['#'] ++ rest) = ['#'] := by
            rw [hrest, List.nil_append] at hws
            rw [hws]
            apply Text.trimEnd_append_of_getLast hwsBlank
            intro c hc
            exact Option.some.inj hc ▸ rfl
          exact hend ▸ List.prefix_refl _
        · exact Text.trimEnd_append_of_not_isBlank ['#'] hrest ▸ List.prefix_append ['#'] _
      have hany : Line.structural.any (·.isPrefixOf t.trim) = true :=
        List.any_eq_true.mpr ⟨['#'], by decide, List.isPrefixOf_iff_prefix.mpr (htrim ▸ hstart)⟩
      simp [Line.description?, hany]

namespace Place

/-- The place in front of written lines. -/
def before (n : Nat) (lines : List Text) (rest : List Line) : Place :=
  ⟨n, lines.map some ++ rest⟩

theorem before_append (n : Nat) (front back : List Text) (rest : List Line) :
    before n (front ++ back) rest = before n front (back.map some ++ rest) := by
  rw [before, before, List.map_append, List.append_assoc]

/-- A place lies behind another one with only lines between them that do not count. -/
def Reaches (p q : Place) : Prop :=
  ∃ skipped, p.rest = skipped ++ q.rest ∧ (∀ line ∈ skipped, Line.isIgnorable line = true) ∧
    q.line = p.line + skipped.length

theorem Reaches.refl (p : Place) : p.Reaches p :=
  ⟨[], rfl, by simp, rfl⟩

theorem Reaches.length_le {p q : Place} (h : p.Reaches q) : q.rest.length ≤ p.rest.length := by
  obtain ⟨skipped, hrest, _⟩ := h
  rw [hrest, List.length_append]
  exact Nat.le_add_left _ _

private theorem skipWhile_append {test : Line → Bool} {skipped : List Line}
    (h : ∀ line ∈ skipped, test line = true) (n : Nat) (rest : List Line) :
    skipWhile test n (skipped ++ rest) = skipWhile test (n + skipped.length) rest := by
  induction skipped generalizing n with
  | nil => rfl
  | cons line skipped ih =>
    rw [List.cons_append, skipWhile, if_pos (h line List.mem_cons_self),
      ih fun other hother => h other (List.mem_cons_of_mem _ hother), List.length_cons,
      Nat.add_assoc, Nat.add_comm 1]

private theorem exists_skipWhile (test : Line → Bool) (n : Nat) (lines : List Line) :
    ∃ skipped, lines = skipped ++ (skipWhile test n lines).rest ∧
      (∀ line ∈ skipped, test line = true) ∧
      (skipWhile test n lines).line = n + skipped.length ∧
      ∀ line, (skipWhile test n lines).rest.head? = some line → test line = false := by
  induction lines generalizing n with
  | nil => exact ⟨[], rfl, by simp, rfl, by simp [skipWhile]⟩
  | cons first rest ih =>
    rw [skipWhile]
    split
    · rename_i hfirst
      obtain ⟨skipped, hrest, hskipped, hline, hhead⟩ := ih (n + 1)
      refine ⟨first :: skipped, ?_, ?_, ?_, hhead⟩
      · rw [List.cons_append, ← hrest]
      · intro line hmem
        rcases List.mem_cons.mp hmem with rfl | hmem
        · exact hfirst
        · exact hskipped line hmem
      · rw [hline, List.length_cons, Nat.add_assoc, Nat.add_comm 1]
    · rename_i hfirst
      refine ⟨[], rfl, by simp, rfl, ?_⟩
      intro line hline
      rw [← Option.some.inj hline]
      exact Bool.eq_false_iff.mpr hfirst

theorem reaches_skipIgnorable (p : Place) : p.Reaches p.skipIgnorable := by
  obtain ⟨skipped, hrest, hskipped, hline, _⟩ :=
    exists_skipWhile Line.isIgnorable p.line p.rest
  exact ⟨skipped, hrest, hskipped, hline⟩

/-- The line behind all that is skipped counts. -/
theorem isIgnorable_head_skipIgnorable (p : Place) :
    ∀ line, p.skipIgnorable.rest.head? = some line → Line.isIgnorable line = false := by
  obtain ⟨_, _, _, _, hhead⟩ := exists_skipWhile Line.isIgnorable p.line p.rest
  exact hhead

theorem skipIgnorable_of_head {p : Place}
    (h : ∀ line, p.rest.head? = some line → Line.isIgnorable line = false) :
    p.skipIgnorable = p := by
  obtain ⟨n, rest⟩ := p
  cases rest with
  | nil => rfl
  | cons line rest =>
    have hline : Line.isIgnorable line = false := h line rfl
    rw [skipIgnorable, skipWhile, if_neg (by simp [hline])]

theorem skipIgnorable_of_counts {line : Line} (hline : Line.isIgnorable line = false) (n : Nat)
    (rest : List Line) : (Place.mk n (line :: rest)).skipIgnorable = ⟨n, line :: rest⟩ := by
  apply skipIgnorable_of_head
  intro other hother
  rwa [← Option.some.inj hother]

theorem skipIgnorable_skipIgnorable (p : Place) :
    p.skipIgnorable.skipIgnorable = p.skipIgnorable :=
  skipIgnorable_of_head p.isIgnorable_head_skipIgnorable

/-- Skipping on from a place on the way leads to the same place. -/
theorem Reaches.skipIgnorable_eq {p q : Place} (h : p.Reaches q) :
    q.skipIgnorable = p.skipIgnorable := by
  obtain ⟨skipped, hrest, hskipped, hline⟩ := h
  rw [skipIgnorable, skipIgnorable, hrest, skipWhile_append hskipped, hline]

theorem skipIgnorable_before_fillers {fillers : List Text}
    (h : ∀ line ∈ fillers, IsFiller line) (n : Nat) (lines : List Text) (rest : List Line) :
    (before n (fillers ++ lines) rest).skipIgnorable =
      (before (n + fillers.length) lines rest).skipIgnorable := by
  have hreaches : (before n (fillers ++ lines) rest).Reaches
      (before (n + fillers.length) lines rest) := by
    refine ⟨fillers.map some, ?_, ?_, ?_⟩
    · rw [before, before, List.map_append, List.append_assoc]
    · intro line hline
      obtain ⟨filler, hfiller, rfl⟩ := List.mem_map.mp hline
      exact isIgnorable_of_isFiller (h filler hfiller)
    · rw [List.length_map]
      rfl
  exact hreaches.skipIgnorable_eq.symm

theorem skipIgnorable_of_leads {lead : Lead} {more line : Text} (h : Leads lead more line)
    (n : Nat) (rest : List Line) :
    (Place.mk n (some line :: rest)).skipIgnorable = ⟨n, some line :: rest⟩ :=
  skipIgnorable_of_counts h.isIgnorable_eq n rest

theorem skipIgnorable_before_of_head {lines tail : List Text} {line : Text}
    (hlines : lines = line :: tail) (hline : Line.isIgnorable (some line) = false) {n : Nat}
    {rest : List Line} : (before n lines rest).skipIgnorable = before n lines rest := by
  rw [before, hlines, List.map_cons, List.cons_append, skipIgnorable_of_counts hline]

/-- Behind the lines that do not count, the file ends or a line with one of some leads follows. -/
def Faces (ok : Lead → Bool) (p : Place) : Prop :=
  p.skipIgnorable.rest = [] ∨ ∃ lead more line rest, p.skipIgnorable.rest = some line :: rest ∧
    Leads lead more line ∧ ok lead = true

theorem Faces.mono {ok other : Lead → Bool} {p : Place} (h : Faces ok p)
    (himp : ∀ lead, ok lead = true → other lead = true) : Faces other p := by
  rcases h with hend | ⟨lead, more, line, rest, hrest, hleads, hok⟩
  · exact .inl hend
  · exact .inr ⟨lead, more, line, rest, hrest, hleads, himp lead hok⟩

theorem faces_skipIgnorable_iff {ok : Lead → Bool} {p : Place} :
    Faces ok p.skipIgnorable ↔ Faces ok p := by
  rw [Faces, Faces, skipIgnorable_skipIgnorable]

theorem faces_of_leads {ok : Lead → Bool} {lead : Lead} {more line : Text}
    (h : Leads lead more line) (hok : ok lead = true) (n : Nat) (rest : List Line) :
    Faces ok ⟨n, some line :: rest⟩ :=
  .inr ⟨lead, more, line, rest, by rw [skipIgnorable_of_leads h], h, hok⟩

/-- A test that refuses the lines with the leads that may follow refuses what is faced. -/
theorem Faces.take_eq_pass {ok : Lead → Bool} {p : Place} (h : Faces ok p) {α : Type}
    {test : Line → Option α}
    (htest : ∀ lead more line, Leads lead more line → ok lead = true → test (some line) = none) :
    p.skipIgnorable.take test = .pass := by
  rcases h with hend | ⟨lead, more, line, rest, hrest, hleads, hok⟩
  · rw [take, hend]
  · rw [take, hrest]
    dsimp only
    rw [htest lead more line hleads hok]

theorem take_cons {α : Type} {test : Line → Option α} {line : Line} {a : α}
    (h : test line = some a) (n : Nat) (rest : List Line) :
    (Place.mk n (line :: rest)).take test = .done a ⟨n + 1, rest⟩ := by
  rw [take]
  dsimp only
  rw [h]
  rfl

section Many

variable {α : Type} {read : Place → Reply α}

theorem many_of_pass {p : Place} (h : read p = .pass) : p.many read = .done [] p := by
  rw [many, h]

theorem many_of_done {p next : Place} {a : α} (h : read p = .done a next)
    (hlt : next.rest.length < p.rest.length) :
    p.many read = (next.many read).map (a :: ·) := by
  rw [many, h]
  dsimp only
  rw [if_pos hlt]

/-- A reader reads the nodes of one sort as they are written, where `Follow` tells what may stand
    behind a node. -/
structure ReadsNode (read : Place → Reply α) (Written : Nat → List Text → α → Prop)
    (Good : α → Prop) (Follow : Place → Prop) : Prop where
  start : ∀ {n lines node}, Written n lines node → Good node →
    ∃ line tail, lines = line :: tail ∧ Line.isIgnorable (some line) = false
  read_before : ∀ {n lines node rest}, Written n lines node → Good node →
    Follow ⟨n + lines.length, rest⟩ → ∃ next, read (before n lines rest) = .done node next ∧
      (Place.mk (n + lines.length) rest).Reaches next

/-- Another node may stand behind a node. -/
structure ReadsNodes (read : Place → Reply α) (Written : Nat → List Text → α → Prop)
    (Good : α → Prop) (Follow : Place → Prop) : Prop
    extends ReadsNode read Written Good Follow where
  follow_before : ∀ {n lines node rest}, Written n lines node → Good node →
    Follow (before n lines rest)
  of_skipIgnorable : ∀ {p : Place}, Follow p.skipIgnorable → Follow p

variable {Written : Nat → List Text → α → Prop} {Good : α → Prop} {Follow : Place → Prop}

namespace ReadsNodes

/-- Whatever may stand behind a node stands in front of a series that it may stand behind. -/
theorem follow_series (h : ReadsNodes read Written Good Follow)
    {n : Nat} {lines : List Text} {nodes : List α} (hwritten : SeriesWritten Written n lines nodes)
    (hgood : ∀ node ∈ nodes, Good node) {rest : List Line}
    (hend : Follow ⟨n + lines.length, rest⟩) : Follow (before n lines rest) := by
  cases hwritten with
  | nil => exact hend
  | cons hfillers hnode _ =>
    have hnodeGood := hgood _ List.mem_cons_self
    obtain ⟨line, tail, htail, hline⟩ := h.start hnode hnodeGood
    apply h.of_skipIgnorable
    rw [skipIgnorable_before_fillers hfillers, before_append, skipIgnorable_before_of_head htail hline]
    exact h.follow_before hnode hnodeGood

/-- A series of nodes is read one after the other. -/
theorem many_series (h : ReadsNodes read Written Good Follow)
    {n : Nat} {lines : List Text} {nodes : List α} (hwritten : SeriesWritten Written n lines nodes)
    (hgood : ∀ node ∈ nodes, Good node) {rest : List Line}
    (hend : Follow ⟨n + lines.length, rest⟩)
    (hpass : read (Place.mk (n + lines.length) rest).skipIgnorable = .pass)
    {start : Place} (hreaches : (before n lines rest).Reaches start) :
    ∃ next, start.many (behindIgnorable read) = .done nodes next ∧
      (Place.mk (n + lines.length) rest).Reaches next := by
  induction hwritten generalizing start with
  | nil =>
    refine ⟨start, many_of_pass ?_, hreaches⟩
    rw [behindIgnorable, hreaches.skipIgnorable_eq]
    exact hpass
  | @cons n fillers lines more node nodes hfillers hnode hmore ih =>
    have hnodeGood := hgood node List.mem_cons_self
    have hnodesGood := fun other hother => hgood other (List.mem_cons_of_mem node hother)
    obtain ⟨line, tail, htail, hline⟩ := h.start hnode hnodeGood
    have hskipped : start.skipIgnorable =
        before (n + fillers.length) lines (more.map some ++ rest) := by
      rw [hreaches.skipIgnorable_eq, skipIgnorable_before_fillers hfillers, before_append,
        skipIgnorable_before_of_head htail hline]
    have hlength : n + (fillers ++ (lines ++ more)).length =
        n + fillers.length + lines.length + more.length := by
      simp only [List.length_append]
      omega
    rw [hlength] at hend hpass ⊢
    have hbehind : Follow ⟨n + fillers.length + lines.length, more.map some ++ rest⟩ :=
      h.follow_series hmore hnodesGood hend
    obtain ⟨next, hdone, hnextReaches⟩ := h.read_before hnode hnodeGood hbehind
    obtain ⟨last, hrest, hlast⟩ := ih hnodesGood hend hpass hnextReaches
    refine ⟨last, ?_, hlast⟩
    have hprogress : next.rest.length < start.rest.length := by
      have hle := hnextReaches.length_le
      have hge := (reaches_skipIgnorable start).length_le
      rw [hskipped, before, htail] at hge
      simp only [List.map_cons, List.cons_append, List.length_cons, List.length_append] at hge hle
      omega
    have hdone' : behindIgnorable read start = .done node next := by
      rw [behindIgnorable, hskipped, hdone]
    rw [many_of_done hdone' hprogress, hrest]
    rfl

end ReadsNodes

/-- A node that may be missing is read as it is written if it is there. -/
theorem ReadsNode.optional_series (h : ReadsNode read Written Good Follow)
    {n : Nat} {lines : List Text} {node : Option α}
    (hwritten : SeriesWritten Written n lines node.toList) (hgood : ∀ a ∈ node, Good a)
    {rest : List Line} (hend : Follow ⟨n + lines.length, rest⟩)
    (hpass : read (Place.mk (n + lines.length) rest).skipIgnorable = .pass)
    {start : Place} (hreaches : (before n lines rest).Reaches start) :
    ∃ next, (behindIgnorable read start).optional start = .done node next ∧
      (Place.mk (n + lines.length) rest).Reaches next := by
  cases node with
  | none =>
    cases hwritten with
    | nil =>
      refine ⟨start, ?_, hreaches⟩
      have hpass' : behindIgnorable read start = .pass := by
        rw [behindIgnorable, hreaches.skipIgnorable_eq]
        exact hpass
      rw [hpass']
      rfl
  | some node =>
    cases hwritten with
    | @cons _ fillers lines more _ _ hfillers hnode hmore =>
      cases hmore with
      | nil =>
        have hnodeGood := hgood node rfl
        obtain ⟨line, tail, htail, hline⟩ := h.start hnode hnodeGood
        have hlength : n + (fillers ++ (lines ++ [])).length =
            n + fillers.length + lines.length := by
          simp only [List.length_append, List.length_nil]
          omega
        rw [hlength] at hend ⊢
        obtain ⟨next, hdone, hnextReaches⟩ := h.read_before hnode hnodeGood hend
        refine ⟨next, ?_, hnextReaches⟩
        have hskipped : start.skipIgnorable = before (n + fillers.length) lines rest := by
          rw [hreaches.skipIgnorable_eq, skipIgnorable_before_fillers hfillers, List.append_nil,
            skipIgnorable_before_of_head htail hline]
        rw [behindIgnorable, hskipped, hdone]
        rfl

end Many

end Place

end ScenarioLint.Gherkin
