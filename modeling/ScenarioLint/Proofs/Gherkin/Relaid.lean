import ScenarioLint.Proofs.Gherkin.StepLine

/-!
What becomes of a document when its file is laid out in another way: when blank lines and comments
come and go between its lines, and when its lines are indented in another way.

Nothing but the numbers of lines changes, as long as docstrings are left alone and no line is put
between two rows of one table.
-/

namespace ScenarioLint.Gherkin

section Moved

variable (f : Nat → Nat)

def Row.moved (row : Row) : Row :=
  { row with line := f row.line }

def Docstring.moved (d : Docstring) : Docstring :=
  { d with line := f d.line }

def Argument.moved : Argument → Argument
  | docstring d => .docstring (d.moved f)
  | table rows => .table (rows.map (Row.moved f))

def Step.moved (s : Step) : Step :=
  { s with line := f s.line, argument := s.argument.map (Argument.moved f) }

def Examples.moved (e : Examples) : Examples :=
  { e with line := f e.line, rows := e.rows.map (Row.moved f) }

def Scenario.moved (c : Scenario) : Scenario :=
  { c with
    line := f c.line
    steps := c.steps.map (Step.moved f)
    examples := c.examples.map (Examples.moved f) }

def Background.moved (b : Background) : Background :=
  { b with line := f b.line, steps := b.steps.map (Step.moved f) }

def Feature.moved (x : Feature) : Feature :=
  { x with
    line := f x.line
    background := x.background.map (Background.moved f)
    scenarios := x.scenarios.map (Scenario.moved f) }

/-- The document with the number of every line sent to another one. -/
def Document.moved (doc : Document) : Document :=
  ⟨doc.feature.map (Feature.moved f)⟩

theorem Row.moved_id : Row.moved id = id :=
  rfl

theorem Argument.moved_id : Argument.moved id = id := by
  funext a
  cases a with
  | docstring d => rfl
  | table rows => rw [moved, Row.moved_id, List.map_id, id]

theorem Step.moved_id : Step.moved id = id := by
  funext s
  rw [moved, Argument.moved_id, Option.map_id, id, id, id]

theorem Examples.moved_id : Examples.moved id = id := by
  funext e
  rw [moved, Row.moved_id, List.map_id, id, id]

theorem Scenario.moved_id : Scenario.moved id = id := by
  funext c
  rw [moved, Step.moved_id, Examples.moved_id, List.map_id, List.map_id, id, id]

theorem Background.moved_id : Background.moved id = id := by
  funext b
  rw [moved, Step.moved_id, List.map_id, id, id]

theorem Feature.moved_id : Feature.moved id = id := by
  funext x
  rw [moved, Background.moved_id, Scenario.moved_id, Option.map_id, List.map_id, id, id, id]

theorem Document.moved_id (doc : Document) : doc.moved id = doc := by
  rw [moved, Feature.moved_id, Option.map_id, id]

end Moved

section Respaced

variable {line other : Text} {token next : Token} {lead : Lead}

theorem isFiller_of_body (h : Line.body other = Line.body line) : IsFiller other ↔ IsFiller line := by
  rw [isFiller_iff, isFiller_iff, Line.isIgnorable, Line.isIgnorable, h]

theorem lead?_of_body (h : Line.body other = Line.body line) :
    Line.lead? (some other) = Line.lead? (some line) := by
  ext ⟨lead, more⟩
  rw [Line.lead?_eq_some_iff, Line.lead?_eq_some_iff, h]

theorem exists_indent (line : Text) :
    ∃ ind, ind.isBlank = true ∧ line = ind ++ Line.body line :=
  ⟨Line.indent line, isBlank_of_isIndentation fun _ => List.mem_takeWhile_imp,
    List.takeWhile_append_dropWhile.symm⟩

theorem trim_of_body (h : Line.body other = Line.body line) : other.trim = line.trim := by
  obtain ⟨ind, hind, hline⟩ := exists_indent line
  obtain ⟨pad, hpad, hother⟩ := exists_indent other
  rw [hother, hline, Text.trim_append_left hind, Text.trim_append_left hpad, h]

theorem isDescriptionLine_of_body (h : Line.body other = Line.body line) :
    IsDescriptionLine other ↔ IsDescriptionLine line := by
  rw [IsDescriptionLine, IsDescriptionLine, trim_of_body h]

theorem words_of_body (h : Line.body other = Line.body line) : other.words = line.words := by
  obtain ⟨ind, hind, hline⟩ := exists_indent line
  obtain ⟨pad, hpad, hother⟩ := exists_indent other
  rw [hother, hline, Text.words_append_of_isBlank hind, Text.words_append_of_isBlank hpad, h]

/-- A line of a docstring. -/
def Kind.isDocstring : Kind → Bool
  | .content | .closing | .lead .quotes | .lead .backticks => true
  | _ => false

/-- A line in the place of another one that differs from it in its indentation only, and not even
    there if it is a line of a docstring. -/
structure Token.Respaced (token next : Token) : Prop where
  kind : next.1 = token.1
  body : Line.body next.2 = Line.body token.2
  docstring : token.1.isDocstring = true → next = token

theorem Token.Respaced.refl (token : Token) : token.Respaced token :=
  ⟨rfl, rfl, fun _ => rfl⟩

theorem Token.Respaced.derived {text : Text} (h : token.Respaced next)
    (htoken : lead.Derived text token) : lead.Derived text next := by
  rw [Lead.derived_iff] at htoken ⊢
  rwa [h.kind, lead?_of_body h.body]

theorem Token.Respaced.exists_opens {ind more : Text} (h : Token.Respaced (.lead lead, line) next)
    (hopens : lead.Opens ind more line) :
    ∃ own line', lead.Opens own more line' ∧ Line.body line' = Line.body line ∧
      next = (.lead lead, line') := by
  obtain ⟨kind, line'⟩ := next
  obtain ⟨rfl, hbody, _⟩ := h
  refine ⟨_, line', Lead.opens_of_lead? ?_, hbody, rfl⟩
  rw [lead?_of_body hbody, hopens.lead?_eq]

end Respaced

/-- Lines of a file, the first of which has the number `n`, and the lines when it is laid out in
    another way, the first of which has the number `m`.  A line that is kept goes from its number to
    the one that `f` tells.  Lines that do not count are put in in front of other lines, but not
    inside docstrings, and may be dropped. -/
inductive Relaid (f : Nat → Nat) : (n : Nat) → (tokens : List Token) → (m : Nat) →
    (result : List Token) → Prop
  | nil {n m : Nat} : Relaid f n [] m []
  | keep {n m : Nat} {token next : Token} {tokens result : List Token} (hm : f n = m)
      (hnext : token.Respaced next) (h : Relaid f (n + 1) tokens (m + 1) result) :
      Relaid f n (token :: tokens) m (next :: result)
  | put {n m : Nat} {line : Text} {token : Token} {tokens result : List Token}
      (hline : IsFiller line) (htoken : token.1.isInner = false)
      (h : Relaid f n (token :: tokens) (m + 1) result) :
      Relaid f n (token :: tokens) m ((.filler, line) :: result)
  | drop {n m : Nat} {line : Text} {tokens result : List Token} (hline : IsFiller line)
      (h : Relaid f (n + 1) tokens m result) : Relaid f n ((.filler, line) :: tokens) m result

namespace Relaid

variable {f : Nat → Nat} {n m : Nat} {token : Token} {tokens front back result : List Token}

theorem nil_eq (h : Relaid f n [] m result) : result = [] := by
  cases h
  rfl

/-- Lines one behind the other are laid out one behind the other. -/
theorem exists_append (h : Relaid f n (front ++ back) m result) :
    ∃ left right, result = left ++ right ∧ Relaid f n front m left ∧
      Relaid f (n + front.length) back (m + left.length) right := by
  generalize htokens : front ++ back = tokens at h
  induction h generalizing front with
  | nil =>
    obtain ⟨rfl, rfl⟩ := List.append_eq_nil_iff.mp htokens
    exact ⟨[], [], rfl, .nil, .nil⟩
  | @keep n m token next tokens result hm hnext hmore ih =>
    cases front with
    | nil =>
      obtain rfl : back = token :: tokens := htokens
      exact ⟨[], _, rfl, .nil, .keep hm hnext hmore⟩
    | cons first front =>
      obtain ⟨rfl, hrest⟩ := List.cons.inj htokens
      obtain ⟨left, right, rfl, hleft, hright⟩ := ih hrest
      refine ⟨next :: left, right, rfl, .keep hm hnext hleft, ?_⟩
      rwa [List.length_cons, List.length_cons, Nat.add_comm front.length, Nat.add_comm left.length,
        ← Nat.add_assoc, ← Nat.add_assoc]
  | @put n m line token tokens result hline htoken hmore ih =>
    cases front with
    | nil =>
      obtain rfl : back = token :: tokens := htokens
      exact ⟨[], _, rfl, .nil, .put hline htoken hmore⟩
    | cons first front =>
      obtain ⟨left, right, rfl, hleft, hright⟩ := ih htokens
      obtain ⟨rfl, _⟩ := List.cons.inj htokens
      refine ⟨(.filler, line) :: left, right, rfl, .put hline htoken hleft, ?_⟩
      rwa [show ((Kind.filler, line) :: left).length = left.length + 1 from rfl,
        Nat.add_comm left.length, ← Nat.add_assoc]
  | @drop n m line tokens result hline hmore ih =>
    cases front with
    | nil =>
      obtain rfl : back = (.filler, line) :: tokens := htokens
      exact ⟨[], _, rfl, .nil, .drop hline hmore⟩
    | cons first front =>
      obtain ⟨rfl, hrest⟩ := List.cons.inj htokens
      obtain ⟨left, right, rfl, hleft, hright⟩ := ih hrest
      refine ⟨left, right, rfl, .drop hline hleft, ?_⟩
      rwa [List.length_cons, Nat.add_comm front.length, ← Nat.add_assoc]

/-- A line that counts is kept, perhaps behind lines that do not count. -/
theorem exists_cons (h : Relaid f n (token :: tokens) m result) (htoken : token.1 ≠ .filler) :
    ∃ fillers next rest, result = fillers ++ next :: rest ∧ Fillers fillers ∧
      (token.1.isInner = true → fillers = []) ∧ f n = m + fillers.length ∧
      token.Respaced next ∧ Relaid f (n + 1) tokens (m + fillers.length + 1) rest := by
  generalize hlines : token :: tokens = lines at h
  induction h with
  | nil => cases hlines
  | keep hm hnext hmore =>
    obtain ⟨rfl, rfl⟩ := List.cons.inj hlines
    exact ⟨[], _, _, rfl, fillers_nil, fun _ => rfl, hm, hnext, hmore⟩
  | @put _ m line _ _ _ hline hfree _ ih =>
    obtain ⟨fillers, next, rest, rfl, hfillers, _, hnumber, hnext, hmore⟩ := ih hlines
    obtain ⟨rfl, _⟩ := List.cons.inj hlines
    have hlength : m + ((Kind.filler, line) :: fillers).length = m + 1 + fillers.length := by
      rw [List.length_cons]
      omega
    refine ⟨(.filler, line) :: fillers, next, rest, rfl,
      List.forall_mem_cons.mpr ⟨⟨rfl, hline⟩, hfillers⟩, fun hinner => ?_, ?_, hnext, ?_⟩
    · rw [hfree] at hinner
      cases hinner
    · rw [hlength, hnumber]
    · rwa [hlength]
  | drop =>
    obtain ⟨rfl, _⟩ := List.cons.inj hlines
    exact absurd rfl htoken

/-- Lines that do not count are laid out as such. -/
theorem fillers (h : Relaid f n tokens m result) (hfillers : Fillers tokens) : Fillers result := by
  induction h with
  | nil => exact fillers_nil
  | keep _ hnext _ ih =>
    obtain ⟨⟨hkind, hline⟩, hrest⟩ := List.forall_mem_cons.mp hfillers
    exact List.forall_mem_cons.mpr
      ⟨⟨hnext.kind.trans hkind, (isFiller_of_body hnext.body).mpr hline⟩, ih hrest⟩
  | put hline _ _ ih => exact List.forall_mem_cons.mpr ⟨⟨rfl, hline⟩, ih hfillers⟩
  | drop _ _ ih => exact ih (List.forall_mem_cons.mp hfillers).2

/-- A line with a lead keeps it. -/
theorem exists_derived {lead : Lead} {name : Text} (h : Relaid f n (token :: tokens) m result)
    (htoken : lead.Derived name token) :
    ∃ fillers next rest, result = fillers ++ next :: rest ∧ Fillers fillers ∧
      lead.Derived name next ∧ f n = m + fillers.length ∧
      Relaid f (n + 1) tokens (m + fillers.length + 1) rest := by
  have hcounts : token.1 ≠ .filler := by
    rw [(Lead.derived_iff.mp htoken).1]
    nofun
  obtain ⟨fillers, next, rest, rfl, hfillers, _, hnumber, hnext, hmore⟩ := h.exists_cons hcounts
  exact ⟨fillers, next, rest, rfl, hfillers, hnext.derived htoken, hnumber, hmore⟩

/-- Tags and the header under them stay together. -/
theorem exists_headed {tags : List Token} {words : List Text} {lead : Lead} {name : Text}
    (h : Relaid f n (tags ++ token :: tokens) m result) (htags : TagsDerived tags words)
    (htoken : lead.Derived name token) :
    ∃ fillers own next rest, result = fillers ++ (own ++ next :: rest) ∧ Fillers fillers ∧
      TagsDerived own words ∧ lead.Derived name next ∧
      f (n + tags.length) = m + fillers.length + own.length ∧
      Relaid f (n + tags.length + 1) tokens (m + fillers.length + own.length + 1) rest := by
  induction htags generalizing n m result with
  | nil =>
    obtain ⟨fillers, next, rest, rfl, hfillers, hnext, hnumber, hmore⟩ := h.exists_derived htoken
    exact ⟨fillers, [], next, rest, rfl, hfillers, .nil, hnext, hnumber, hmore⟩
  | @cons ind more line between tags words hline hbetween hmore ih =>
    rw [List.cons_append, List.append_assoc] at h
    obtain ⟨front, other, rest, rfl, hfront, _, hnumber, hother, hrest⟩ := h.exists_cons nofun
    obtain ⟨left, right, rfl, hleft, hright⟩ := hrest.exists_append
    obtain ⟨behind, own, next, rest, rfl, hbehind, hown, hnext, hlines, hrelaid⟩ := ih hright
    obtain ⟨pad, line', hopens, hbody, rfl⟩ := hother.exists_opens hline
    have hfillers : Fillers (left ++ behind) :=
      List.forall_mem_append.mpr ⟨hleft.fillers hbetween, hbehind⟩
    have htags := TagsDerived.cons hopens hfillers hown
    rw [words_of_body hbody] at htags
    have hold : n + ((Kind.lead .tag, line) :: (between ++ tags)).length =
        n + 1 + between.length + tags.length := by
      rw [List.length_cons, List.length_append]
      omega
    have hnew : m + front.length + ((Kind.lead .tag, line') :: (left ++ behind ++ own)).length =
        m + front.length + 1 + left.length + behind.length + own.length := by
      rw [List.length_cons, List.length_append, List.length_append]
      omega
    refine ⟨front, (.lead .tag, line') :: (left ++ behind ++ own), next, rest, by simp, hfront, htags,
      hnext, ?_, ?_⟩
    · rw [hold, hnew, hlines]
    · rwa [hold, hnew]

theorem description {texts : List Text} (h : Relaid f n tokens m result)
    (hdescription : DescriptionDerived tokens texts) : DescriptionDerived result texts := by
  induction h generalizing texts with
  | nil => exact hdescription
  | @keep _ _ token next _ _ _ hnext _ ih =>
    obtain ⟨kind, line'⟩ := next
    obtain ⟨hkind, hbody, _⟩ := hnext
    cases hdescription with
    | filler hline hmore =>
      obtain rfl : kind = .filler := hkind
      exact .filler ((isFiller_of_body hbody).mpr hline) (ih hmore)
    | text hline hmore =>
      obtain rfl : kind = .description := hkind
      have htext := DescriptionDerived.text ((isDescriptionLine_of_body hbody).mpr hline) (ih hmore)
      rwa [trim_of_body hbody] at htext
  | put hline _ _ ih => exact .filler hline (ih hdescription)
  | drop _ _ ih =>
    cases hdescription with
    | filler _ hmore => exact ih hmore

/-- Lines that do not count can be taken off in front of a line that counts. -/
theorem exists_plain (h : Relaid f n tokens m result) (hplain : StartsPlainly tokens) :
    ∃ fillers rest, result = fillers ++ rest ∧ Fillers fillers ∧ StartsPlainly rest ∧
      Relaid f n tokens (m + fillers.length) rest := by
  induction h with
  | nil => exact ⟨[], [], rfl, fillers_nil, hplain, .nil⟩
  | @keep _ _ token next _ _ hm hnext hmore _ =>
    refine ⟨[], _, rfl, fillers_nil, ?_, .keep hm hnext hmore⟩
    intro other hother
    obtain rfl := Option.some.inj hother
    obtain ⟨hfiller, hdescription⟩ := hplain token rfl
    rw [isFiller_of_body hnext.body, isDescriptionLine_of_body hnext.body]
    exact ⟨hfiller, hdescription⟩
  | @put _ m line _ _ _ hline _ _ ih =>
    obtain ⟨fillers, rest, rfl, hfillers, hrest, hmore⟩ := ih hplain
    refine ⟨(.filler, line) :: fillers, rest, rfl,
      List.forall_mem_cons.mpr ⟨⟨rfl, hline⟩, hfillers⟩, hrest, ?_⟩
    rwa [List.length_cons, Nat.add_comm fillers.length, ← Nat.add_assoc]
  | drop hline _ _ => exact absurd hline (hplain _ rfl).1

/-- A description takes the lines that do not count behind it. -/
theorem exists_description {description : List Token} {texts : List Text}
    (h : Relaid f n (description ++ tokens) m result)
    (hdescription : DescriptionDerived description texts) (hplain : StartsPlainly tokens) :
    ∃ own rest, result = own ++ rest ∧ DescriptionDerived own texts ∧ StartsPlainly rest ∧
      Relaid f (n + description.length) tokens (m + own.length) rest := by
  obtain ⟨left, right, rfl, hleft, hright⟩ := h.exists_append
  obtain ⟨fillers, rest, rfl, hfillers, hrest, hmore⟩ := hright.exists_plain hplain
  refine ⟨left ++ fillers, rest, (List.append_assoc _ _ _).symm,
    Place.descriptionDerived_append (hleft.description hdescription) hfillers, hrest, ?_⟩
  rwa [List.length_append, ← Nat.add_assoc]

end Relaid

/-- No line goes between two rows. -/
def Tight (f : Nat → Nat) (rows : List Row) : Prop :=
  ∀ row ∈ rows, ∀ other ∈ rows, other.line = row.line + 1 → f other.line = f row.line + 1

/-- However its lines are laid out, they give the node with other line numbers, perhaps behind lines
    that do not count. -/
def Movable {α : Type} (f : Nat → Nat) (Derived : Nat → List Token → α → Prop) (moved : α → α)
    (a : α) : Prop :=
  ∀ ⦃n m : Nat⦄ ⦃tokens result : List Token⦄, Derived n tokens a → Relaid f n tokens m result →
    BehindFillers Derived m result (moved a)

section Blocks

variable {α : Type} {Derived : Nat → List Token → α → Prop} {moved : α → α} {f : Nat → Nat}
  {n m : Nat} {tokens result fillers : List Token} {a : α} {nodes : List α}

theorem behindFillers_cons (hfillers : Fillers fillers)
    (h : BehindFillers Derived (m + fillers.length) result a) :
    BehindFillers Derived m (fillers ++ result) a := by
  obtain ⟨more, rest, hmore, hrest, rfl⟩ := h
  refine ⟨fillers ++ more, rest, List.forall_mem_append.mpr ⟨hfillers, hmore⟩, ?_,
    (List.append_assoc _ _ _).symm⟩
  rwa [List.length_append, ← Nat.add_assoc]

theorem Movable.behindFillers (ha : Movable f Derived moved a)
    (h : BehindFillers Derived n tokens a) (hrelaid : Relaid f n tokens m result) :
    BehindFillers Derived m result (moved a) := by
  obtain ⟨fillers, rest, hfillers, hrest, rfl⟩ := h
  obtain ⟨left, right, rfl, hleft, hright⟩ := hrelaid.exists_append
  exact behindFillers_cons (hleft.fillers hfillers) (ha hrest hright)

theorem series_relaid (hnodes : ∀ a ∈ nodes, Movable f Derived moved a)
    (h : Series (BehindFillers Derived) n tokens nodes) (hrelaid : Relaid f n tokens m result) :
    Series (BehindFillers Derived) m result (nodes.map moved) := by
  induction h generalizing m result with
  | nil =>
    rw [hrelaid.nil_eq]
    exact .nil
  | cons hnode _ ih =>
    obtain ⟨ha, hrest⟩ := List.forall_mem_cons.mp hnodes
    obtain ⟨left, right, rfl, hleft, hright⟩ := hrelaid.exists_append
    exact .cons (ha.behindFillers hnode hleft) (ih hrest hright)

/-- Nothing stands in front of a node that starts with a line that counts. -/
theorem derived_of_behindFillers (h : BehindFillers Derived n tokens a)
    (hplain : StartsPlainly tokens) : Derived n tokens a := by
  obtain ⟨fillers, rest, hfillers, hrest, rfl⟩ := h
  cases fillers with
  | nil => exact hrest
  | cons filler fillers =>
    exact absurd (hfillers filler List.mem_cons_self).2 (hplain filler rfl).1

/-- A block that there may be. -/
theorem series_relaid_option {node : Option α} (hnode : ∀ a, node = some a → Movable f Derived moved a)
    (h : Series (BehindFillers Derived) n tokens node.toList)
    (hrelaid : Relaid f n tokens m result) :
    Series (BehindFillers Derived) m result (node.map moved).toList := by
  rw [Option.toList_map]
  exact series_relaid (fun a ha => hnode a (Option.mem_toList.mp ha)) h hrelaid

end Blocks

section Nodes

variable {f : Nat → Nat} {n m : Nat} {tokens result : List Token}

theorem rows_relaid {rows : List Row} (h : Series Row.Derived n tokens rows) (htight : Tight f rows)
    (hfirst : rows ≠ [] → f n = m) (hrelaid : Relaid f n tokens m result) :
    Series Row.Derived m result (rows.map (Row.moved f)) := by
  induction h generalizing m result with
  | nil =>
    rw [hrelaid.nil_eq]
    exact .nil
  | @cons n _ more row rows hrow hmore ih =>
    obtain ⟨ind, inner, trail, line, hopens, htrail, rfl, rfl⟩ := hrow
    obtain ⟨fillers, next, rest, rfl, _, _, hnumber, hnext, hrest⟩ := hrelaid.exists_cons nofun
    have hnone : fillers = [] := by
      rw [← List.length_eq_zero_iff]
      have hstart := hfirst (List.cons_ne_nil _ _)
      omega
    subst hnone
    obtain ⟨pad, line', hopens', _, rfl⟩ := hnext.exists_opens hopens
    have hrow : Row.Derived m [(.lead .bar, line')]
        (Row.moved f ⟨(inner.pieces '|').map Text.trim, n⟩) :=
      ⟨pad, inner, trail, line', hopens', htrail, by rw [Row.moved, hnumber]; rfl, rfl⟩
    have hrows : Series Row.Derived (m + 1) rest (rows.map (Row.moved f)) := by
      refine ih (fun row hrow other hother => ?_) (fun hne => ?_) hrest
      · exact htight row (List.mem_cons_of_mem _ hrow) other (List.mem_cons_of_mem _ hother)
      -- the next row stands on the next line
      cases hmore with
      | nil => exact absurd rfl hne
      | cons hnode _ =>
        obtain ⟨_, _, _, _, _, _, rfl, _⟩ := hnode
        have hbehind := htight _ List.mem_cons_self _ (List.mem_cons_of_mem _ List.mem_cons_self) rfl
        exact hbehind.trans (congrArg (· + 1) hnumber)
    exact @Series.cons _ _ m [(.lead .bar, line')] rest _ _ hrow hrows

theorem isTable_moved {rows : List Row} (h : IsTable rows) : IsTable (rows.map (Row.moved f)) := by
  obtain ⟨hne, hwidth⟩ := h
  refine ⟨mt List.map_eq_nil_iff.mp hne, ?_⟩
  simpa [Row.moved] using hwidth

/-- A table starts with a bar, which no description takes. -/
theorem movable_table {rows : List Row} (htight : Tight f rows) :
    Movable f TableDerived (List.map (Row.moved f)) rows := by
  intro n m tokens result h hrelaid
  obtain ⟨ind, more, line, rest, _, rfl⟩ := Place.exists_bar_of_table h
  obtain ⟨fillers, next, rest, rfl, hfillers, _, hnumber, hnext, hmore⟩ := hrelaid.exists_cons nofun
  exact ⟨fillers, next :: rest, hfillers, ⟨isTable_moved h.1,
    rows_relaid h.2 htight (fun _ => hnumber) (.keep hnumber hnext hmore)⟩, rfl⟩

/-- Nothing inside a docstring changes. -/
theorem docstring_relaid {body : List Text} {closing : Text}
    (hrelaid : Relaid f n (body.map (Kind.content, ·) ++ [(.closing, closing)]) m result) :
    result = body.map (Kind.content, ·) ++ [(.closing, closing)] := by
  induction body generalizing n m result with
  | nil =>
    obtain ⟨fillers, next, rest, rfl, _, hinner, _, hnext, hrest⟩ := hrelaid.exists_cons nofun
    rw [hinner rfl, hnext.docstring rfl, hrest.nil_eq]
    rfl
  | cons line body ih =>
    obtain ⟨fillers, next, rest, rfl, _, hinner, _, hnext, hrest⟩ := hrelaid.exists_cons nofun
    rw [hinner rfl, hnext.docstring rfl, ih hrest]
    rfl

theorem movable_docstring (d : Docstring) :
    Movable f Docstring.Derived (Docstring.moved f) d := by
  intro n m tokens result h hrelaid
  obtain ⟨lead, ind, more, opening, body, content, closing, hlead, hopens, hbody, hclosing, hcontent,
    rfl, rfl⟩ := h
  obtain ⟨fillers, next, rest, rfl, hfillers, _, hnumber, hnext, hrest⟩ := hrelaid.exists_cons nofun
  have hsame : next = (.lead lead, opening) := hnext.docstring (by rcases hlead with rfl | rfl <;> rfl)
  refine ⟨fillers, next :: rest, hfillers, ?_, rfl⟩
  exact ⟨lead, ind, more, opening, body, content, closing, hlead, hopens, hbody, hclosing, hcontent,
    by rw [Docstring.moved, hnumber], by rw [hsame, docstring_relaid hrest]⟩

theorem movable_argument {a : Argument} (htight : ∀ rows, a = .table rows → Tight f rows) :
    Movable f Argument.Derived (Argument.moved f) a := by
  intro n m tokens result h hrelaid
  cases a with
  | docstring d => exact movable_docstring d h hrelaid
  | table rows => exact movable_table (htight rows rfl) h hrelaid

theorem movable_step {s : Step} (htight : ∀ rows ∈ s.tables, Tight f rows) :
    Movable f Step.Derived (Step.moved f) s := by
  intro n m tokens result h hrelaid
  obtain ⟨token, under, htoken, rfl, hunder, rfl⟩ := h
  obtain ⟨fillers, next, rest, rfl, hfillers, hnext, hnumber, hrest⟩ :=
    hrelaid.exists_derived htoken
  have hargument : ∀ a, s.argument = some a → Movable f Argument.Derived (Argument.moved f) a := by
    intro a ha
    refine movable_argument ?_
    rintro rows rfl
    exact htight rows (by rw [Step.tables, ha]; exact List.mem_singleton_self rows)
  exact ⟨fillers, next :: rest, hfillers, ⟨next, rest, hnext, hnumber,
    series_relaid_option hargument hunder hrest, rfl⟩, rfl⟩

theorem movable_examples {e : Examples} (htight : Tight f e.rows) :
    Movable f Examples.Derived (Examples.moved f) e := by
  intro n m tokens result h hrelaid
  obtain ⟨tags, token, description, texts, table, htags, htoken, hline, hdescription, htable, rfl⟩ := h
  obtain ⟨fillers, own, next, rest, rfl, hfillers, hown, hnext, hnumber, hrest⟩ :=
    hrelaid.exists_headed htags htoken
  obtain ⟨left, right, rfl, hleft, hplain, hright⟩ :=
    hrest.exists_description hdescription (Place.startsPlainly_of_table htable)
  have htable := derived_of_behindFillers (movable_table htight htable hright) hplain
  refine ⟨fillers, own ++ next :: (left ++ right), hfillers, ?_, rfl⟩
  exact ⟨own, next, left, texts, right, hown, hnext, by rw [Examples.moved, hline, hnumber], hleft,
    htable, rfl⟩

theorem movable_background {b : Background} (htight : ∀ s ∈ b.steps, ∀ rows ∈ s.tables, Tight f rows) :
    Movable f Background.Derived (Background.moved f) b := by
  intro n m tokens result h hrelaid
  obtain ⟨token, description, texts, steps, htoken, hline, hdescription, hplain, hsteps, rfl⟩ := h
  obtain ⟨fillers, next, rest, rfl, hfillers, hnext, hnumber, hrest⟩ :=
    hrelaid.exists_derived htoken
  obtain ⟨left, right, rfl, hleft, hstarts, hright⟩ := hrest.exists_description hdescription hplain
  refine ⟨fillers, next :: (left ++ right), hfillers, ?_, rfl⟩
  exact ⟨next, left, texts, right, hnext, by rw [Background.moved, hline, hnumber],
    hleft, hstarts, series_relaid (fun s hs => movable_step (htight s hs)) hsteps hright, rfl⟩

theorem movable_scenario {c : Scenario} (hsteps : ∀ s ∈ c.steps, ∀ rows ∈ s.tables, Tight f rows)
    (hexamples : ∀ e ∈ c.examples, Tight f e.rows) :
    Movable f Scenario.Derived (Scenario.moved f) c := by
  intro n m tokens result h hrelaid
  obtain ⟨tags, token, description, texts, steps, examples, htags, htoken, hline, hdescription,
    hplain, hss, hes, rfl⟩ := h
  obtain ⟨fillers, own, next, rest, rfl, hfillers, hown, hnext, hnumber, hrest⟩ :=
    hrelaid.exists_headed htags htoken
  obtain ⟨left, right, rfl, hleft, hstarts, hright⟩ := hrest.exists_description hdescription hplain
  obtain ⟨under, behind, rfl, hunder, hbehind⟩ := hright.exists_append
  refine ⟨fillers, own ++ next :: (left ++ (under ++ behind)), hfillers, ?_, rfl⟩
  exact ⟨own, next, left, texts, under, behind, hown, hnext, by rw [Scenario.moved, hline, hnumber],
    hleft, hstarts, series_relaid (fun s hs => movable_step (hsteps s hs)) hss hunder,
    series_relaid (fun e he => movable_examples (hexamples e he)) hes hbehind, rfl⟩

theorem movable_feature {x : Feature} (hsteps : ∀ s ∈ x.steps, ∀ rows ∈ s.tables, Tight f rows)
    (hexamples : ∀ c ∈ x.scenarios, ∀ e ∈ c.examples, Tight f e.rows) :
    Movable f Feature.Derived (Feature.moved f) x := by
  intro n m tokens result h hrelaid
  obtain ⟨tags, token, description, background, scenarios, htags, htoken, hline, hdescription, hplain,
    hbackground, hscenarios, rfl⟩ := h
  obtain ⟨fillers, own, next, rest, rfl, hfillers, hown, hnext, hnumber, hrest⟩ :=
    hrelaid.exists_headed htags htoken
  obtain ⟨left, right, rfl, hleft, hstarts, hright⟩ := hrest.exists_description hdescription hplain
  obtain ⟨under, behind, rfl, hunder, hbehind⟩ := hright.exists_append
  have hb : ∀ b, x.background = some b → Movable f Background.Derived (Background.moved f) b :=
    fun b hb => movable_background fun s hs => hsteps s (by simp [Feature.steps, hb, hs])
  have hc : ∀ c ∈ x.scenarios, Movable f Scenario.Derived (Scenario.moved f) c :=
    fun c hc => movable_scenario
      (fun s hs => hsteps s (List.mem_append_right _ (List.mem_flatMap.mpr ⟨c, hc, hs⟩)))
      (hexamples c hc)
  refine ⟨fillers, own ++ next :: (left ++ (under ++ behind)), hfillers, ?_, rfl⟩
  exact ⟨own, next, left, under, behind, hown, hnext, by rw [Feature.moved, hline, hnumber], hleft,
    hstarts, series_relaid_option hb hbackground hunder, series_relaid hc hscenarios hbehind, rfl⟩

end Nodes

/-- A file that is laid out in another way, perhaps with more lines at its end that do not count, is
    read as the same document with other line numbers. -/
theorem Document.Derived.relaid {f : Nat → Nat} {doc : Document} {tokens result fillers : List Token}
    (h : doc.Derived tokens) (htight : ∀ rows ∈ doc.tables, Tight f rows)
    (hrelaid : Relaid f 1 tokens 1 result) (hfillers : Fillers fillers) :
    (doc.moved f).Derived (result ++ fillers) := by
  obtain ⟨body, trailing, hbody, htrailing, rfl⟩ := h
  obtain ⟨left, right, rfl, hleft, hright⟩ := hrelaid.exists_append
  have hx : ∀ x, doc.feature = some x → Movable f Feature.Derived (Feature.moved f) x := by
    intro x hx
    have htables : ∀ rows, rows ∈ x.steps.flatMap Step.tables ++
        x.scenarios.flatMap (fun c => c.examples.map Examples.rows) → Tight f rows := by
      intro rows hrows
      exact htight rows (by rw [Document.tables, hx]; simpa using hrows)
    refine movable_feature (fun s hs rows hrows => ?_) (fun c hc e he => ?_)
    · exact htables rows (List.mem_append_left _ (List.mem_flatMap.mpr ⟨s, hs, hrows⟩))
    · exact htables e.rows (List.mem_append_right _
        (List.mem_flatMap.mpr ⟨c, hc, List.mem_map_of_mem he⟩))
  exact ⟨left, right ++ fillers, series_relaid_option hx hbody hleft,
    List.forall_mem_append.mpr ⟨hright.fillers htrailing, hfillers⟩, List.append_assoc _ _ _⟩

end ScenarioLint.Gherkin
