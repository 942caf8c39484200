import ScenarioLint.Proofs.Gherkin.Growth
import ScenarioLint.Proofs.Scenario.Origin
import ScenarioLint.Proofs.Scenario.RequestBody

/-!
What a repair does to the docstrings and tables of the steps of a text.

The reader uses the lines that were there as before, but for descriptions that have come to stand
under a step.
-/

namespace ScenarioLint.Scenario

open Gherkin (Argument Document Fillers Grown Kind Lead Line Mode Token IsDescriptionLine)

/-- The reader sees docstrings where the search for their marks does. -/
def Spot.Fits : Spot → Mode → Prop
  | ready, m | busy, m => m.Outside
  | inside, m => m = .inside .quotes

section Fits

variable {σ : Spot} {m n : Mode} {line t : Text} {kind : Kind}

theorem Spot.fits_of_outside (hσ : σ ≠ .inside) (hm : m.Outside) : σ.Fits m := by
  cases σ with
  | inside => exact absurd rfl hσ
  | ready | busy => exact hm

theorem Spot.Fits.outside (h : σ.Fits m) (hσ : σ ≠ .inside) : m.Outside := by
  cases σ with
  | inside => exact absurd rfl hσ
  | ready | busy => exact h

theorem Spot.next_ne_inside (hσ : σ ≠ .inside) (hmark : hasMark line = false) :
    σ.next line ≠ .inside := by
  rw [ne_eq, next_eq_inside_iff, decide_eq_false hσ, hmark]
  exact Bool.false_ne_true

/-- A line that counts neither for the reader nor for the search. -/
theorem Spot.next_of_idle (hσ : σ ≠ .inside) (hmark : hasMark line = false)
    (hkeyword : Keyword.leading? line = none) (hsetup : afterSetup? line = none) :
    σ.next line = .busy := by
  rw [next, decide_eq_false hσ, hmark, hkeyword, hsetup]
  rfl

/-- The search passes over the rows of a table: they start neither with a keyword nor with a step of
    the setup. -/
theorem Spot.next_of_bar {more : Text} (hσ : σ ≠ .inside) (hmark : hasMark line = false)
    (hlead : Line.lead? (Line.ofRaw line) = some (.bar, more)) : σ.next line = .busy := by
  obtain ⟨ind, rest, hind, rfl⟩ := Gherkin.exists_split_of_lead? hlead
  apply Spot.next_of_idle hσ hmark
  · rw [Option.eq_none_iff_forall_ne_some]
    intro keyword hkeyword
    cases Lead.keyword?_of_leading? hind hkeyword
  · rw [← Option.not_isSome_iff_eq_none]
    intro hsetup
    obtain ⟨_, hstep⟩ := Lead.isStep_of_afterSetup? hind hsetup
    cases hstep

/-- Outside docstrings, no line has the mark of one but the line that opens one. -/
theorem not_hasMark_of_next (hm : m.Outside) (hnext : m.Next (kind, t) n)
    (hkind : kind ≠ .lead .quotes) : hasMark t = false := by
  rw [Bool.eq_false_iff]
  intro hmark
  obtain ⟨hignorable, hdescription⟩ := Line.of_hasMark hmark
  cases hnext with
  | content | closing => cases hm
  | filler _ hline =>
    rw [Gherkin.isFiller_iff.mp hline] at hignorable
    cases hignorable
  | description hline =>
    rw [Gherkin.isDescriptionLine_iff, hdescription] at hline
    cases hline
  | lead _ hopens _ =>
    exact hkind (congrArg Kind.lead (Line.eq_quotes_of_hasMark hmark hopens.lead?_eq))

/-- Without fences, nothing but the mark opens a docstring. -/
theorem outside_of_next (hm : m.Outside) (hfence : isFence t = false)
    (hnext : m.Next (kind, t) n) (hkind : kind ≠ .lead .quotes) : n.Outside := by
  cases hnext with
  | content | closing => cases hm
  | filler => exact hm
  | description => trivial
  | @lead _ own _ _ _ _ hopens _ =>
    cases own with
    | quotes => exact absurd rfl hkind
    | backticks =>
      rw [Line.isFence_of_lead? hopens.lead?_eq] at hfence
      cases hfence
    | _ => trivial

/-- Outside docstrings, reader and search go over a line together. -/
theorem fits_next_of_outside (hσ : σ ≠ .inside) (hraw : Line.ofRaw line = some t)
    (hfence : isFence line = false) (hm : m.Outside) (hnext : m.Next (kind, t) n) :
    (σ.next line).Fits n ∧ (σ.next line = .ready → kind.Free) := by
  obtain rfl : t = line.dropReturn := (Line.ofRaw_eq_some_iff.mp hraw).1
  by_cases hkind : kind = .lead .quotes
  · subst hkind
    cases hnext with
    | lead _ hopens _ =>
      have hmark := Line.hasMark_of_lead? hopens.lead?_eq
      rw [hasMark_dropReturn] at hmark
      have hinside : σ.next line = .inside := by
        rw [Spot.next_eq_inside_iff, decide_eq_false hσ, hmark]
        rfl
      rw [hinside]
      exact ⟨rfl, nofun⟩
  · have hplain := not_hasMark_of_next hm hnext hkind
    rw [hasMark_dropReturn] at hplain
    have hout := outside_of_next hm (by rwa [isFence_dropReturn]) hnext hkind
    refine ⟨Spot.fits_of_outside (Spot.next_ne_inside hσ hplain) hout, fun hready => ?_⟩
    cases hnext with
    | content | closing => cases hm
    | filler _ hline =>
      have hignorable := Gherkin.isFiller_iff.mp hline
      rw [← hraw] at hignorable
      rw [Spot.next_of_idle hσ hplain (leading?_of_isIgnorable hignorable)
        (afterSetup?_of_isIgnorable hignorable)] at hready
      cases hready
    | description => trivial
    | @lead _ own _ _ _ _ hopens _ =>
      cases own with
      | quotes | backticks => cases hout
      | bar =>
        rw [Spot.next_of_bar hσ hplain (hraw.symm ▸ hopens.lead?_eq)] at hready
        cases hready
      | _ => rfl

/-- Reader and search go over a line together, provided that nothing but the mark closes a
    docstring. -/
theorem Spot.Fits.next (h : σ.Fits m) (hraw : Line.ofRaw line = some t)
    (hfence : isFence line = false)
    (hclosing : σ = .inside → hasMark line = true → line.trim = docstringMark)
    (hnext : m.Next (kind, t) n) :
    (σ.next line).Fits n ∧ (σ.next line = .ready → kind.Free) := by
  by_cases hσ : σ = .inside
  · subst hσ
    obtain rfl : m = .inside .quotes := h
    have hdrop := (Line.ofRaw_eq_some_iff.mp hraw).1
    cases hnext with
    | filler hm | lead hm => cases hm
    | content hline =>
      have hinside : Spot.inside.next line = .inside := by
        rw [Spot.next_eq_inside_iff]
        by_contra hmarked
        have hmark : hasMark line = true := by simpa using hmarked
        rw [hdrop, Text.trim_dropReturn] at hline
        exact hline (hclosing rfl hmark)
      rw [hinside]
      exact ⟨rfl, nofun⟩
    | closing hline =>
      have hmark : hasMark line = true := by
        rw [hdrop, Text.trim_dropReturn] at hline
        exact hasMark_of_trim hline
      exact ⟨Spot.fits_of_outside (by simp [Spot.next_eq_inside_iff, hmark]) trivial,
        fun _ => trivial⟩
  · exact fits_next_of_outside hσ hraw hfence (h.outside hσ) hnext

end Fits

section Endpoint

variable {m n : Mode} {kind : Kind} {lead line v w : Text} {e : Endpoint}

/-- The text starts with a visible character. -/
def HasVisibleHead (v : Text) : Prop :=
  ∃ c, v.head? = some c ∧ isSpace c = false

theorem HasVisibleHead.append (h : HasVisibleHead v) (w : Text) : HasVisibleHead (v ++ w) := by
  obtain ⟨c, hc, hspace⟩ := h
  exact ⟨c, by rw [List.head?_append, hc]; rfl, hspace⟩

theorem HasVisibleHead.isSpace_head (h : HasVisibleHead v) :
    ∀ c, v.head? = some c → isSpace c = false := by
  obtain ⟨d, hd, hspace⟩ := h
  intro c hc
  rw [hd] at hc
  rwa [← Option.some.inj hc]

theorem HasVisibleHead.trimEnd_ne_nil (h : HasVisibleHead v) : v.trimEnd ≠ [] := by
  obtain ⟨c, hc, hspace⟩ := h
  intro hnil
  obtain ⟨ws, hws, hblank⟩ := Text.exists_trimEnd_append v
  rw [hnil, List.nil_append] at hws
  rw [hws] at hc
  rw [Text.isBlank_iff.mp hblank c (List.mem_of_head? hc)] at hspace
  cases hspace

theorem HasVisibleHead.dropReturn (h : HasVisibleHead v) : HasVisibleHead v.dropReturn := by
  obtain ⟨c, hc, hspace⟩ := h
  obtain ⟨rest, rfl⟩ := List.head?_eq_some_iff.mp hc
  rw [Text.dropReturn]
  split
  · rename_i hlast
    cases rest with
    | nil =>
      obtain rfl := Option.some.inj hlast
      cases hspace
    | cons d rest => exact ⟨c, rfl, hspace⟩
  · exact ⟨c, rfl, hspace⟩

theorem HasVisibleHead.dropReturn_append (h : HasVisibleHead v) (front : Text) :
    (front ++ v).dropReturn = front ++ v.dropReturn := by
  have hne : v ≠ [] := by
    rintro rfl
    obtain ⟨_, ⟨⟩, _⟩ := h
  rw [Text.dropReturn, Text.dropReturn, List.getLast?_append_of_ne_nil _ hne]
  split
  · rw [List.dropLast_append_of_ne_nil hne]
  · rfl

/-- What is visible of an endpoint line in front of its value. -/
structure IsEndpointStart (start : Text) : Prop where
  head : HasVisibleHead start
  /-- Nothing structural reaches into the value. -/
  structural : ∀ s ∈ Line.structural, ∀ v, s <+: start ++ v → s <+: start

theorem IsEndpointLead.exists_start (h : IsEndpointLead lead) :
    ∃ margin start, lead = margin ++ start ∧ margin.isBlank = true ∧ IsEndpointStart start := by
  obtain ⟨margin, word, gap, name, pad, rfl, hmargin, hword, hgap, _⟩ := h
  obtain ⟨c, hc, hspace, _⟩ := hword.startsVisibly endpointWords_visible
  have hhead : HasVisibleHead word := ⟨c, hc, hspace⟩
  refine ⟨margin, _, rfl, hmargin, hhead.append _, fun s hs v hstarts => ?_⟩
  have hall : ∀ s ∈ Line.structural, ∀ w ∈ endpointWords,
      w.map foldCase <+: s.map foldCase ∨ s.map foldCase <+: w.map foldCase →
        s.length ≤ w.length + 1 := by
    decide
  obtain ⟨spelled, hspelled, hfold⟩ := hword
  have hlength : word.length = spelled.length := by
    simpa using congrArg List.length hfold
  have hshort : s.length ≤ word.length + 1 := by
    rw [hlength]
    refine hall s hs spelled hspelled ?_
    rw [← hfold]
    rw [List.append_assoc] at hstarts
    exact (List.prefix_or_prefix_of_prefix (List.prefix_append word _) hstarts).imp
      (fun hprefix => hprefix.map _) fun hprefix => hprefix.map _
  have hgapLength : 0 < gap.length := List.length_pos_iff.mpr hgap
  refine List.prefix_of_prefix_length_le hstarts (List.prefix_append _ v) ?_
  rw [List.length_append, List.length_append]
  omega

theorem IsEndpointStart.isDescriptionLine_iff {margin start : Text} (h : IsEndpointStart start)
    (hmargin : margin.isBlank = true) (hv : HasVisibleHead v) :
    IsDescriptionLine (margin ++ (start ++ v)) ↔ ∀ s ∈ Line.structural, ¬ s <+: start := by
  have htrim : Text.trim (margin ++ (start ++ v)) = start ++ v.trimEnd := by
    rw [Text.trim_append_left hmargin, Text.trim,
      Text.trimStart_of_head (h.head.append v).isSpace_head,
      Text.trimEnd_append_of_not_isBlank start hv.trimEnd_ne_nil]
  rw [IsDescriptionLine, htrim]
  constructor
  · rintro ⟨_, hnot⟩ s hs hstarts
    exact hnot s hs (hstarts.trans (List.prefix_append _ _))
  · intro hnot
    refine ⟨fun hnil => hv.trimEnd_ne_nil (List.append_eq_nil_iff.mp hnil).2, ?_⟩
    intro s hs hstarts
    exact hnot s hs (h.structural s hs _ hstarts)

/-- Whatever the value of an endpoint line is, the reader uses the line in the same way: as a step
    or as a description. -/
theorem next_of_endpointLead (hlead : IsEndpointLead lead) (hv : HasVisibleHead v)
    (hw : HasVisibleHead w) (hm : m.Outside) (h : m.Next (kind, lead ++ v) n) :
    m.Next (kind, lead ++ w) n ∧ (kind = .description ∨ ∃ word, kind = .lead (.step word)) := by
  obtain ⟨keyword, _, hheader, hkeyword⟩ := hlead.leading?
  obtain ⟨margin, start, rfl, hmargin, hstart⟩ := hlead.exists_start
  have hiff := hstart.isDescriptionLine_iff hmargin hv
  have hother := hstart.isDescriptionLine_iff hmargin hw
  rw [← List.append_assoc] at hiff hother
  cases h with
  | content | closing => cases hm
  | filler _ hline =>
    have hnone : Keyword.leading? (margin ++ start ++ v) = none := by
      rw [Keyword.leading?, Keyword.detect]
      rcases trimStart_of_isFiller hline with htrim | htrim
      · rw [htrim]
        rfl
      · obtain ⟨rest, hrest⟩ := List.head?_eq_some_iff.mp htrim
        rw [hrest]
        rfl
    rw [hkeyword] at hnone
    cases hnone
  | description hline => exact ⟨.description (hother.mpr (hiff.mp hline)), .inl rfl⟩
  | @lead _ own ind more _ _ hopens hplain =>
    rw [List.append_assoc] at hopens
    obtain ⟨rfl, hsplit⟩ := split_of_opens hopens hmargin (hstart.head.append v).isSpace_head
    obtain ⟨rest, hrest⟩ := hstart.structural _ own.mem_structural v
      (hsplit ▸ List.prefix_append own.text more)
    have hleading : Keyword.leading? (ind ++ (own.text ++ more)) = some keyword := by
      rw [← hsplit, ← List.append_assoc]
      exact hkeyword v
    obtain ⟨word, rfl⟩ :=
      Lead.eq_step_of_keyword? (Lead.keyword?_of_leading? hopens.1 hleading) hheader
    have hagain : (Lead.step word).Opens ind (rest ++ w) (ind ++ start ++ w) := by
      refine ⟨hopens.1, ?_⟩
      rw [← hrest, List.append_assoc, List.append_assoc]
    refine ⟨.lead hm hagain fun hdescribed hdescription => ?_, .inr ⟨word, rfl⟩⟩
    exact hplain hdescribed (hiff.mpr (hother.mp hdescription))

theorem exists_append_of_endpointLine {parts : EndpointLine} (h : endpointLine? line = some parts) :
    ∃ v, line = parts.lead ++ v ∧ IsEndpointLead parts.lead ∧ HasVisibleHead v := by
  obtain ⟨v, hline, hlead, hhead, hvalue, hne, _⟩ := endpointLine?_eq_some_iff.mp h
  have hv : v ≠ [] := by
    rintro rfl
    exact hne hvalue
  obtain ⟨c, rest, rfl⟩ := List.exists_cons_of_ne_nil hv
  exact ⟨_, hline, hlead, c, rfl, hhead c rfl⟩

/-- The reader uses an endpoint line in the same way when it is qualified. -/
theorem next_qualifyLine (hhost : ∀ host ∈ e.host, '\n' ∉ host)
    (hline : (endpointLine? line).isSome = true) (hm : m.Outside)
    (h : m.Next (kind, line.dropReturn) n) :
    m.Next (kind, (qualifyLine e line).dropReturn) n ∧
      (kind = .description ∨ ∃ word, kind = .lead (.step word)) := by
  obtain ⟨parts, hparts⟩ := Option.isSome_iff_exists.mp hline
  obtain ⟨⟨value, hagain⟩, _⟩ := endpointLine?_qualifyLine hhost hparts
  obtain ⟨v, hv, hlead, hvisible⟩ := exists_append_of_endpointLine hparts
  obtain ⟨w, hw, _, hwVisible⟩ := exists_append_of_endpointLine hagain
  rw [hv, hvisible.dropReturn_append] at h
  rw [hw, hwVisible.dropReturn_append]
  exact next_of_endpointLead hlead hvisible.dropReturn hwVisible.dropReturn hm h

end Endpoint

section Inserted

variable {options : RepairOptions} {e : Endpoint} {indent : Text} {m n : Mode} {kind : Kind}
  {line : Text} {block lines : List Text} {tokens : List Token}

/-- The reader goes over the first line, and over the others behind it. -/
theorem exists_passes_of_dropReturn
    (htokens : tokens.map Prod.snd = (line :: lines).map Text.dropReturn) (h : m.Passes tokens n) :
    ∃ kind rest m', tokens = (kind, line.dropReturn) :: rest ∧
      rest.map Prod.snd = lines.map Text.dropReturn ∧ m.Next (kind, line.dropReturn) m' ∧
      m'.Passes rest n := by
  obtain ⟨⟨kind, _⟩, rest, rfl, rfl, hrest⟩ := List.map_eq_cons_iff.mp htokens
  obtain ⟨m', hnext, hmore⟩ := Mode.passes_cons_iff.mp h
  exact ⟨kind, rest, m', rfl, hrest, hnext, hmore⟩

theorem exists_passes_of_ofRaw
    (htokens : (line :: lines).map Line.ofRaw = tokens.map (some ·.2)) (h : m.Passes tokens n) :
    ∃ kind rest m', tokens = (kind, line.dropReturn) :: rest ∧
      Line.ofRaw line = some line.dropReturn ∧ lines.map Line.ofRaw = rest.map (some ·.2) ∧
      m.Next (kind, line.dropReturn) m' ∧ m'.Passes rest n := by
  obtain ⟨kind, rest, m', rfl, _, hnext, hmore⟩ :=
    exists_passes_of_dropReturn (map_snd_of_ofRaw htokens) h
  obtain ⟨hline, hrest⟩ := List.cons.inj htokens
  exact ⟨kind, rest, m', rfl, hline, hrest, hnext, hmore⟩

/-- A line that a repair puts in on its own is read as a step. -/
theorem exists_opens_of_single (hindent : indent.isBlank = true)
    (hblock : [line] ∈ singleBlocks options e indent) (hm : m.Outside)
    (h : m.Next (kind, line.dropReturn) n) :
    n = .plain ∧ ∃ word ind more, kind = .lead (.step word) ∧
      (Lead.step word).Opens ind more line.dropReturn := by
  obtain ⟨word, _, text, hsplit, hvisible⟩ := exists_split_of_mem_singleBlocks hblock
  obtain rfl : line = _ := (List.cons.inj hsplit).1
  have htext : HasVisibleHead text := hvisible
  obtain ⟨c, hc, hspace, _, hcomment, _⟩ := (Lead.step word).exists_head
  have hhead : HasVisibleHead (Lead.step word).text := ⟨c, hc, hspace⟩
  have hdrop : (indent ++ ((Lead.step word).text ++ text)).dropReturn =
      indent ++ ((Lead.step word).text ++ text.dropReturn) := by
    rw [← List.append_assoc, htext.dropReturn_append, List.append_assoc]
  rw [hdrop] at h ⊢
  have hplain : ¬ IsDescriptionLine (indent ++ ((Lead.step word).text ++ text.dropReturn)) := by
    rintro ⟨_, hstart⟩
    apply hstart _ (Lead.step word).mem_structural
    rw [Text.trim_append_left hindent, Text.trim,
      Text.trimStart_of_head (hhead.append _).isSpace_head,
      Text.trimEnd_append_of_not_isBlank _ htext.dropReturn.trimEnd_ne_nil]
    exact List.prefix_append _ _
  obtain ⟨own, more, rfl, rfl, hopens, hown⟩ := exists_lead_of_next h hm hindent
    ⟨c, by rw [List.head?_append, hc]; rfl, hspace, hcomment⟩ fun _ => hplain
  obtain ⟨rfl, _⟩ := eq_of_text_append hown.symm
  exact ⟨rfl, word, indent, more, rfl, hopens⟩

/-- A block that a repair puts in is read as a step with what belongs to it. -/
theorem exists_opens_of_insertable (hindent : indent.isBlank = true) (hindentFeed : '\n' ∉ indent)
    (hblock : block ∈ insertableBlocks options e indent) (hm : m.Outside)
    (htokens : tokens.map Prod.snd = block.map Text.dropReturn) (h : m.Passes tokens n) :
    n = .plain ∧ ∃ word ind more line rest, tokens = (.lead (.step word), line) :: rest ∧
      (Lead.step word).Opens ind more line := by
  rcases mem_insertableBlocks_iff.mp hblock with hsingle | ⟨body, _, rfl⟩
  · obtain ⟨_, _, _, rfl, _⟩ := exists_split_of_mem_singleBlocks hsingle
    obtain ⟨kind, rest, _, rfl, hrest, hnext, hmore⟩ := exists_passes_of_dropReturn htokens h
    obtain rfl := List.map_eq_nil_iff.mp hrest
    cases hmore
    obtain ⟨hn, word, ind, more, rfl, hopens⟩ := exists_opens_of_single hindent hsingle hm hnext
    exact ⟨hn, word, ind, more, _, [], rfl, hopens⟩
  · rw [map_dropReturn_requestBlock hindent hindentFeed] at htokens
    have hquotes : ∀ lead, m = .inside lead → lead = .quotes := by
      rintro lead rfl
      cases hm
    obtain ⟨hindentation, rfl⟩ := tokens_of_requestBlock hindent hquotes h htokens
    refine ⟨?_, .and, indent, "request".toList, _, _, rfl, hindentation, rfl⟩
    rw [requestTokens, ← List.append_assoc] at h
    obtain ⟨_, _, hclosing⟩ := Mode.passes_append_iff.mp h
    obtain ⟨_, hnext, hmore⟩ := Mode.passes_cons_iff.mp hclosing
    cases hmore
    cases hnext
    rfl

end Inserted

section Lockstep

variable {options : RepairOptions} {e : Endpoint} {indent : Text} {σ : Spot} {k : Nat}
  {lines result : List Text} {origins : List (Option Nat)} {m n m' n' : Mode}
  {tokens others : List Token} {line : Text}

theorem not_isBlank_of_opens {own : Lead} {ind more : Text} (h : own.Opens ind more line) :
    line.isBlank = false := by
  obtain ⟨c, hc, _⟩ := own.exists_head
  refine not_isBlank_of_head (c := c) ?_
  rw [h.2, Gherkin.trimStart_of_split h.1, List.head?_append, hc]
  rfl

/-- Blank lines leave the mode as it is, and outside docstrings they do not count. -/
theorem fillers_of_blank (h : m.Passes tokens n)
    (hblank : ∀ token ∈ tokens, token.2.isBlank = true) :
    n = m ∧ (m.Outside → Fillers tokens) := by
  induction h with
  | nil => exact ⟨rfl, fun _ => Gherkin.fillers_nil⟩
  | cons hnext _ ih =>
    obtain ⟨hline, hrest⟩ := List.forall_mem_cons.mp hblank
    obtain ⟨rfl, hfillers⟩ := ih hrest
    cases hnext with
    | filler _ hfiller =>
      exact ⟨rfl, fun hm => List.forall_mem_cons.mpr ⟨⟨rfl, hfiller⟩, hfillers hm⟩⟩
    | content => exact ⟨rfl, False.elim⟩
    | description hdescription =>
      rw [← Text.isEmpty_trim, List.isEmpty_iff] at hline
      exact absurd hline hdescription.1
    | lead _ hopens _ =>
      rw [not_isBlank_of_opens hopens] at hline
      cases hline
    | @closing own _ hclosing =>
      rw [← Text.isEmpty_trim, hclosing, List.isEmpty_iff] at hline
      obtain ⟨_, hc, _⟩ := own.exists_head
      rw [hline] at hc
      cases hc

theorem blank_of_ofRaw (htokens : lines.map Line.ofRaw = tokens.map (some ·.2))
    (hblank : ∀ line ∈ lines, line.isBlank = true) :
    ∀ token ∈ tokens, token.2.isBlank = true := by
  intro token htoken
  have hmem : token.2 ∈ tokens.map Prod.snd := List.mem_map.mpr ⟨token, htoken, rfl⟩
  rw [map_snd_of_ofRaw htokens] at hmem
  obtain ⟨line, hline, heq⟩ := List.mem_map.mp hmem
  rw [← heq, ← Text.isEmpty_trim, Text.trim_dropReturn, Text.isEmpty_trim]
  exact hblank line hline

/-- What the roles say of a line and of those behind it. -/
theorem closing_cons (h : ∀ pair ∈ (Role.scanFrom (decide (σ = .inside)) (line :: lines)).zip
      (line :: lines), pair.1 = .closing → pair.2.trim = docstringMark) :
    (σ = .inside → hasMark line = true → line.trim = docstringMark) ∧
      ∀ pair ∈ (Role.scanFrom (decide (σ.next line = .inside)) lines).zip lines,
        pair.1 = .closing → pair.2.trim = docstringMark := by
  have hnext : decide (σ.next line = .inside) = (decide (σ = .inside) != hasMark line) := by
    rw [Bool.eq_iff_iff, decide_eq_true_eq, Spot.next_eq_inside_iff]
  rw [Role.scanFrom, List.zip_cons_cons, List.forall_mem_cons] at h
  refine ⟨fun hσ hmark => h.1 ?_, ?_⟩
  · rw [decide_eq_true hσ, hmark]
    rfl
  · rw [hnext]
    exact h.2

/-- A qualified endpoint line stands for the line that it was, and more can be put in behind it. -/
theorem replaces_qualifyLine {kind other : Kind} (hhost : ∀ host ∈ e.host, '\n' ∉ host)
    (hendpoint : (endpointLine? line).isSome = true) (hm : m.Outside) (hfollows : m.Follows n)
    (hnext : m.Next (kind, line.dropReturn) m')
    (hother : n.Next (other, (qualifyLine e line).dropReturn) n') :
    Token.Replaces (other, (qualifyLine e line).dropReturn) (kind, line.dropReturn) ∧
      kind.Free ∧ m'.Outside ∧ m'.Follows n' := by
  obtain ⟨hqualified, hkind⟩ := next_qualifyLine hhost hendpoint hm hnext
  obtain ⟨hbehind, hsame⟩ := hfollows.next hqualified hother
  rcases hkind with rfl | ⟨word, rfl⟩
  · cases hnext
    exact ⟨.description, trivial, trivial, hbehind⟩
  · obtain rfl := hsame.resolve_right nofun
    cases hnext
    cases hqualified with
    | lead _ hopens _ => exact ⟨.lead rfl hopens, rfl, trivial, hbehind⟩

/-- Reading the lines of a text and those of its repair side by side. -/
theorem grown_of_traced (hindent : indent.isBlank = true) (hindentFeed : '\n' ∉ indent)
    (hhost : ∀ host ∈ e.host, '\n' ∉ host)
    (h : Traced e (insertableBlocks options e indent) σ k lines origins result)
    (htokens : lines.map Line.ofRaw = tokens.map (some ·.2))
    (hothers : others.map Prod.snd = result.map Text.dropReturn)
    (hfence : ∀ line ∈ lines, isFence line = false)
    (hclosing : ∀ pair ∈ (Role.scanFrom (decide (σ = .inside)) lines).zip lines,
      pair.1 = .closing → pair.2.trim = docstringMark)
    (hm : m.Passes tokens m') (hout : m'.Outside) (hn : n.Passes others n') (hfits : σ.Fits m)
    (hfollows : m.Follows n) : Grown (σ = .ready) k tokens origins others := by
  induction h generalizing m n tokens others with
  | @nil _ _ lines hblank =>
    obtain rfl := List.map_eq_nil_iff.mp hothers
    obtain ⟨rfl, hfillers⟩ := fillers_of_blank hm (blank_of_ofRaw htokens hblank)
    exact .nil (hfillers hout)
  | @keep σ k line lines result origins _ ih =>
    obtain ⟨kind, tokens, _, rfl, hraw, hmore, hnext, hbehind⟩ := exists_passes_of_ofRaw htokens hm
    obtain ⟨_, others, _, rfl, hrest, hnextOther, hbehindOther⟩ :=
      exists_passes_of_dropReturn hothers hn
    obtain ⟨hline, hlines⟩ := List.forall_mem_cons.mp hfence
    obtain ⟨hmark, hclosingMore⟩ := closing_cons hclosing
    obtain ⟨hfits, hfree⟩ := hfits.next hraw hline hmark hnext
    obtain ⟨hfollows, hkind⟩ := hfollows.next hnext hnextOther
    refine .keep ?_ hfree
      (ih hmore hrest hlines hclosingMore hbehind hbehindOther hfits hfollows)
    rcases hkind with rfl | rfl
    · exact .same
    · exact .description
  | @qualify σ k line lines result origins hσ hendpoint _ ih =>
    obtain ⟨kind, tokens, _, rfl, _, hmore, hnext, hbehind⟩ := exists_passes_of_ofRaw htokens hm
    obtain ⟨_, others, _, rfl, hrest, hnextOther, hbehindOther⟩ :=
      exists_passes_of_dropReturn hothers hn
    obtain ⟨_, hlines⟩ := List.forall_mem_cons.mp hfence
    obtain ⟨_, hclosingMore⟩ := closing_cons hclosing
    rw [Traced.next_endpointLine hσ hendpoint] at hclosingMore
    obtain ⟨hreplaces, hfree, hfits, hfollows⟩ :=
      replaces_qualifyLine hhost hendpoint (hfits.outside hσ) hfollows hnext hnextOther
    exact .keep hreplaces (fun _ => hfree)
      (ih hmore hrest hlines hclosingMore hbehind hbehindOther hfits hfollows)
  | @put k block lines result origins hblock _ ih =>
    rw [List.map_append] at hothers
    obtain ⟨own, others, rfl, hown, hrest⟩ := List.map_eq_append_iff.mp hothers
    obtain ⟨_, hblockPasses, hbehind⟩ := Mode.passes_append_iff.mp hn
    obtain ⟨rfl, word, ind, more, line, rest, rfl, hopens⟩ := exists_opens_of_insertable hindent
      hindentFeed hblock (hfollows.outside hfits) hown hblockPasses
    have hnew : block.map (fun _ => (none : Option Nat)) = none :: rest.map fun _ => none := by
      have hlength := congrArg List.length hown
      rw [List.length_map, List.length_map] at hlength
      rw [List.map_const', ← hlength, List.map_const']
      rfl
    rw [hnew]
    exact .put rfl hopens
      (ih htokens hrest hfence hclosing hm hbehind hfits (.inr ⟨hfits, rfl⟩))

theorem unmarked_of_blank (h : ∀ line ∈ lines, line.isBlank = true) :
    Role.insideAfter false lines = false :=
  insideAfter_of_unmarked fun line hline => hasMark_of_isBlank (h line hline)

/-- The lines of a text, without blank ones in front, and those of its repair. -/
theorem exists_grown (hindent : indent.isBlank = true) (hindentFeed : '\n' ∉ indent)
    (hhost : ∀ host ∈ e.host, '\n' ∉ host)
    (h : Origins e (insertableBlocks options e indent) lines origins result)
    (htokens : lines.map Line.ofRaw = tokens.map (some ·.2))
    (hothers : others.map Prod.snd = result.map Text.dropReturn)
    (hfence : ∀ line ∈ lines, isFence line = false)
    (hclosing : ∀ pair ∈ (Role.scan lines).zip lines,
      pair.1 = .closing → pair.2.trim = docstringMark)
    (hclears : Mode.plain.Clears tokens) (hclearsOthers : Mode.plain.Clears others) :
    ∃ free fillers rest, tokens = fillers ++ rest ∧ Fillers fillers ∧
      Grown free fillers.length rest origins others := by
  obtain ⟨front, back, rfl, hblank, htraced⟩ := h
  rw [List.map_append] at htokens
  obtain ⟨fillers, rest, rfl, hfront, hback⟩ := List.map_eq_append_iff.mp htokens.symm
  obtain ⟨m, hout, hpasses⟩ := hclears
  obtain ⟨n, _, hpassesOthers⟩ := hclearsOthers
  obtain ⟨_, habove, hbehind⟩ := Mode.passes_append_iff.mp hpasses
  obtain ⟨rfl, hfillers⟩ := fillers_of_blank habove (blank_of_ofRaw hfront.symm hblank)
  have houtside := Spot.after_ne_inside (unmarked_of_blank hblank)
  have hlength : front.length = fillers.length := by
    simpa using (congrArg List.length hfront).symm
  rw [Role.scan, Role.scanFrom_append, List.zip_append (by simp), unmarked_of_blank hblank,
    List.forall_mem_append] at hclosing
  rw [hlength] at htraced
  refine ⟨_, fillers, rest, rfl, hfillers trivial, grown_of_traced hindent hindentFeed hhost htraced
    hback.symm hothers (fun line hline => hfence line (List.mem_append_right _ hline)) ?_ hbehind
    hout hpassesOthers (Spot.fits_of_outside houtside trivial) (.inl rfl)⟩
  rw [decide_eq_false houtside]
  exact hclosing.2

end Lockstep

/-- What a repair does to the steps of a text, if text and repair can be read.  Every step is still
    there, on the line that its own line has become, and has the argument that it had, up to line
    numbers.  The one exception is a step with a new line directly behind its own: it has lost its
    argument, if it had one, to what was put in. -/
theorem exists_step_of_parse_repair {options : RepairOptions} {e : Endpoint} {text : Text}
    {doc repaired : Document} (hparse : Gherkin.parse text = .ok doc)
    (hrepaired : Gherkin.parse (repair options e text) = .ok repaired)
    (hfence : ∀ line ∈ text.lines, isFence line = false)
    (hclosing : ∀ pair ∈ (Role.scan text.lines).zip text.lines,
      pair.1 = .closing → pair.2.trim = docstringMark)
    (hpath : '\n' ∉ e.path) (hmethod : '\n' ∉ e.method) (hhost : ∀ host ∈ e.host, '\n' ∉ host)
    (hstep : options.stepIndent.isBlank = true) (hstepFeed : '\n' ∉ options.stepIndent)
    (hcontentType : '\n' ∉ options.contentType) :
    ∃ lines origins, repair options e text = Text.unlines lines ∧
      Origins e (insertableBlocks options e (stepIndentOf options text.lines)) text.lines origins
        lines ∧
      ∀ s ∈ doc.steps, ∃ t ∈ repaired.steps, origins[t.line - 1]? = some (some (s.line - 1)) ∧
        t.word = s.word ∧ t.argument.map (Argument.numbered 0) =
          if origins[t.line]? = some none then none else s.argument.map (Argument.numbered 0) := by
  have hkept := fencelessLines_eq_lines hfence
  have hne := (settled_repairedLines hhost hpath hstep (fencelessLines text)).trimLines.ne_nil
  obtain ⟨tokens, hlines, hderived⟩ := Gherkin.parse_eq_ok_iff.mp hparse
  obtain ⟨others, hderivedOthers, hothers, _⟩ := exists_tokens_of_repair hpath hmethod hhost hstep
    hstepFeed hcontentType hrepaired
  obtain ⟨origins, horigins⟩ := exists_origins_repair hpath hhost hstep text.lines
  have hindentFeed := feed_not_mem_stepIndentOf hstepFeed
    fun line (hline : line ∈ text.lines) => Text.feed_not_mem_of_mem_lines hline
  rw [(Gherkin.all_of_parse hparse).2] at hlines
  rw [hkept] at hothers
  obtain ⟨_, fillers, rest, rfl, hfillers, hgrown⟩ := exists_grown (isBlank_stepIndentOf hstep _)
    hindentFeed hhost horigins hlines hothers hfence hclosing hderived.clears hderivedOthers.clears
  refine ⟨_, origins, by rw [repair_eq_unlines options e text hne, hkept], horigins, fun s hs => ?_⟩
  obtain ⟨i, line, hnumber, hline, own, back, hdrop, hstepDerived, hcalm⟩ :=
    hderived.exists_standsAt hs
  have hle : fillers.length ≤ i := by
    by_contra hlt
    rw [List.getElem?_append_left (Nat.lt_of_not_le hlt)] at hline
    cases (hfillers _ (List.mem_of_getElem? hline)).1
  obtain ⟨j, rfl⟩ := Nat.exists_eq_add_of_le hle
  rw [List.drop_length_add_append] at hdrop
  rw [hnumber, Nat.add_sub_cancel]
  exact hgrown.exists_step hderivedOthers hdrop hstepDerived hcalm

/-- The line that sends the request goes behind a step with a table, while a docstring and another
    table stay where they are. -/
theorem exists_step_of_parse_repair_tables :
    let e : Endpoint := ⟨"/users".toList, "get".toList, some "api.test".toList, none⟩
    let text : Text := ("Feature: F\nScenario: s\nGiven url '/users'\nAnd data\n\"\"\"\nx\n" ++
      "\"\"\"\nAnd rows\n| a |\nThen status 200\n| b |\n").toList
    ∃ doc repaired, Gherkin.parse text = .ok doc ∧ doc.steps.map Gherkin.Step.line = [3, 4, 8, 10] ∧
      Gherkin.parse (repair .standard e text) = .ok repaired ∧
      ∃ lines origins, repair .standard e text = Text.unlines lines ∧
        Origins e (insertableBlocks .standard e []) text.lines origins lines ∧
        ∀ s ∈ doc.steps, ∃ t ∈ repaired.steps, origins[t.line - 1]? = some (some (s.line - 1)) ∧
          t.word = s.word ∧ t.argument.map (Argument.numbered 0) =
            if origins[t.line]? = some none then none
            else s.argument.map (Argument.numbered 0) := by
  intro e text
  let steps : List Gherkin.Step :=
    [⟨.given, "url '/users'".toList, 3, none⟩,
      ⟨.and, "data".toList, 4, some (.docstring ⟨none, ['x'], 5⟩)⟩,
      ⟨.and, "rows".toList, 8, some (.table [⟨[['a']], 9⟩])⟩,
      ⟨.then, "status 200".toList, 10, some (.table [⟨[['b']], 11⟩])⟩]
  let f : Gherkin.Feature := ⟨[], ['F'], [], 1, none, [⟨[], .scenario, ['s'], 2, steps, []⟩]⟩
  have hread : Gherkin.parse (Text.unlines (Document.mk (some f)).render) =
      .ok (Document.mk (some f)).numbered :=
    Gherkin.parse_render (by decide +kernel) (by decide) (by decide)
  have htext : Text.unlines (Document.mk (some f)).render = text := by decide +kernel
  have hnumbered : (Document.mk (some f)).numbered = ⟨some f⟩ := by decide +kernel
  rw [htext, hnumbered] at hread
  have hrun : Gherkin.Stage.run (Line.all (repair .standard e text)) (.between .top) =
      some (.table .scenario 1) := by
    decide +kernel
  obtain ⟨repaired, hrepaired⟩ := (Gherkin.exists_parse_iff _).mpr ⟨_, hrun, rfl⟩
  exact ⟨_, repaired, hread, by decide, hrepaired, exists_step_of_parse_repair hread hrepaired
    (by decide +kernel) (by decide +kernel) (by decide) (by decide) (by decide) (by decide)
    (by decide) (by decide)⟩

/-- The line that sends the request goes between a step and its table and takes the table over. -/
theorem argument_repair_ne_of_table :
    let e : Endpoint := ⟨"/p".toList, "GET".toList, some "h".toList, none⟩
    let text : Text := ("Feature: F\nScenario: s\nGiven endpoint \"https://h/p\"\nAnd data\n" ++
      "| a |\nThen status 200\n").toList
    (∀ line ∈ text.lines, isFence line = false) ∧
      repair .standard e text = ("Feature: F\nScenario: s\nGiven endpoint \"https://h/p\"\n" ++
        "And data\nWhen method GET\n| a |\nThen status 200\n").toList ∧
      ∃ doc repaired, Gherkin.parse text = .ok doc ∧
        Gherkin.parse (repair .standard e text) = .ok repaired ∧
        ⟨.and, "data".toList, 4, some (.table [⟨[['a']], 5⟩])⟩ ∈ doc.steps ∧
        (∀ t ∈ repaired.steps, t.line = 4 → t = ⟨.and, "data".toList, 4, none⟩) ∧
        ⟨.when, "method GET".toList, 5, some (.table [⟨[['a']], 6⟩])⟩ ∈ repaired.steps := by
  intro e text
  let found : Gherkin.Step := ⟨.given, "endpoint \"https://h/p\"".toList, 3, none⟩
  let table (n : Nat) : Argument := .table [⟨[['a']], n⟩]
  let feature (steps : List Gherkin.Step) : Gherkin.Feature :=
    ⟨[], ['F'], [], 1, none, [⟨[], .scenario, ['s'], 2, steps, []⟩]⟩
  let f := feature [found, ⟨.and, "data".toList, 4, some (table 5)⟩,
    ⟨.then, "status 200".toList, 6, none⟩]
  let g := feature [found, ⟨.and, "data".toList, 4, none⟩,
    ⟨.when, "method GET".toList, 5, some (table 6)⟩, ⟨.then, "status 200".toList, 7, none⟩]
  have hread : Gherkin.parse (Text.unlines (Document.mk (some f)).render) =
      .ok (Document.mk (some f)).numbered :=
    Gherkin.parse_render (by decide +kernel) (by decide) (by decide)
  have hagain : Gherkin.parse (Text.unlines (Document.mk (some g)).render) =
      .ok (Document.mk (some g)).numbered :=
    Gherkin.parse_render (by decide +kernel) (by decide) (by decide)
  have hrepair : repair .standard e text = Text.unlines (Document.mk (some g)).render := by
    decide +kernel
  have htext : text = Text.unlines (Document.mk (some f)).render := by decide +kernel
  have hnumbered : (Document.mk (some f)).numbered = ⟨some f⟩ ∧
      (Document.mk (some g)).numbered = ⟨some g⟩ := by decide +kernel
  refine ⟨by decide +kernel, by decide +kernel, ⟨some f⟩, ⟨some g⟩, ?_, ?_, by decide, by decide,
    by decide⟩
  · rw [htext, hread, hnumbered.1]
  · rw [hrepair, hagain, hnumbered.2]

end ScenarioLint.Scenario
