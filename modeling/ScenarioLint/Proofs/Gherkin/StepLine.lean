import Mathlib.Data.List.Flatten
import ScenarioLint.Proofs.Gherkin.Completeness
import ScenarioLint.Proofs.Gherkin.Coverage
import ScenarioLint.Proofs.Gherkin.StepPlace

/-!
Which lines of an accepted file stand for a step.  Outside docstrings every line that starts with the
word of a step does, but for one with nothing behind the word that a description takes: a description
is compared with the words of steps, each with its space, after the space is trimmed off.
-/

namespace ScenarioLint.Gherkin

/-- A line inside a docstring, or the one that closes it. -/
def Kind.isInner : Kind → Bool
  | content | closing => true
  | filler | description | lead _ => false

/-- The docstring is read off lines among which is the one with the index `k`.  The first of all
    lines has the number `n`. -/
def Docstring.Takes (d : Docstring) (n : Nat) (tokens : List Token) (k : Nat) : Prop :=
  ∃ front own back, tokens = front ++ (own ++ back) ∧ d.Derived (n + front.length) own ∧
    front.length ≤ k ∧ k < front.length + own.length

/-- Every line that is used inside a docstring belongs to one of these docstrings. -/
def InnerTaken (docs : List Docstring) (n : Nat) (tokens : List Token) : Prop :=
  ∀ k token, tokens[k]? = some token → token.1.isInner = true → ∃ d ∈ docs, d.Takes n tokens k

section Taken

variable {docs more : List Docstring} {d : Docstring} {n k : Nat} {tokens front back : List Token}

theorem Docstring.Takes.append_left (h : d.Takes (n + front.length) tokens k) :
    d.Takes n (front ++ tokens) (front.length + k) := by
  obtain ⟨inner, own, back, rfl, hderived, hle, hlt⟩ := h
  refine ⟨front ++ inner, own, back, by rw [List.append_assoc], ?_, ?_, ?_⟩
  · rwa [List.length_append, ← Nat.add_assoc]
  · rw [List.length_append]
    exact Nat.add_le_add_left hle _
  · rw [List.length_append, Nat.add_assoc]
    exact Nat.add_lt_add_left hlt _

theorem Docstring.Takes.append_right (h : d.Takes n tokens k) (back : List Token) :
    d.Takes n (tokens ++ back) k := by
  obtain ⟨inner, own, after, rfl, hderived⟩ := h
  exact ⟨inner, own, after ++ back, by simp, hderived⟩

theorem innerTaken_append (hfront : InnerTaken docs n front)
    (hback : InnerTaken more (n + front.length) back) :
    InnerTaken (docs ++ more) n (front ++ back) := by
  intro k token htoken hinner
  by_cases hk : k < front.length
  · rw [List.getElem?_append_left hk] at htoken
    obtain ⟨d, hd, htakes⟩ := hfront k token htoken hinner
    exact ⟨d, List.mem_append_left _ hd, htakes.append_right back⟩
  · obtain ⟨j, rfl⟩ := Nat.exists_eq_add_of_le (Nat.le_of_not_lt hk)
    rw [List.getElem?_append_right (Nat.le_add_right _ _), Nat.add_sub_cancel_left] at htoken
    obtain ⟨d, hd, htakes⟩ := hback j token htoken hinner
    exact ⟨d, List.mem_append_right _ hd, htakes.append_left⟩

theorem innerTaken_of_plain (h : ∀ token ∈ tokens, token.1.isInner = false) (n : Nat) :
    InnerTaken [] n tokens := by
  intro k token htoken hinner
  rw [h token (List.mem_of_getElem? htoken)] at hinner
  cases hinner

/-- Lines that are used in no docstring, in front of others. -/
theorem InnerTaken.behind (h : InnerTaken docs (n + front.length) tokens)
    (hfront : ∀ token ∈ front, token.1.isInner = false) : InnerTaken docs n (front ++ tokens) :=
  innerTaken_append (innerTaken_of_plain hfront n) h

theorem isInner_of_derived {lead : Lead} {text : Text} {token : Token}
    (h : lead.Derived text token) : token.1.isInner = false := by
  obtain ⟨_, _, _, _, _, rfl⟩ := h
  rfl

theorem isInner_of_fillers (h : Fillers tokens) : ∀ token ∈ tokens, token.1.isInner = false :=
  fun token htoken => by rw [(h token htoken).1]; rfl

theorem isInner_of_tags {words : List Text} (h : TagsDerived tokens words) :
    ∀ token ∈ tokens, token.1.isInner = false := by
  induction h with
  | nil => simp
  | cons _ hfillers _ ih =>
    exact List.forall_mem_cons.mpr ⟨rfl, List.forall_mem_append.mpr
      ⟨isInner_of_fillers hfillers, ih⟩⟩

theorem isInner_of_description {texts : List Text} (h : DescriptionDerived tokens texts) :
    ∀ token ∈ tokens, token.1.isInner = false := by
  induction h with
  | nil => simp
  | filler _ _ ih => exact List.forall_mem_cons.mpr ⟨rfl, ih⟩
  | text _ _ ih => exact List.forall_mem_cons.mpr ⟨rfl, ih⟩

theorem isInner_of_rows {rows : List Row} (h : Series Row.Derived n tokens rows) :
    ∀ token ∈ tokens, token.1.isInner = false := by
  induction h with
  | nil => simp
  | cons hrow _ ih =>
    obtain ⟨_, _, _, _, _, _, _, rfl⟩ := hrow
    exact List.forall_mem_append.mpr ⟨List.forall_mem_singleton.mpr rfl, ih⟩

/-- A header with what stands between it and its blocks. -/
theorem isInner_of_headed {tags description : List Token} {words texts : List Text} {lead : Lead}
    {text : Text} {token : Token} (htags : TagsDerived tags words) (htoken : lead.Derived text token)
    (hdescription : DescriptionDerived description texts) :
    ∀ other ∈ tags ++ token :: description, other.1.isInner = false :=
  List.forall_mem_append.mpr ⟨isInner_of_tags htags, List.forall_mem_cons.mpr
    ⟨isInner_of_derived htoken, isInner_of_description hdescription⟩⟩

variable {α : Type} {Derived : Nat → List Token → α → Prop} {nodes : List α}

theorem innerTaken_of_blocks {docstrings : α → List Docstring}
    (hseries : Series (BehindFillers Derived) n tokens nodes)
    (h : ∀ {n tokens a}, Derived n tokens a → InnerTaken (docstrings a) n tokens) :
    InnerTaken (nodes.flatMap docstrings) n tokens := by
  induction hseries with
  | nil => exact innerTaken_of_plain (by simp) _
  | cons hnode _ ih =>
    obtain ⟨fillers, rest, hfillers, hrest, rfl⟩ := hnode
    rw [List.flatMap_cons]
    exact innerTaken_append ((h hrest).behind (isInner_of_fillers hfillers)) ih

theorem innerTaken_of_argument {a : Argument} (h : a.Derived n tokens) :
    InnerTaken a.docstrings n tokens := by
  cases a with
  | docstring d =>
    intro k token htoken _
    obtain ⟨hlt, _⟩ := List.getElem?_eq_some_iff.mp htoken
    exact ⟨d, List.mem_singleton_self d, [], tokens, [], by simp, h, Nat.zero_le k, by simpa using hlt⟩
  | table rows => exact innerTaken_of_plain (isInner_of_rows h.2) n

theorem innerTaken_of_step {s : Step} (h : s.Derived n tokens) :
    InnerTaken s.docstrings n tokens := by
  obtain ⟨token, under, htoken, _, hunder, rfl⟩ := h
  have hdocs : s.docstrings = s.argument.toList.flatMap Argument.docstrings := by
    rw [Step.docstrings_eq]
    cases s.argument <;> simp
  rw [hdocs]
  have htaken : InnerTaken (s.argument.toList.flatMap Argument.docstrings) (n + [token].length) under :=
    innerTaken_of_blocks hunder innerTaken_of_argument
  exact htaken.behind (List.forall_mem_singleton.mpr (isInner_of_derived htoken))

theorem isInner_of_examples {e : Examples} (h : e.Derived n tokens) :
    ∀ token ∈ tokens, token.1.isInner = false := by
  obtain ⟨tags, token, description, _, table, htags, htoken, _, hdescription, htable, rfl⟩ := h
  have hheaded := isInner_of_headed htags htoken hdescription
  rw [List.append_cons, ← List.append_assoc, List.append_assoc tags, List.singleton_append]
  exact List.forall_mem_append.mpr ⟨hheaded, isInner_of_rows htable.2⟩

theorem innerTaken_of_scenario {c : Scenario} (h : c.Derived n tokens) :
    InnerTaken (c.steps.flatMap Step.docstrings) n tokens := by
  obtain ⟨tags, token, description, _, steps, examples, htags, htoken, _, hdescription, _, hsteps,
    hexamples, rfl⟩ := h
  have hnone : InnerTaken (c.examples.flatMap fun _ => []) _ examples :=
    innerTaken_of_blocks hexamples fun he => innerTaken_of_plain (isInner_of_examples he) _
  have hunder := innerTaken_append (innerTaken_of_blocks hsteps innerTaken_of_step) hnone
  have hlength := add_length_headed n tags token description
  have hdocs : c.steps.flatMap Step.docstrings ++ c.examples.flatMap (fun _ => []) =
      c.steps.flatMap Step.docstrings := by
    simp
  rw [hlength, hdocs] at hunder
  simpa using hunder.behind (isInner_of_headed htags htoken hdescription)

theorem innerTaken_of_background {b : Background} (h : b.Derived n tokens) :
    InnerTaken (b.steps.flatMap Step.docstrings) n tokens := by
  obtain ⟨token, description, _, steps, htoken, _, hdescription, _, hsteps, rfl⟩ := h
  have hunder := innerTaken_of_blocks hsteps innerTaken_of_step
  have hlength : n + 1 + description.length = n + (token :: description).length :=
    add_length_headed n [] token description
  rw [hlength] at hunder
  exact hunder.behind (isInner_of_headed .nil htoken hdescription)

theorem innerTaken_of_feature {f : Feature} (h : f.Derived n tokens) :
    InnerTaken (f.steps.flatMap Step.docstrings) n tokens := by
  obtain ⟨tags, token, description, background, scenarios, htags, htoken, _, hdescription, _,
    hbackground, hscenarios, rfl⟩ := h
  have hunder := innerTaken_append (innerTaken_of_blocks hbackground innerTaken_of_background)
    (innerTaken_of_blocks hscenarios innerTaken_of_scenario)
  have hlength := add_length_headed n tags token description
  have hdocs : f.steps.flatMap Step.docstrings =
      f.background.toList.flatMap (fun b => b.steps.flatMap Step.docstrings) ++
        f.scenarios.flatMap fun c => c.steps.flatMap Step.docstrings := by
    rw [Feature.steps, List.flatMap_append, List.flatMap_assoc]
    cases f.background <;> simp
  rw [hlength] at hunder
  rw [hdocs]
  simpa using hunder.behind (isInner_of_headed htags htoken hdescription)

/-- A line that is used inside a docstring belongs to a docstring of the document. -/
theorem Document.Derived.innerTaken {doc : Document} (h : doc.Derived tokens) :
    InnerTaken doc.docstrings 1 tokens := by
  obtain ⟨body, trailing, hbody, htrailing, rfl⟩ := h
  have hdocs : doc.docstrings =
      doc.feature.toList.flatMap (fun f => f.steps.flatMap Step.docstrings) ++ [] := by
    rw [Document.docstrings]
    cases doc.feature <;> simp
  rw [hdocs]
  exact innerTaken_append (innerTaken_of_blocks hbody innerTaken_of_feature)
    (innerTaken_of_plain (isInner_of_fillers htrailing) _)

/-- The reader of docstrings takes the lines of a docstring for parts of it. -/
theorem Docstring.Takes.covers (h : d.Takes 1 tokens k) :
    d.Covers (tokens.map (some ·.2)) (k + 1) := by
  obtain ⟨front, own, back, rfl, hderived, hle, hlt⟩ := h
  have hline : d.line = front.length + 1 := by
    obtain ⟨_, _, _, _, _, _, _, _, _, _, _, _, rfl, _⟩ := hderived
    exact Nat.add_comm 1 _
  have hdrop : ((front ++ (own ++ back)).map (some ·.2)).drop front.length =
      own.map (some ·.2) ++ back.map (some ·.2) := by
    rw [List.map_append, List.drop_left' (List.length_map _), List.map_append]
  have hspans : (Place.mk (front.length + 1) (own.map (some ·.2) ++ back.map (some ·.2))).Spans own
      ⟨front.length + 1 + own.length, back.map (some ·.2)⟩ :=
    ⟨rfl, rfl⟩
  refine ⟨⟨front.length + 1 + own.length, back.map (some ·.2)⟩, ?_, by omega, by dsimp only; omega⟩
  rw [Docstring.ReadsTo, hline, Nat.add_sub_cancel, hdrop]
  exact Place.docstring_eq_done_iff.mpr ⟨own, hspans, Nat.add_comm 1 front.length ▸ hderived⟩

end Taken

/-- A line with the lead opens a part of the document, and a description may stand under it. -/
def Lead.isHeader : Lead → Bool
  | feature | background | scenario _ | examples => true
  | tag | step _ | quotes | backticks | bar => false

/-- A line that a description under a header may go on with. -/
def Line.goesOn (line : Line) : Bool :=
  line.isIgnorable || line.description?.isSome

def Line.isHeader (line : Line) : Bool :=
  line.lead?.any fun (lead, _) => lead.isHeader

/-- A description may stand under these lines: they end with a header and lines that a description
    goes on with. -/
def admitDescription (above : List Line) : Bool :=
  (above.reverse.dropWhile Line.goesOn).head?.any Line.isHeader

section Admit

variable {above : List Line} {line : Line} {t : Text} {tokens : List Token} {m n : Mode}

theorem admitDescription_concat (above : List Line) (line : Line) :
    admitDescription (above ++ [line]) =
      if line.goesOn then admitDescription above else line.isHeader := by
  rw [admitDescription, List.reverse_concat, List.dropWhile_cons]
  split
  · rfl
  · rfl

theorem isHeader_of_opens {own : Lead} {ind more : Text} (h : own.Opens ind more t) :
    Line.isHeader (some t) = own.isHeader := by
  rw [Line.isHeader, h.lead?_eq]
  rfl

theorem mode_eq_described_iff {own : Lead} : own.mode = .described ↔ own.isHeader = true := by
  cases own <;> simp [Lead.mode, Lead.isHeader]

theorem goesOn_of_opens_iff {own : Lead} {ind more : Text} (h : own.Opens ind more t) :
    Line.goesOn (some t) = true ↔ IsDescriptionLine t := by
  have hfiller : Line.isIgnorable (some t) = false := by
    rw [← Bool.not_eq_true, ← isFiller_iff]
    exact Place.not_isFiller_of_opens h
  rw [Line.goesOn, hfiller, Bool.false_or, Option.isSome_iff_exists]
  constructor
  · rintro ⟨text, htext⟩
    exact (description?_eq_some_iff.mp htext).1
  · exact fun hline => ⟨_, isDescriptionLine_iff.mp hline⟩

/-- The line that closes a docstring is neither a header nor part of a description. -/
theorem not_admit_of_closing (h : t.trim ∈ Line.docstringMarks) :
    Line.goesOn (some t) = false ∧ Line.isHeader (some t) = false := by
  have hmarks : ∀ mark ∈ Line.docstringMarks, mark ≠ [] ∧ ¬ ['#'] <+: mark ∧
      mark ∈ Line.structural ∧ ∀ lead ∈ Lead.all, lead.isHeader = true → ¬ lead.text <+: mark := by
    decide
  obtain ⟨hne, hcomment, hstructural, hheaders⟩ := hmarks _ h
  have hfiller : Line.isIgnorable (some t) = false := by
    rw [← Bool.not_eq_true, ← isFiller_iff]
    rintro ⟨ind, more, hind, rfl, hmore⟩
    rw [Text.trim_append_left (isBlank_of_isIndentation hind)] at hne hcomment
    rcases hmore with rfl | hmore
    · exact hne rfl
    · obtain ⟨rest, rfl⟩ := List.head?_eq_some_iff.mp hmore
      have hhead : ∀ c, ('#' :: rest).head? = some c → isSpace c = false := by
        rintro _ ⟨⟩
        rfl
      rw [Text.trim, Text.trimStart_of_head hhead] at hcomment
      have hstarts : ['#'] <+: Text.trimEnd (['#'] ++ rest) := prefix_trimEnd_append (by decide) rest
      exact hcomment hstarts
  have hdescription : Line.description? (some t) = none := by
    rw [Option.eq_none_iff_forall_ne_some]
    intro text htext
    exact (description?_eq_some_iff.mp htext).1.2 _ hstructural (List.prefix_refl _)
  refine ⟨by rw [Line.goesOn, hfiller, hdescription]; rfl, ?_⟩
  rw [← Bool.not_eq_true, Line.isHeader, Option.any_eq_true]
  rintro ⟨⟨lead, more⟩, hlead, hheader⟩
  have hlast : ∀ lead ∈ Lead.all, lead.isHeader = true →
      ∀ c ∈ lead.text.getLast?, isSpace c = false := by
    decide
  refine hheaders lead lead.mem_all hheader ?_
  rw [Text.trim, Line.trimStart_of_lead? hlead]
  exact prefix_trimEnd_append (hlast lead lead.mem_all hheader) more

/-- Outside docstrings, a description may stand under lines just if their last mode says so. -/
theorem admitDescription_of_passes (h : Mode.plain.Passes tokens m) (hfits : AllFit tokens) :
    (m = .described → admitDescription (tokens.map (some ·.2)) = true) ∧
      (m = .plain → admitDescription (tokens.map (some ·.2)) = false) := by
  induction tokens using List.reverseRecOn generalizing m with
  | nil =>
    cases h
    exact ⟨nofun, fun _ => rfl⟩
  | append_singleton tokens token ih =>
    obtain ⟨kind, line⟩ := token
    obtain ⟨k, hfront, hlast⟩ := Mode.passes_append_iff.mp h
    obtain ⟨n, hnext, hnil⟩ := Mode.passes_cons_iff.mp hlast
    cases hnil
    obtain ⟨hfitsFront, hfit⟩ := allFit_append_iff.mp hfits
    obtain ⟨hdescribed, hplain⟩ := ih hfront hfitsFront
    rw [List.map_append, List.map_singleton, admitDescription_concat]
    cases hnext with
    | filler hm hline =>
      rw [if_pos (by rw [Line.goesOn, isFiller_iff.mp hline, Bool.true_or])]
      exact ⟨hdescribed, hplain⟩
    | description hline =>
      have hgoes : Line.goesOn (some line) = true := by
        rw [Line.goesOn, isDescriptionLine_iff.mp hline, Option.isSome_some, Bool.or_true]
      rw [if_pos hgoes]
      exact ⟨hdescribed, hplain⟩
    | @lead _ own _ _ _ hm hopens hnot =>
      by_cases hline : IsDescriptionLine line
      · -- only the word of a step with nothing behind it reads as a description as well
        have hstep : ∃ word, own = .step word := by
          by_contra hother
          exact Mode.not_isDescriptionLine_of_opens hopens (not_exists.mp hother) hline
        obtain ⟨word, rfl⟩ := hstep
        have hk : k = .plain := by
          cases k with
          | plain => rfl
          | described => exact absurd hline (hnot rfl)
          | inside _ => cases hm
        rw [if_pos ((goesOn_of_opens_iff hopens).mpr hline)]
        exact ⟨nofun, fun _ => hplain hk⟩
      · rw [if_neg (mt (goesOn_of_opens_iff hopens).mp hline), isHeader_of_opens hopens]
        refine ⟨fun hmode => mode_eq_described_iff.mp hmode, fun hmode => ?_⟩
        rw [← Bool.not_eq_true, ← mode_eq_described_iff, hmode]
        exact nofun
    | content hline => exact ⟨nofun, nofun⟩
    | closing hline =>
      have hclosing := not_admit_of_closing (hfit _ (List.mem_singleton_self _))
      rw [hclosing.1, hclosing.2]
      exact ⟨nofun, fun _ => rfl⟩

end Admit

section StepLine

variable {tokens : List Token} {doc : Document} {i : Nat} {ind more line : Text} {word : StepWord}
  {kind : Kind}

theorem sublist_marks_of_steps (ss : List Step) :
    (ss.map Step.line).Sublist ((ss.flatMap Step.marks).map Prod.fst) := by
  rw [List.map_flatMap, ← List.flatMap_singleton' (ss.map Step.line), List.flatMap_map]
  exact List.Sublist.flatMap_right ss fun s _ => List.cons_sublist_cons.mpr (List.nil_sublist _)

theorem sublist_marks_of_scenario (c : Scenario) :
    (c.steps.map Step.line).Sublist (c.marks.map Prod.fst) := by
  rw [Scenario.marks, List.map_cons, List.map_append]
  exact ((sublist_marks_of_steps c.steps).trans (List.sublist_append_left _ _)).cons _

theorem sublist_marks_of_background (b : Background) :
    (b.steps.map Step.line).Sublist (b.marks.map Prod.fst) :=
  (sublist_marks_of_steps b.steps).cons _

theorem sublist_marks_of_feature (f : Feature) :
    (f.steps.map Step.line).Sublist (f.marks.map Prod.fst) := by
  rw [Feature.marks, List.map_cons, List.map_append, Feature.steps, List.map_append]
  refine (List.Sublist.append ?_ ?_).cons _
  · cases f.background with
    | none => exact List.nil_sublist _
    | some b => simpa using sublist_marks_of_background b
  · rw [List.map_flatMap, List.map_flatMap]
    exact List.Sublist.flatMap_right _ fun c _ => sublist_marks_of_scenario c

/-- The numbers of the lines of the steps strictly increase. -/
theorem Document.Derived.pairwise_steps (h : doc.Derived tokens) :
    (doc.steps.map Step.line).Pairwise (· < ·) := by
  have hsublist : (doc.steps.map Step.line).Sublist (doc.marks.map Prod.fst) := by
    rw [Document.steps, Document.marks]
    cases doc.feature with
    | none => exact List.nil_sublist _
    | some f => simpa using sublist_marks_of_feature f
  refine List.Pairwise.sublist hsublist ?_
  rw [h.marks_eq]
  exact pairwise_marksFrom 1 tokens

/-- A step is the only one on its line. -/
theorem Document.Derived.filter_line_eq (h : doc.Derived tokens) {s : Step} (hs : s ∈ doc.steps) :
    doc.steps.filter (fun t => t.line = s.line) = [s] := by
  obtain ⟨front, back, hsplit⟩ := List.append_of_mem hs
  have hpairwise := h.pairwise_steps
  rw [hsplit, List.map_append, List.map_cons, List.pairwise_append, List.pairwise_cons] at hpairwise
  obtain ⟨_, ⟨hback, _⟩, hfront⟩ := hpairwise
  have hbefore : front.filter (fun t => t.line = s.line) = [] := by
    refine List.filter_eq_nil_iff.mpr fun t ht => ?_
    have hlt := hfront _ (List.mem_map_of_mem ht) _ List.mem_cons_self
    simpa using Nat.ne_of_lt hlt
  have hbehind : back.filter (fun t => t.line = s.line) = [] := by
    refine List.filter_eq_nil_iff.mpr fun t ht => ?_
    have hlt := hback _ (List.mem_map_of_mem ht)
    simpa using Nat.ne_of_gt hlt
  rw [hsplit, List.filter_append, List.filter_cons_of_pos (by simp), hbefore, hbehind,
    List.nil_append]

/-- No step stands on a line that is used otherwise. -/
theorem Document.Derived.filter_line_eq_nil (h : doc.Derived tokens)
    (hline : tokens[i]? = some (kind, line)) (hkind : ∀ word, kind ≠ .lead (.step word)) :
    doc.steps.filter (fun t => t.line = i + 1) = [] := by
  refine List.filter_eq_nil_iff.mpr fun t ht => ?_
  obtain ⟨j, other, hnumber, htoken, _⟩ := h.exists_standsAt ht
  rw [decide_eq_true_eq]
  intro hsame
  obtain rfl : j = i := by omega
  rw [hline] at htoken
  cases htoken
  exact hkind _ rfl

/-- The word of a step is a description of its own if nothing stands behind it, and never
    otherwise. -/
theorem isDescriptionLine_iff_of_step (h : (Lead.step word).Opens ind more line) :
    IsDescriptionLine line ↔ more.isBlank = true := by
  have hwords : ∀ word ∈ StepWord.all, word.word ≠ [] ∧ word.word.trim = word.word ∧
      ∀ start ∈ Line.structural, ¬ start <+: word.word := by
    decide
  have hmem : word ∈ StepWord.all := by
    cases word <;> decide
  obtain ⟨hne, hplain, hstructural⟩ := hwords word hmem
  obtain ⟨hind, rfl⟩ := h
  have hsplit : (Lead.step word).text ++ more = word.word ++ (' ' :: more) :=
    List.append_assoc word.word [' '] more
  rw [IsDescriptionLine, Text.trim_append_left (isBlank_of_isIndentation hind)]
  constructor
  · rintro ⟨_, hnone⟩
    by_contra hvisible
    have hmore : more.trimEnd ≠ [] := by
      intro hnil
      obtain ⟨ws, hws, hblank⟩ := Text.exists_trimEnd_append more
      rw [hnil, List.nil_append] at hws
      exact hvisible (hws ▸ hblank)
    have hhead : ∀ c, ((Lead.step word).text ++ more).head? = some c → isSpace c = false :=
      fun c hc => (Leads.head?_text_append _ more c hc).2
    refine hnone _ (Lead.step word).mem_structural ?_
    rw [Text.trim, Text.trimStart_of_head hhead, Text.trimEnd_append_of_not_isBlank _ hmore]
    exact List.prefix_append _ _
  · intro hblank
    have hback : Text.isBlank (' ' :: more) = true := by
      rw [Text.isBlank, List.all_cons, ← Text.isBlank, hblank]
      rfl
    have htrim : Text.trim ([] ++ (word.word ++ ' ' :: more)) = word.word :=
      Text.trim_append rfl hplain hback
    rw [List.nil_append, ← hsplit] at htrim
    rw [htrim]
    exact ⟨hne, hstructural⟩

/-- The step that stands on a line has the text of the line. -/
theorem Step.StandsAt.text_eq {s : Step} (h : s.StandsAt tokens i)
    (hline : tokens[i]? = some (kind, line)) (hopens : (Lead.step word).Opens ind more line) :
    s.text = more.trim := by
  obtain ⟨own, back, hdrop, ⟨token, under, htoken, _, _, rfl⟩, _⟩ := h
  have hhead := congrArg List.head? hdrop
  rw [List.head?_drop, hline, List.cons_append, List.head?_cons, Option.some.injEq] at hhead
  obtain ⟨_, other, hlead, htext⟩ := Lead.derived_iff.mp htoken
  rw [← hhead, hopens.lead?_eq] at hlead
  cases hlead
  exact htext

/-- A line with the word of a step that is part of no docstring is a step, unless nothing stands
    behind the word where a description may stand. -/
theorem Document.Derived.kind_of_step (h : doc.Derived tokens)
    (hline : tokens[i]? = some (kind, line)) (hopens : (Lead.step word).Opens ind more line)
    (hinner : kind.isInner = false) :
    kind = if more.isBlank ∧ admitDescription ((tokens.take i).map (some ·.2)) = true then
      .description else .lead (.step word) := by
  obtain ⟨m, _, hpasses⟩ := h.clears
  obtain ⟨hlt, hget⟩ := List.getElem?_eq_some_iff.mp hline
  rw [← List.take_append_drop i tokens, List.drop_eq_getElem_cons hlt, hget] at hpasses
  obtain ⟨k, hfront, hrest⟩ := Mode.passes_append_iff.mp hpasses
  obtain ⟨n, hnext, _⟩ := Mode.passes_cons_iff.mp hrest
  obtain ⟨hdescribed, hplain⟩ := admitDescription_of_passes hfront
    fun token htoken => h.allFit token (List.mem_of_mem_take htoken)
  have hblank := isDescriptionLine_iff_of_step hopens
  cases hnext with
  | filler _ hfiller => exact absurd hfiller (Place.not_isFiller_of_opens hopens)
  | description hdescription => rw [if_pos ⟨hblank.mp hdescription, hdescribed rfl⟩]
  | lead hm hother hnot =>
    have hlead := hopens.lead?_eq.symm.trans hother.lead?_eq
    injection hlead with hlead
    injection hlead with hlead
    rw [← hlead, if_neg]
    rintro ⟨hmore, hadmit⟩
    cases k with
    | plain =>
      rw [hplain rfl] at hadmit
      cases hadmit
    | described => exact hnot rfl (hblank.mpr hmore)
    | inside _ => cases hm
  | content | closing => cases hinner

end StepLine

/-- In a text that can be read, a line that starts with the word of a step behind spaces and tabs and
    is part of no docstring is exactly one step of the document, with that word and the rest of the
    line as its text.  There is one exception, and there is no step then: nothing but white space
    stands behind the word, and between the line and the header above it stand nothing but lines of a
    description and lines that do not count. -/
theorem filter_steps_of_parse {text : Text} {doc : Document} {i : Nat} {ind more : Text}
    {word : StepWord} (hparse : parse text = .ok doc) (hind : IsIndentation ind)
    (hline : (Line.all text)[i]? = some (some (ind ++ (word.word ++ ' ' :: more))))
    (houtside : ∀ d ∈ doc.docstrings, ¬ d.Covers (Line.all text) (i + 1)) :
    if more.isBlank ∧ admitDescription ((Line.all text).take i) = true then
      doc.steps.filter (fun s => s.line = i + 1) = []
    else
      ∃ s, doc.steps.filter (fun s => s.line = i + 1) = [s] ∧ s.word = word ∧
        s.text = more.trim := by
  obtain ⟨tokens, hlines, hderived⟩ := parse_eq_ok_iff.mp hparse
  have hopens : (Lead.step word).Opens ind more (ind ++ (word.word ++ ' ' :: more)) :=
    ⟨hind, congrArg (ind ++ ·) (List.append_assoc word.word [' '] more).symm⟩
  rw [hlines, List.getElem?_map, Option.map_eq_some_iff] at hline
  obtain ⟨⟨kind, line⟩, htoken, hsnd⟩ := hline
  obtain rfl := Option.some.inj hsnd
  have hinner : kind.isInner = false := by
    rw [← Bool.not_eq_true]
    intro hinner
    obtain ⟨d, hd, htakes⟩ := hderived.innerTaken i _ htoken hinner
    exact houtside d hd (hlines ▸ htakes.covers)
  have hkind := hderived.kind_of_step htoken hopens hinner
  rw [hlines, ← List.map_take]
  split
  · rename_i hlost
    rw [if_pos hlost] at hkind
    subst hkind
    exact hderived.filter_line_eq_nil htoken nofun
  · rename_i hkept
    rw [if_neg hkept] at hkind
    subst hkind
    obtain ⟨s, hs, hnumber, hword, hstands⟩ := hderived.exists_step htoken
    exact ⟨s, hnumber ▸ hderived.filter_line_eq hs, hword, hstands.text_eq htoken hopens⟩

/-- Behind a docstring with the word of a step in it, a step without a text is a step. -/
theorem filter_steps_of_parse_docstring :
    let text : Text :=
      "Feature: F\nScenario: s\nGiven x\n\"\"\"\nWhen y\n\"\"\"\n\tAnd \nThen z\n".toList
    ∃ doc, parse text = .ok doc ∧ (Line.all text)[6]? = some (some "\tAnd ".toList) ∧
      (∀ d ∈ doc.docstrings, ¬ d.Covers (Line.all text) 7) ∧
      ∃ s, doc.steps.filter (fun s => s.line = 7) = [s] ∧ s.word = .and ∧ s.text = [] := by
  intro text
  have hwalk : walk 1 (.between .top) (Line.all text) = some [⟨none, "When y".toList, 4⟩] := by
    decide +kernel
  obtain ⟨doc, hparse, hdocs⟩ := exists_parse_of_walk hwalk
  have hread : Docstring.ReadsTo (Line.all text) ⟨none, "When y".toList, 4⟩
      ⟨7, (Line.all text).drop 6⟩ :=
    rfl
  have houtside : ∀ d ∈ doc.docstrings, ¬ d.Covers (Line.all text) 7 := by
    intro d hd
    rw [hdocs, List.mem_singleton] at hd
    rw [hd, Docstring.covers_iff hread]
    decide
  have hind : IsIndentation ['\t'] := by decide
  have hline : (Line.all text)[6]? = some (some (['\t'] ++ (StepWord.and.word ++ ' ' :: []))) := by
    decide +kernel
  have hstep := filter_steps_of_parse hparse hind hline houtside
  rw [if_neg (by decide +kernel)] at hstep
  exact ⟨doc, hparse, by decide +kernel, houtside, hstep⟩

/-- The lines of a scenario of which the first step has no text. -/
def emptyStepLines : List Text :=
  ["Feature: F", "Scenario: s", "Given ", "Then x"].map String.toList

/-- What is read off them: the word of the first step counts as a description. -/
def emptyStepDocument : Document :=
  ⟨some ⟨[], "F".toList, [], 1, none,
    [⟨[], .scenario, "s".toList, 2, [⟨.then, "x".toList, 4, none⟩], []⟩]⟩⟩

private theorem emptyStep_written : emptyStepDocument.Written emptyStepLines := by
  have hstep : Step.Written 4 (emptyStepLines.drop 3) ⟨.then, "x".toList, 4, none⟩ :=
    ⟨[], _, _, ⟨[], [], by decide, rfl, rfl, rfl⟩, rfl, rfl, rfl⟩
  have hdescription : DescriptionWritten ["Given ".toList] ["Given".toList] :=
    @DescriptionWritten.text [] "Given".toList [' '] _ _ rfl (by decide) rfl .nil
  have hscenario : Scenario.Written 2 (emptyStepLines.drop 1) ⟨[], .scenario, "s".toList, 2, [_], []⟩ :=
    ⟨[], [], _, _, _, _, [], .nil, ⟨[' '], [], by decide, rfl, rfl, rfl⟩, rfl, hdescription,
      .singleton hstep, .nil, rfl⟩
  have hfeature : Feature.Written 1 emptyStepLines ⟨[], "F".toList, [], 1, none, [_]⟩ :=
    ⟨[], [], _, [], [], _, .nil, ⟨[' '], [], by decide, rfl, rfl, rfl⟩, rfl, .nil, .nil,
      .singleton hscenario, rfl⟩
  exact ⟨by decide, _, [], .singleton hfeature, by simp, rfl⟩

/-- The document has no step on the third line, although the line starts with the word of a step and
    there is no docstring. -/
theorem steps_ne_of_empty_step :
    parse (Text.unlines emptyStepLines) = .ok emptyStepDocument ∧
      (Line.all (Text.unlines emptyStepLines))[2]? = some (some (StepWord.given.word ++ [' '])) ∧
      emptyStepDocument.docstrings = [] ∧ ∀ s ∈ emptyStepDocument.steps, s.line ≠ 3 := by
  refine ⟨parse_unlines_of_recoverable ?_ emptyStep_written, by decide +kernel, rfl, by decide⟩
  rintro f ⟨⟩
  exact ⟨by decide, by decide⟩

end ScenarioLint.Gherkin
