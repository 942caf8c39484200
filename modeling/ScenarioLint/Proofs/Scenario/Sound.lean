import ScenarioLint.Proofs.Gherkin.Insertion
import ScenarioLint.Proofs.Scenario.Preservation

/-!
Sound lines: those in which the search for keywords and docstrings sees what the reader of feature
files sees.  Lines that can be read there may get more lines put in between.
-/

namespace ScenarioLint.Gherkin

namespace Lead

/-- The keyword that a line with the lead leads with. -/
def keyword? : Lead → Option Keyword
  | feature => some .feature
  | background => some .background
  | scenario .outline | scenario .scenario => some .scenario
  | step .given => some .given
  | step .when => some .when
  | step .then => some .then
  | step .and => some .and
  | _ => none

/-- Of a lead and a word that starts a line with it, one starts the other. -/
theorem prefix_or_prefix_of_split {ind rest u tail : Text} {lead : Lead}
    (hind : IsIndentation ind) (h : (ind ++ (lead.text ++ rest)).trimStart = u ++ tail) :
    u <+: lead.text ∨ lead.text <+: u := by
  rw [trimStart_of_split hind] at h
  exact List.prefix_or_prefix_of_prefix (h ▸ List.prefix_append u tail)
    (List.prefix_append lead.text rest)

theorem keyword?_of_leading? {ind rest : Text} {lead : Lead} {keyword : Keyword}
    (hind : IsIndentation ind)
    (h : Keyword.leading? (ind ++ (lead.text ++ rest)) = some keyword) :
    lead.keyword? = some keyword := by
  obtain ⟨u, tail, hline, hword, _⟩ := Keyword.leading?_eq_some_iff.mp h
  have hlower : u.toLower = keyword.word.toLower := beq_iff_eq.mp hword
  have hall : ∀ lead ∈ all, ∀ k ∈ Keyword.all, k.word.toLower <+: lead.text.toLower ∨
      lead.text.toLower <+: k.word.toLower → lead.keyword? = some k := by decide
  refine hall lead lead.mem_all keyword (by cases keyword <;> decide) ?_
  rw [← hlower]
  exact (prefix_or_prefix_of_split hind hline).imp (fun hstarts => hstarts.map _)
    fun hstarts => hstarts.map _

theorem leading?_feature {ind : Text} (hind : IsIndentation ind) (rest : Text) :
    Keyword.leading? (ind ++ (feature.text ++ rest)) = some .feature := by
  have hsplit : feature.text ++ rest = Keyword.feature.word ++ (':' :: rest) := rfl
  rw [hsplit]
  exact Keyword.leading?_of_alike (isBlank_of_isIndentation hind) (by decide) rfl

/-- The lead of a line that leads with the keyword of a step is that of a step. -/
theorem eq_step_of_keyword? {lead : Lead} {keyword : Keyword} (h : lead.keyword? = some keyword)
    (hkeyword : keyword.isHeader = false) : ∃ word, lead = .step word := by
  cases lead with
  | step word => exact ⟨word, rfl⟩
  | scenario word => cases word <;> cases h <;> cases hkeyword
  | _ => cases h <;> cases hkeyword

/-- A line that starts like a step of the setup has the lead of a step, if any. -/
theorem isStep_of_afterSetup? {ind rest : Text} {lead : Lead} (hind : IsIndentation ind)
    (h : (Scenario.afterSetup? (ind ++ (lead.text ++ rest))).isSome = true) :
    ∃ word, lead = .step word := by
  have hwords : Scenario.Distinguished ["Given".toList, "When".toList, "And".toList, ['*']] := by
    decide
  obtain ⟨t, ht⟩ := Option.isSome_iff_exists.mp h
  simp only [Scenario.afterSetup?, bind, Option.bind_eq_some_iff,
    Scenario.afterOneOf?_eq_some_iff hwords] at ht
  obtain ⟨tail, ⟨u, hline, spelled, hspelled, hword⟩, _⟩ := ht
  have hall : ∀ lead ∈ all, ∀ word ∈ ["Given".toList, "When".toList, "And".toList, ['*']],
      word.map foldCase <+: lead.text.map foldCase ∨ lead.text.map foldCase <+: word.map foldCase →
        ∃ word ∈ StepWord.all, lead = .step word := by decide
  obtain ⟨word, _, hlead⟩ := hall lead lead.mem_all spelled hspelled (by
    rw [← hword]
    exact (prefix_or_prefix_of_split hind hline).imp (fun hstarts => hstarts.map _)
      fun hstarts => hstarts.map _)
  exact ⟨word, hlead⟩

end Lead

end ScenarioLint.Gherkin

namespace ScenarioLint.Scenario

open Gherkin (Line Place Stage Within Lead IsIndentation IsStepLine)

/-- The reader and the search for keywords and docstrings see the same in lines that follow a place
    inside or outside a docstring: nothing but the mark closes a docstring, no description leads
    with a keyword, and no fence opens a docstring.  No line holds a line feed. -/
structure Regular (inside : Bool) (lines : List Text) : Prop where
  closing : ∀ pair ∈ (Role.scanFrom inside lines).zip lines, pair.1 = .closing →
    pair.2.trim = docstringMark
  free : ∀ line ∈ textLines inside lines, (Line.description? (Line.ofRaw line)).isSome = true →
    Keyword.leading? line = none
  fence : ∀ line ∈ textLines inside lines, isFence line = false
  feed : ∀ line ∈ lines, '\n' ∉ line

theorem hasMark_dropReturn (line : Text) : hasMark line.dropReturn = hasMark line := by
  rw [← hasMark_trim, Text.trim_dropReturn, hasMark_trim]

section Regular

variable {inside : Bool} {lines front back rest : List Text} {line : Text}

theorem regular_append_iff : Regular inside (front ++ back) ↔
    Regular inside front ∧ Regular (Role.insideAfter inside front) back := by
  have hzip : (Role.scanFrom inside (front ++ back)).zip (front ++ back) =
      (Role.scanFrom inside front).zip front ++
        (Role.scanFrom (Role.insideAfter inside front) back).zip back := by
    rw [Role.scanFrom_append, List.zip_append (by simp)]
  constructor
  · rintro ⟨hclosing, hfree, hfence, hfeed⟩
    rw [hzip] at hclosing
    rw [textLines_append] at hfree hfence
    rw [List.forall_mem_append] at hclosing hfree hfence hfeed
    exact ⟨⟨hclosing.1, hfree.1, hfence.1, hfeed.1⟩, ⟨hclosing.2, hfree.2, hfence.2, hfeed.2⟩⟩
  · rintro ⟨hfront, hback⟩
    refine ⟨?_, ?_, ?_, ?_⟩
    · rw [hzip]
      exact List.forall_mem_append.mpr ⟨hfront.closing, hback.closing⟩
    · rw [textLines_append]
      exact List.forall_mem_append.mpr ⟨hfront.free, hback.free⟩
    · rw [textLines_append]
      exact List.forall_mem_append.mpr ⟨hfront.fence, hback.fence⟩
    · exact List.forall_mem_append.mpr ⟨hfront.feed, hback.feed⟩

theorem regular_singleton_iff : Regular inside [line] ↔
    (inside = true → hasMark line = true → line.trim = docstringMark) ∧
    (inside = false → hasMark line = false →
      ((Line.description? (Line.ofRaw line)).isSome = true → Keyword.leading? line = none) ∧
        isFence line = false) ∧ '\n' ∉ line := by
  constructor
  · rintro ⟨hclosing, hfree, hfence, hfeed⟩
    refine ⟨?_, ?_, hfeed line (List.mem_singleton_self _)⟩
    · rintro rfl hmark
      exact hclosing (Role.of true (hasMark line), line) (List.mem_singleton_self _) (by
        rw [hmark]
        rfl)
    · rintro rfl hmark
      exact ⟨hfree line (mem_textLines_singleton hmark),
        hfence line (mem_textLines_singleton hmark)⟩
  · rintro ⟨hclosing, hplain, hfeed⟩
    have htext : ∀ other ∈ textLines inside [line],
        other = line ∧ inside = false ∧ hasMark line = false := by
      intro other hother
      rw [textLines_cons, textLines_nil, List.append_nil] at hother
      split at hother
      · rename_i houtside
        exact ⟨List.mem_singleton.mp hother, houtside⟩
      · cases hother
    refine ⟨?_, ?_, ?_, ?_⟩
    · intro pair hpair hrole
      rw [List.mem_singleton.mp hpair] at hrole ⊢
      cases hinside : inside <;> cases hmark : hasMark line <;> rw [hinside, hmark] at hrole <;>
        first
          | exact hclosing hinside hmark
          | cases hrole
    · intro other hother
      obtain ⟨rfl, hinside, hmark⟩ := htext other hother
      exact (hplain hinside hmark).1
    · intro other hother
      obtain ⟨rfl, hinside, hmark⟩ := htext other hother
      exact (hplain hinside hmark).2
    · intro other hother
      rw [List.mem_singleton.mp hother]
      exact hfeed

/-- Scan and reader go through regular lines together. -/
theorem aligned_of_run {σ τ : Stage} (hσ : σ.Aligned inside) (h : Regular inside lines)
    (hrun : Stage.run (lines.map Line.ofRaw) σ = some τ) :
    τ.Aligned (Role.insideAfter inside lines) := by
  induction lines generalizing inside σ with
  | nil =>
    cases hrun
    exact hσ
  | cons line rest ih =>
    rw [List.map_cons, Stage.run_cons] at hrun
    obtain ⟨υ, hnext, hrest⟩ := Option.bind_eq_some_iff.mp hrun
    have hsplit : Regular inside ([line] ++ rest) := h
    obtain ⟨hfirst, hmore⟩ := regular_append_iff.mp hsplit
    obtain ⟨hclosing, hplain, _⟩ := regular_singleton_iff.mp hfirst
    rw [Stage.ofRaw_of_next hnext] at hnext
    have hmark := hasMark_dropReturn line
    have hfence : isFence line.dropReturn = isFence line := by
      rw [← isFence_trim, Text.trim_dropReturn, isFence_trim]
    have hυ := hσ.next (by rwa [hmark, Text.trim_dropReturn])
      (fun hinside hline => hfence ▸ (hplain hinside (hmark ▸ hline)).2) hnext
    rw [hmark] at hυ
    exact ih hυ hmore hrest

end Regular

/-- A line that does not count is blank or a comment. -/
theorem trimStart_of_isIgnorable {line : Text} (h : (Line.ofRaw line).isIgnorable = true) :
    line.trimStart = [] ∨ ∃ rest, line.trimStart = '#' :: rest := by
  cases hraw : Line.ofRaw line with
  | none =>
    rw [hraw] at h
    cases h
  | some t =>
    obtain ⟨ht, _⟩ := Line.ofRaw_eq_some_iff.mp hraw
    obtain ⟨tail, htail, hblank⟩ := Text.exists_dropReturn_append line
    have hindent : Text.isBlank (Line.indent t) = true :=
      Gherkin.isBlank_of_isIndentation fun _ => List.mem_takeWhile_imp
    have hsplit : t = Line.indent t ++ Line.body t := List.takeWhile_append_dropWhile.symm
    rw [hraw, Line.isIgnorable] at h
    rw [htail, ← ht, hsplit, List.append_assoc, Text.trimStart_append_of_isBlank hindent]
    cases hbody : Line.body t with
    | nil => exact .inl (trimStart_of_isBlank hblank)
    | cons c rest =>
      rw [hbody] at h
      obtain rfl : c = '#' := by simpa using h
      exact .inr ⟨rest ++ tail, rfl⟩

/-- A line that does not count leads with no keyword. -/
theorem leading?_of_isIgnorable {line : Text} (h : (Line.ofRaw line).isIgnorable = true) :
    Keyword.leading? line = none := by
  rw [Keyword.leading?, Keyword.detect]
  rcases trimStart_of_isIgnorable h with hline | ⟨rest, hline⟩ <;> rw [hline] <;> rfl

/-- A line that does not count is no step of the setup. -/
theorem afterSetup?_of_isIgnorable {line : Text} (h : (Line.ofRaw line).isIgnorable = true) :
    afterSetup? line = none := by
  rw [afterSetup?]
  rcases trimStart_of_isIgnorable h with hline | ⟨rest, hline⟩ <;> rw [hline] <;> rfl

/-- Regular lines that can be read. -/
structure Sound (lines : List Text) : Prop where
  reads : Stage.Reads (.between .top) lines
  regular : Regular false lines

/-- The reader stands in a stage in front of the line with the index, outside docstrings. -/
structure Stands (lines : List Text) (i : Nat) (σ : Stage) : Prop where
  le : i ≤ lines.length
  outside : Role.insideAfter false (lines.take i) = false
  run : Stage.run ((lines.take i).map Line.ofRaw) (.between .top) = some σ

section Stands

variable {lines block : List Text} {line : Text} {i j : Nat} {σ τ : Stage}

/-- Wherever the reader is in sound lines, it sees docstrings as the scan does. -/
theorem Sound.exists_run (h : Sound lines) (i : Nat) :
    ∃ σ, Stage.run ((lines.take i).map Line.ofRaw) (.between .top) = some σ ∧
      σ.Aligned (Role.insideAfter false (lines.take i)) ∧ σ.Reads (lines.drop i) := by
  obtain ⟨hreads, hregular⟩ := h
  rw [← List.take_append_drop i lines] at hreads hregular
  obtain ⟨σ, hrun, hrest⟩ := Stage.reads_append_iff.mp hreads
  obtain ⟨hfront, _⟩ := regular_append_iff.mp hregular
  exact ⟨σ, hrun, aligned_of_run (σ := .between .top) rfl hfront hrun, hrest⟩

theorem Stands.spec (hs : Stands lines i σ) (h : Sound lines) :
    σ.Aligned false ∧ σ.Reads (lines.drop i) := by
  obtain ⟨τ, hrun, haligned, hreads⟩ := h.exists_run i
  rw [hs.run] at hrun
  cases hrun
  exact ⟨hs.outside ▸ haligned, hreads⟩

theorem Sound.exists_stands (h : Sound lines) (hi : i ≤ lines.length)
    (houtside : Role.insideAfter false (lines.take i) = false) : ∃ σ, Stands lines i σ := by
  obtain ⟨σ, hrun, _⟩ := h.exists_run i
  exact ⟨σ, hi, houtside, hrun⟩

/-- The reader goes on over a line that is no mark. -/
theorem Stands.succ (hs : Stands lines i σ) (h : Sound lines) (hline : lines[i]? = some line)
    (hmark : hasMark line = false) :
    ∃ τ, σ.next (Line.ofRaw line) = some τ ∧ Stands lines (i + 1) τ := by
  obtain ⟨_, hreads⟩ := hs.spec h
  obtain ⟨hlt, hget⟩ := List.getElem?_eq_some_iff.mp hline
  rw [List.drop_eq_getElem_cons hlt, hget] at hreads
  obtain ⟨τ, hnext, _⟩ := Stage.reads_cons_iff.mp hreads
  refine ⟨τ, hnext, hlt, ?_, ?_⟩
  · rw [Role.insideAfter_take_succ hline, hs.outside, hmark]
    rfl
  · rw [List.take_add_one, hline, Option.toList_some, List.map_append, Stage.run_append, hs.run]
    exact (Stage.run_singleton _ σ).trans hnext

/-- Lines may be put in where the reader stands if the others can be read on behind them. -/
theorem Sound.insertAt (h : Sound lines) (hs : Stands lines i σ)
    (hblock : Regular false block) (hclosed : Role.insideAfter false block = false)
    (hrun : Stage.run (block.map Line.ofRaw) σ = some τ)
    (hreads : σ.Reads (lines.drop i) → τ.Reads (lines.drop i)) :
    Sound (insertAt lines i block) ∧ Stands (insertAt lines i block) (i + block.length) τ := by
  obtain ⟨_, hrest⟩ := hs.spec h
  have hregular := h.regular
  rw [← List.take_append_drop i lines] at hregular
  obtain ⟨hfront, hback⟩ := regular_append_iff.mp hregular
  rw [hs.outside] at hback
  have hrunAll : Stage.run ((lines.take i ++ block).map Line.ofRaw) (.between .top) = some τ := by
    rw [List.map_append, Stage.run_append, hs.run]
    exact hrun
  refine ⟨⟨?_, ?_⟩, ?_, ?_, ?_⟩
  · exact Stage.reads_append_iff.mpr ⟨τ, hrunAll, hreads hrest⟩
  · rw [insertAt_eq_append]
    refine regular_append_iff.mpr ⟨hfront, ?_⟩
    rw [hs.outside]
    refine regular_append_iff.mpr ⟨hblock, ?_⟩
    rwa [hclosed]
  · rw [length_insertAt]
    exact Nat.add_le_add_right hs.le _
  all_goals rw [take_insertAt hs.le]
  · rw [Role.insideAfter_append, hs.outside, hclosed]
  · exact hrunAll

end Stands

theorem keywordIn_eq_some_iff {role : Role} {line : Text} {keyword : Keyword} :
    keywordIn role line = some keyword ↔ role = .text ∧ Keyword.leading? line = some keyword := by
  rw [keywordIn]
  split
  · rename_i htext
    simp [htext, Keyword.leading?]
  · rename_i htext
    simp [htext]

theorem leadOf_of_split {ind rest : Text} (hind : IsIndentation ind) (lead : Lead) :
    leadOf (ind ++ (lead.text ++ rest)) = ind := by
  have hsplit := Text.takeWhile_append_trimStart (ind ++ (lead.text ++ rest))
  rw [Gherkin.trimStart_of_split hind] at hsplit
  exact List.append_cancel_right hsplit

/-- The line with the index stands outside docstrings, and the reader reads it by its lead. -/
structure LeadsAt (lines : List Text) (i : Nat) (line : Text) (lead : Lead) : Prop where
  get : lines[i]? = some line
  mark : hasMark line = false
  split : ∃ more, Line.lead? (Line.ofRaw line) = some (lead, more)
  description : Line.description? (Line.ofRaw line) = none
  stands : ∃ σ τ, Stands lines i σ ∧ σ.next (Line.ofRaw line) = some τ ∧ Stands lines (i + 1) τ

section Positions

variable {lines : List Text} {line : Text} {i : Nat} {keyword : Keyword} {lead : Lead}

theorem Sound.exists_leadsAt (h : Sound lines)
    (hkeyword : (keywordsFrom false lines)[i]? = some (some keyword)) :
    ∃ line lead, LeadsAt lines i line lead ∧ lead.keyword? = some keyword := by
  have hrole := scan_of_keyword hkeyword
  obtain ⟨houtside, _⟩ := Role.outside_of_text hrole
  rw [keywordsFrom, List.getElem?_zipWith_eq_some] at hkeyword
  obtain ⟨role, line, _, hline, hdetected⟩ := hkeyword
  obtain ⟨_, hleading⟩ := keywordIn_eq_some_iff.mp hdetected
  obtain ⟨hlt, hget⟩ := List.getElem?_eq_some_iff.mp hline
  obtain ⟨found, hfound, hmark⟩ := Role.exists_line_of_text hrole
  obtain rfl : line = found := Option.some.inj (hline.symm.trans hfound)
  have htext : line ∈ textLines false lines := by
    rw [← List.take_append_drop i lines, List.drop_eq_getElem_cons hlt, hget,
      textLines_append_cons _ houtside hmark]
    exact List.mem_append_right _ List.mem_cons_self
  have hdescription : Line.description? (Line.ofRaw line) = none := by
    rw [← Option.not_isSome_iff_eq_none]
    intro hsome
    rw [h.regular.free line htext hsome] at hleading
    cases hleading
  have hcounts : (Line.ofRaw line).isIgnorable = false := by
    rw [Bool.eq_false_iff]
    intro hignorable
    rw [leading?_of_isIgnorable hignorable] at hleading
    cases hleading
  obtain ⟨σ, hσ⟩ := h.exists_stands hlt.le houtside
  obtain ⟨τ, hnext, hτ⟩ := hσ.succ h hline hmark
  obtain ⟨lead, more, hlead⟩ :=
    Stage.exists_lead?_of_next (hσ.spec h).1.isOutside hcounts (fun _ _ => hdescription) hnext
  refine ⟨line, lead, ⟨hline, hmark, ⟨more, hlead⟩, hdescription, σ, τ, hσ, hnext, hτ⟩, ?_⟩
  obtain ⟨ind, rest, hind, rfl⟩ := Gherkin.exists_split_of_lead? hlead
  exact Lead.keyword?_of_leading? hind hleading

/-- What a line with a keyword opens is open behind it. -/
theorem LeadsAt.exists_opens (h : LeadsAt lines i line lead) (hsound : Sound lines)
    (hlead : lead.keyword? = some keyword) :
    ∃ w τ, Within.opens w lead = some τ ∧ Stands lines (i + 1) τ := by
  obtain ⟨_, _, ⟨more, hmore⟩, hdescription, σ, τ, hσ, hnext, hτ⟩ := h
  have hargument : lead.isArgument = false := by
    cases lead with
    | quotes => cases hlead
    | backticks => cases hlead
    | bar => cases hlead
    | _ => rfl
  obtain ⟨w, hopens⟩ := Stage.opens_of_next hmore hargument hdescription
    (hσ.spec hsound).1.isOutside hnext
  exact ⟨w, τ, hopens, hτ⟩

/-- Behind a line with the keyword of a step stands what may stand under a step. -/
theorem Sound.stands_behind_step (h : Sound lines) (hkeyword : keyword.isHeader = false)
    (hi : (keywordsFrom false lines)[i]? = some (some keyword)) :
    ∃ w, w.hasSteps = true ∧ Stands lines (i + 1) (.step w) := by
  obtain ⟨line, lead, hleads, hlead⟩ := h.exists_leadsAt hi
  obtain ⟨w, τ, hopens, hτ⟩ := hleads.exists_opens h hlead
  obtain ⟨word, rfl⟩ := Lead.eq_step_of_keyword? hlead hkeyword
  rw [Within.opens] at hopens
  split at hopens
  · rename_i hsteps
    cases hopens
    exact ⟨w, hsteps, hτ⟩
  · cases hopens

/-- Under a step, a line that starts like a step of the setup is a step. -/
theorem next_of_afterSetup? {w : Within} {τ : Stage} (hw : w.hasSteps = true)
    (hsetup : (afterSetup? line).isSome = true)
    (h : (Stage.step w).next (Line.ofRaw line) = some τ) : τ = .step w := by
  have hcounts : (Line.ofRaw line).isIgnorable = false := by
    rw [Bool.eq_false_iff]
    intro hignorable
    rw [afterSetup?_of_isIgnorable hignorable] at hsetup
    cases hsetup
  obtain ⟨lead, more, hlead⟩ :=
    Stage.exists_lead?_of_next (σ := .step w) rfl hcounts (fun _ heq => by cases heq) h
  obtain ⟨ind, rest, hind, rfl⟩ := Gherkin.exists_split_of_lead? hlead
  obtain ⟨word, rfl⟩ := Lead.isStep_of_afterSetup? hind hsetup
  obtain ⟨hopening, hwidth⟩ := Stage.not_argument_of_lead? hlead rfl
  rw [Place.next_step w hcounts, hopening, hwidth, Place.opensLine_of_lead? hlead, Within.opens,
    if_pos hw] at h
  exact (Option.some.inj h).symm

/-- Behind the header of a background or of a scenario stands what may stand under a header. -/
theorem Sound.stands_behind_header (h : Sound lines) (hkeyword : keyword.isHeader = true)
    (hfeature : keyword ≠ .feature)
    (hi : (keywordsFrom false lines)[i]? = some (some keyword)) :
    ∃ w, w.hasSteps = true ∧ Stands lines (i + 1) (.header w) := by
  obtain ⟨line, lead, hleads, hlead⟩ := h.exists_leadsAt hi
  obtain ⟨w, τ, hopens, hτ⟩ := hleads.exists_opens h hlead
  cases lead with
  | background =>
    rw [Within.opens] at hopens
    split at hopens <;> cases hopens
    exact ⟨_, rfl, hτ⟩
  | scenario word =>
    rw [Within.opens] at hopens
    split at hopens <;> cases hopens
    exact ⟨_, rfl, hτ⟩
  | feature => exact absurd (Option.some.inj hlead).symm hfeature
  | step word => cases word <;> cases hlead <;> cases hkeyword
  | _ => cases hlead

/-- Behind a docstring nothing belongs to the last line. -/
theorem Sound.stands_behind_closing (h : Sound lines)
    (hi : (Role.scan lines)[i]? = some .closing) :
    ∃ w, w.hasSteps = true ∧ Stands lines (i + 1) (.between w) := by
  have houtside := Role.outside_of_closing hi
  obtain ⟨line, hline, _, hinside⟩ := Role.exists_line_of_closing hi
  obtain ⟨hlt, _⟩ := List.getElem?_eq_some_iff.mp hline
  have htrim : line.trim = docstringMark := by
    refine h.regular.closing (.closing, line) ?_ rfl
    exact List.mem_of_getElem? (List.getElem?_zip_eq_some.mpr ⟨hi, hline⟩)
  obtain ⟨σ, hrun, haligned, hreads⟩ := h.exists_run i
  rw [hinside] at haligned
  cases σ with
  | docstring w o body =>
    obtain ⟨_, hquotes, hsteps⟩ := haligned
    rw [List.drop_eq_getElem_cons hlt, (List.getElem?_eq_some_iff.mp hline).2] at hreads
    obtain ⟨τ, hnext, _⟩ := Stage.reads_cons_iff.mp hreads
    have hclosed : (Stage.docstring w o body).next (Line.ofRaw line) = some (.between w) := by
      rw [Stage.ofRaw_of_next hnext, Stage.next, hquotes, Text.trim_dropReturn, if_pos htrim]
    refine ⟨w, hsteps, hlt, houtside, ?_⟩
    rw [List.take_add_one, hline, Option.toList_some, List.map_append, Stage.run_append, hrun]
    exact (Stage.run_singleton _ _).trans hclosed
  | step w => cases haligned.1
  | _ => cases haligned

/-- The steps of sound lines are indented with spaces and tabs. -/
theorem Sound.isIndentation_stepIndentOf (h : Sound lines) {options : RepairOptions}
    (hstep : IsIndentation options.stepIndent) :
    IsIndentation (stepIndentOf options lines) := by
  have hlead : ∀ {i keyword}, (keywordsFrom false lines)[i]? = some (some keyword) →
      IsIndentation (leadOf (lines.getD i [])) := by
    intro i keyword hi
    obtain ⟨line, lead, hleads, _⟩ := h.exists_leadsAt hi
    obtain ⟨more, hmore⟩ := hleads.split
    obtain ⟨ind, rest, hind, hsplit⟩ := Gherkin.exists_split_of_lead? hmore
    rw [List.getD_eq_getElem?_getD, hleads.get, Option.getD_some, hsplit, leadOf_of_split hind]
    exact hind
  rw [stepIndentOf]
  split
  · rename_i i hfind
    obtain ⟨hlt, htest, _⟩ := List.findIdx?_eq_some_iff_getElem.mp hfind
    cases hget : (keywords lines)[i] with
    | none =>
      rw [hget] at htest
      cases htest
    | some keyword => exact hlead (List.getElem?_eq_some_iff.mpr ⟨hlt, hget⟩)
  · split
    · rename_i i hheader
      obtain ⟨keyword, _, hi⟩ := keyword_of_headerAt? hheader
      intro c hc
      rcases List.mem_append.mp hc with hc | hc
      · exact hlead hi c hc
      · exact hstep c hc
    · intro c hc
      cases hc

/-- In front of the first keyword nothing but tags can be read. -/
theorem top_of_next {σ τ : Stage} (hσ : σ = .between .top ∨ σ = .tagged .top)
    (hnone : hasMark line = false → Keyword.leading? line = none)
    (hnext : σ.next (Line.ofRaw line) = some τ) :
    hasMark line = false ∧ (τ = .tagged .top ∨ τ = σ ∧ (Line.ofRaw line).isIgnorable = true) := by
  have hskips : σ.skips = true := by
    rcases hσ with rfl | rfl <;> rfl
  have hmark : hasMark line = false := by
    rw [Bool.eq_false_iff]
    intro hmark
    rw [Stage.ofRaw_of_next hnext] at hnext
    obtain ⟨w, _, hstep, _⟩ := Stage.next_of_hasMark (Stage.isOutside_of_skips hskips)
      (hasMark_dropReturn line ▸ hmark) hnext
    rcases hσ with rfl | rfl <;> cases hstep
  refine ⟨hmark, ?_⟩
  cases hcounts : (Line.ofRaw line).isIgnorable with
  | true =>
    rw [Stage.next_of_isIgnorable hskips hcounts] at hnext
    exact .inr ⟨(Option.some.inj hnext).symm, rfl⟩
  | false =>
    obtain ⟨lead, more, hlead, hopens⟩ := Stage.opens_top_of_next hσ hcounts hnext
    cases lead with
    | tag => exact .inl (Option.some.inj hopens).symm
    | feature =>
      -- the header of the feature would have a keyword
      obtain ⟨ind, more, hind, rfl⟩ := Gherkin.exists_split_of_lead? hlead
      cases (Lead.leading?_feature hind more).symm.trans (hnone hmark)
    | _ => cases hopens

theorem top_of_run {σ τ : Stage} (hnone : ∀ k ∈ keywordsFrom false lines, k = none)
    (hσ : σ = .between .top ∨ σ = .tagged .top)
    (hrun : Stage.run (lines.map Line.ofRaw) σ = some τ) :
    τ = .tagged .top ∨ τ = σ ∧ ∀ line ∈ lines, (Line.ofRaw line).isIgnorable = true := by
  induction lines generalizing σ with
  | nil =>
    cases hrun
    exact .inr ⟨rfl, by simp⟩
  | cons line rest ih =>
    rw [List.map_cons, Stage.run_cons] at hrun
    obtain ⟨υ, hnext, hrest⟩ := Option.bind_eq_some_iff.mp hrun
    rw [keywordsFrom_cons, List.forall_mem_cons] at hnone
    obtain ⟨hline, hnone⟩ := hnone
    obtain ⟨hmark, hυ⟩ := top_of_next hσ (fun hmark => by rwa [hmark] at hline) hnext
    rw [hmark] at hnone
    rcases hυ with rfl | ⟨rfl, hignorable⟩
    · exact .inl ((ih hnone (.inr rfl) hrest).elim id And.left)
    · refine (ih hnone hσ hrest).imp_right fun ⟨hτ, hall⟩ => ⟨hτ, ?_⟩
      exact List.forall_mem_cons.mpr ⟨hignorable, hall⟩

/-- The first keyword of sound lines is that of the feature, and there is one if a line counts. -/
theorem Sound.exists_first_keyword (h : Sound lines)
    (hcounts : ∃ line ∈ lines, (Line.ofRaw line).isIgnorable = false) :
    ∃ front back, keywordsFrom false lines = front ++ some .feature :: back ∧
      ∀ k ∈ front, k = none := by
  cases hfind : (keywordsFrom false lines).find? Option.isSome with
  | none =>
    exfalso
    have hnone : ∀ k ∈ keywordsFrom false lines, k = none := by
      simpa using List.find?_eq_none.mp hfind
    obtain ⟨τ, hrun, hfinal⟩ := h.reads
    rcases top_of_run hnone (.inl rfl) hrun with rfl | ⟨rfl, hall⟩
    · cases hfinal
    · obtain ⟨line, hline, hcount⟩ := hcounts
      rw [hall line hline] at hcount
      cases hcount
  | some found =>
    obtain ⟨hsome, front, back, hsplit, hfront⟩ := List.find?_eq_some_iff_append.mp hfind
    have hnone : ∀ k ∈ front, k = none := by
      simpa using hfront
    obtain ⟨keyword, rfl⟩ := Option.isSome_iff_exists.mp hsome
    have hi : (keywordsFrom false lines)[front.length]? = some (some keyword) := by
      rw [hsplit, List.getElem?_append_right (Nat.le_refl _), Nat.sub_self]
      rfl
    have htake : keywordsFrom false (lines.take front.length) = front := by
      rw [← take_keywordsFrom, hsplit, List.take_left]
    obtain ⟨line, lead, hleads, hlead⟩ := h.exists_leadsAt hi
    obtain ⟨_, _, ⟨more, hmore⟩, _, σ, τ, hσ, hnext, _⟩ := hleads
    have htop : σ = .between .top ∨ σ = .tagged .top :=
      (top_of_run (htake.symm ▸ hnone) (.inl rfl) hσ.run).elim .inr fun ⟨hσ, _⟩ => .inl hσ
    obtain ⟨own, _, hown, hopens⟩ :=
      Stage.opens_top_of_next htop (Place.isIgnorable_of_lead? hmore) hnext
    cases hmore.symm.trans hown
    refine ⟨front, back, ?_, hnone⟩
    cases lead with
    | feature =>
      cases hlead
      exact hsplit
    | tag => cases hlead
    | _ => cases hopens

/-- There is a header under which new lines go. -/
theorem Sound.exists_headerAt? (h : Sound lines)
    (hcounts : ∃ line ∈ lines, (Line.ofRaw line).isIgnorable = false) :
    ∃ i, headerAt? lines = some i := by
  obtain ⟨front, back, hsplit, hnone⟩ := h.exists_first_keyword hcounts
  have hkeywords : keywords lines = front ++ some .feature :: back := hsplit
  simp only [headerAt?, hkeywords]
  split
  · rename_i i _
    exact ⟨i, rfl⟩
  · have hfront : ∀ k ∈ front, (!isStep k) = true := by
      intro k hk
      rw [hnone k hk]
      rfl
    have hfound : ((front ++ some Keyword.feature :: back).takeWhile
        fun k => !isStep k)[front.length]? = some (some .feature) := by
      rw [List.takeWhile_append_of_pos hfront, List.takeWhile_cons_of_pos rfl,
        List.getElem?_append_right (Nat.le_refl _), Nat.sub_self]
      rfl
    obtain ⟨i, hi, _⟩ := exists_lastIndex?_of_test Option.isSome hfound rfl
    exact ⟨i, hi⟩

end Positions

section Trimming

variable {blank : Text} {rest : List Text} {σ τ : Stage}

/-- A blank line does not count where it can be read. -/
theorem isIgnorable_of_isBlank (hblank : blank.isBlank = true) (hσ : σ.isOutside = true)
    (hnext : σ.next (Line.ofRaw blank) = some τ) : (Line.ofRaw blank).isIgnorable = true := by
  by_contra hcounts
  have hdescription : Line.description? (Line.ofRaw blank) = none := by
    have htrim : blank.trim = [] := by
      rw [← List.isEmpty_iff, Text.isEmpty_trim, hblank]
    simp [Stage.ofRaw_of_next hnext, Line.description?, Text.trim_dropReturn, htrim]
  obtain ⟨lead, more, hlead⟩ := Stage.exists_lead?_of_next hσ (Bool.eq_false_iff.mpr hcounts)
    (fun _ _ => hdescription) hnext
  obtain ⟨ind, rest, hind, rfl⟩ := Gherkin.exists_split_of_lead? hlead
  have hstart := Gherkin.trimStart_of_split hind lead rest
  rw [trimStart_of_isBlank hblank] at hstart
  obtain ⟨c, hc, _⟩ := lead.exists_head
  rw [(List.append_eq_nil_iff.mp hstart.symm).1] at hc
  cases hc

theorem Sound.of_cons_blank (hblank : blank.isBlank = true) (h : Sound (blank :: rest)) :
    Sound rest := by
  obtain ⟨hreads, hregular⟩ := h
  obtain ⟨τ, hnext, hrest⟩ := Stage.reads_cons_iff.mp hreads
  rw [Stage.next_of_isIgnorable rfl (isIgnorable_of_isBlank hblank rfl hnext)] at hnext
  cases hnext
  refine ⟨hrest, ?_⟩
  have hsplit : Regular false ([blank] ++ rest) := hregular
  have hback := (regular_append_iff.mp hsplit).2
  rwa [Role.insideAfter_cons, hasMark_of_isBlank hblank] at hback

theorem Sound.of_concat_blank (hblank : blank.isBlank = true) (h : Sound (rest ++ [blank])) :
    Sound rest := by
  obtain ⟨hreads, hregular⟩ := h
  obtain ⟨hrest, _⟩ := regular_append_iff.mp hregular
  obtain ⟨σ, hrun, hlast⟩ := Stage.reads_append_iff.mp hreads
  obtain ⟨τ, hnext, hnil⟩ := Stage.reads_cons_iff.mp hlast
  have hfinal := Stage.reads_nil_iff.mp hnil
  refine ⟨⟨σ, hrun, ?_⟩, hrest⟩
  have haligned := aligned_of_run (σ := .between .top) rfl hrest hrun
  cases σ with
  | docstring w o body =>
    obtain ⟨_, hquotes, _⟩ := haligned
    have htrim : blank.dropReturn.trim ≠ o.mark := by
      rw [Text.trim_dropReturn, Text.trim, trimStart_of_isBlank hblank, hquotes]
      decide
    rw [Stage.ofRaw_of_next hnext, Stage.next, if_neg htrim] at hnext
    cases hnext
    cases hfinal
  | table w width => rfl
  | between w => rfl
  | step w => rfl
  | tagged w =>
    rw [Stage.next_of_isIgnorable rfl (isIgnorable_of_isBlank hblank rfl hnext)] at hnext
    cases hnext
    cases hfinal
  | header w =>
    rw [Stage.next_of_isIgnorable rfl (isIgnorable_of_isBlank hblank rfl hnext)] at hnext
    cases hnext
    exact hfinal

/-- The blank lines at both ends may go. -/
theorem Sound.trimLines {lines : List Text} (h : Sound lines) : Sound (trimLines lines) :=
  trimLines_induction (fun _ _ hblank => Sound.of_cons_blank hblank)
    (fun _ _ hblank => Sound.of_concat_blank hblank) h

end Trimming

end ScenarioLint.Scenario
