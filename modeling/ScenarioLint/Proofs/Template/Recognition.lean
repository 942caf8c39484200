import ScenarioLint.Proofs.Check.Vocabulary
import ScenarioLint.Proofs.Template.Compilation
import ScenarioLint.Proofs.Template.NormalForm

/-!
Which templates accept lines that do not lead with a keyword.

A pattern and the search for a leading keyword do not read a keyword alike.  The pattern takes the
long s and the Kelvin sign for letters of `Scenario` and `Background`, and it lets a placeholder
directly behind a keyword go on with the word.
-/

namespace ScenarioLint

namespace Placeholder

section Sample

/-- Texts one of which fills a given placeholder. -/
def samples : List Text :=
  ["a", "aa", "1", "200", "GET", "Bearer"].map String.toList

/-- A text that fills the placeholder. -/
def sample (p : Placeholder) : Text :=
  (samples.find? fun t =>
    (Regex.read? ('^' :: (p.fragment ++ ['$']))).any (·.accepts t)).getD []

variable {p : Placeholder}

theorem fills_sample (hp : p ∈ table) : p.Fills p.sample := by
  have hall : ∀ p ∈ table,
      (Regex.read? ('^' :: (p.fragment ++ ['$']))).any (·.accepts p.sample) = true := by
    decide +kernel
  obtain ⟨r, hread, haccepts⟩ := (Option.any_eq_true _ _).mp (hall p hp)
  exact ⟨r, hread, (Regex.accepts_iff r p.sample).mp haccepts⟩

theorem isAlphanumeric_sample (hp : p ∈ table) :
    p.sample ≠ [] ∧ ∀ c ∈ p.sample, isAlphanumeric c = true ∧ isSpace c = false := by
  have hall : ∀ p ∈ table, p.sample ≠ [] ∧
      ∀ c ∈ p.sample, isAlphanumeric c = true ∧ isSpace c = false := by
    decide +kernel
  exact hall p hp

end Sample

end Placeholder

namespace Template

open Segment (ofTemplate isCut_of_mem_ofTemplate)

section Sample

variable {body : Text}

/-- What a line may have in place of a segment. -/
def Segment.sample : Segment → Text
  | literal t => t
  | placeholder p => p.sample

/-- What a line may have in place of a template without its keyword. -/
def sampleBody (body : Text) : Text :=
  (ofTemplate body).flatMap Segment.sample

theorem matches_sampleBody (hbody : body.IsSingleSpaced) : Matches body (sampleBody body) := by
  refine ⟨(ofTemplate body).map Segment.sample, List.flatMap_def, ?_⟩
  rw [List.forall₂_map_right_iff, List.forall₂_same]
  intro segment hsegment
  cases segment with
  | literal t => exact Relaxes.refl (hbody.of_isInfix (Segment.isInfix_of_literal_mem hsegment))
  | placeholder p => exact Placeholder.fills_sample (isCut_of_mem_ofTemplate hsegment)

theorem isSpace_of_mem_getLast?_sampleBody (hbody : ∀ c ∈ body.getLast?, isSpace c = false) :
    ∀ c ∈ (sampleBody body).getLast?, isSpace c = false := by
  rw [sampleBody]
  have htext := Segment.flatMap_text_ofTemplate body
  have hcut : ∀ segment ∈ ofTemplate body, segment.IsCut := fun _ => isCut_of_mem_ofTemplate
  obtain hnil | ⟨front, segment, hsegments⟩ := List.eq_nil_or_concat' (ofTemplate body)
  · rw [hnil]
    nofun
  rw [hsegments, List.flatMap_append, List.flatMap_singleton] at htext
  rw [hsegments, List.flatMap_append, List.flatMap_singleton]
  have hsegment : segment.IsCut := hcut segment (by simp [hsegments])
  cases segment with
  | literal t =>
    rw [← htext, Segment.text, List.getLast?_append_of_ne_nil _ hsegment] at hbody
    rw [Segment.sample, List.getLast?_append_of_ne_nil _ hsegment]
    exact hbody
  | placeholder p =>
    obtain ⟨hne, hsample⟩ := Placeholder.isAlphanumeric_sample hsegment
    rw [Segment.sample, List.getLast?_append_of_ne_nil _ hne]
    exact fun c hc => (hsample c (List.mem_of_getLast? hc)).2

/-- A placeholder goes on with the word in front of it. -/
theorem endsWord_sampleBody {p : Placeholder} (h : Placeholder.at? body = some p) :
    Keyword.endsWord (sampleBody body) = false := by
  obtain ⟨segments, hsegments⟩ := Segment.exists_ofTemplate_eq_placeholder h
  obtain ⟨hne, hsample⟩ := Placeholder.isAlphanumeric_sample (Placeholder.at?_eq_some h).1
  obtain ⟨c, more, hfirst⟩ := List.exists_cons_of_ne_nil hne
  have hc : isAlphanumeric c = true := (hsample c (by simp [hfirst])).1
  rw [sampleBody, hsegments, List.flatMap_cons, Segment.sample, hfirst, List.cons_append,
    Keyword.endsWord, hc]
  rfl

end Sample

section Boundary

variable {body t : Text}

theorem Relaxes.endsWord_append {c : Char} (h : Relaxes (c :: body) t) (more : Text) :
    Keyword.endsWord (t ++ more) = Keyword.endsWord (c :: body) := by
  generalize hs : c :: body = s at h
  cases h with
  | nil => cases hs
  | visible _ _ => rfl
  | gap hws hvs _ _ =>
    rw [List.append_assoc, Keyword.endsWord_of_gap hvs.1 hvs.2, Keyword.endsWord_of_gap hws.1 hws.2]

/-- Literal text ends the word in front of it in a line just if it does in the template. -/
theorem Matches.endsWord_eq (h : Matches body t) (hbody : Placeholder.at? body = none) :
    Keyword.endsWord t = Keyword.endsWord body := by
  obtain ⟨ts, rfl, hts⟩ := h
  cases body with
  | nil =>
    cases hts
    rfl
  | cons c body =>
    obtain ⟨more, segments, hsegments⟩ := Segment.exists_ofTemplate_eq_literal hbody
    rw [hsegments] at hts
    cases hts with
    | cons hfirst _ => exact Relaxes.endsWord_append hfirst _

end Boundary

section Spelling

variable {keyword : Keyword} {word : Text}

theorem Spells.isSpace (h : Spells keyword word) : ∀ c ∈ word, isSpace c = false := by
  have hall : ∀ k ∈ Keyword.all, ∀ c ∈ k.word.map foldCase, ScenarioLint.isSpace c = false := by
    decide
  intro c hc
  have hmem : foldCase c ∈ keyword.word.map foldCase := h ▸ List.mem_map_of_mem hc
  exact isSpace_of_foldCase rfl (hall keyword (by cases keyword <;> decide) _ hmem)

theorem Spells.length_eq (h : Spells keyword word) : word.length = keyword.word.length := by
  simpa using congrArg List.length h

/-- Two of the keywords have letters with forms beyond ASCII. -/
theorem Spells.alike (h : Spells keyword word) (hbackground : keyword ≠ .background)
    (hscenario : keyword ≠ .scenario) : Text.alike word keyword.word = true := by
  apply alike_of_foldCase h
  cases keyword with
  | background => exact absurd rfl hbackground
  | scenario => exact absurd rfl hscenario
  | feature | given | when | «then» | and => decide

end Spelling

/-- The keywords that may lead a line for a template: its own one or, without one, those of its
    rulebook. -/
def leads (rulebook : Rulebook) (template : Text) : List Keyword :=
  match Keyword.leading? template with
  | some keyword => [keyword]
  | none => rulebook.keywords

/-- No keyword of its own, or one that is matched letter by letter and ends in front of what follows
    in a line as it does in the template. -/
def IsPlain (template : Text) : Prop :=
  ∀ keyword rest, Keyword.detect template = some (keyword, rest) →
    keyword ≠ .background ∧ keyword ≠ .scenario ∧ Placeholder.at? rest = none

section Recognition

variable {rulebook : Rulebook} {raw template fit : Text} {p : Pattern}

theorem mem_leads_iff_of_detect {keyword other : Keyword} {rest : Text}
    (h : Keyword.detect template = some (keyword, rest)) :
    other ∈ leads rulebook template ↔ other = keyword := by
  rw [leads, Keyword.leading?, h]
  exact List.mem_singleton

/-- What fits a plain template leads with a keyword of the template. -/
theorem Fits.exists_leading? (h : Fits rulebook template fit) (hplain : IsPlain template)
    {lead trail : Text} (hlead : lead.isBlank = true) (htrail : trail.isBlank = true) :
    ∃ keyword ∈ leads rulebook template,
      Keyword.leading? (lead ++ (fit ++ trail)) = some keyword := by
  rw [Fits] at h
  split at h
  · next keyword rest hdetect =>
    obtain ⟨word, body, rfl, hword, hbody⟩ := h
    obtain ⟨hbackground, hscenario, hrest⟩ := hplain keyword rest hdetect
    obtain ⟨_, _, _, hend⟩ := Keyword.exists_of_detect hdetect
    have hends : Keyword.endsWord (body ++ trail) = true := by
      rw [Keyword.endsWord_append htrail, hbody.endsWord_eq hrest, hend]
    refine ⟨keyword, (mem_leads_iff_of_detect hdetect).mpr rfl, ?_⟩
    rw [List.append_assoc]
    exact Keyword.leading?_of_alike hlead (hword.alike hbackground hscenario) hends
  · next hdetect =>
    obtain ⟨word, gap, body, rfl, ⟨keyword, hkeyword, hword⟩, ⟨hgap, hblank⟩, _⟩ := h
    have hplain : keyword ≠ .background ∧ keyword ≠ .scenario := by
      have hall : ∀ keyword ∈ rulebook.keywords, keyword ≠ .background ∧ keyword ≠ .scenario := by
        cases rulebook <;> decide
      exact hall keyword hkeyword
    refine ⟨keyword, by rwa [leads, Keyword.leading?, hdetect], ?_⟩
    rw [List.append_assoc, List.append_assoc]
    exact Keyword.leading?_of_alike hlead (hword.alike hplain.1 hplain.2)
      (Keyword.endsWord_of_gap hgap hblank _)

theorem Pattern.IsCompiled.accepts_iff (h : p.IsCompiled rulebook raw) (line : Text) :
    p.accepts line = true ↔ ∃ lead fit trail, line.trim = lead ++ (fit ++ trail) ∧
      lead.isBlank = true ∧ Fits rulebook p.template fit ∧ trail.isBlank = true := by
  have hsingle : p.template.IsSingleSpaced := h.template_eq ▸ isSingleSpaced_normalizeLine raw
  obtain ⟨r, hread, hdescribes⟩ := exists_read?_render rulebook hsingle
  have hregex : p.regex = r :=
    Option.some.inj (h.read_source.symm.trans (h.source_eq ▸ hread))
  rw [accepts, hregex, Regex.accepts_iff, hdescribes]

/-- Behind any spelling of the keyword of a template, the sample of the rest is accepted. -/
theorem Pattern.IsCompiled.accepts_sampleBody (h : p.IsCompiled rulebook raw) {keyword : Keyword}
    {word rest : Text} (hdetect : Keyword.detect p.template = some (keyword, rest))
    (hword : Spells keyword word) : p.accepts (word ++ sampleBody rest) = true := by
  have hnormal : IsNormal p.template := h.template_eq ▸ isNormal_normalizeLine raw
  have hsuffix := Keyword.isSuffix_of_detect hdetect
  have hne : word ≠ [] := by
    rintro rfl
    cases keyword <;> cases hword
  have hrest : ∀ c ∈ rest.getLast?, isSpace c = false := by
    intro c hc
    obtain ⟨front, hfront⟩ := hsuffix
    apply (Text.ends_of_trim hnormal.trimmed).2 c
    rw [← hfront, List.getLast?_append, Option.mem_def.mp hc, Option.some_or]
  have htrim : Text.trim (word ++ sampleBody rest) = word ++ sampleBody rest := by
    apply Text.trim_of_ends
    · intro c hc
      rw [List.head?_append_of_ne_nil _ hne] at hc
      exact hword.isSpace c (List.mem_of_mem_head? hc)
    · intro c hc
      rw [List.getLast?_append, Option.or_eq_some_iff] at hc
      obtain hlast | ⟨_, hlast⟩ := hc
      · exact isSpace_of_mem_getLast?_sampleBody hrest c hlast
      · exact hword.isSpace c (List.mem_of_getLast? hlast)
  refine (h.accepts_iff _).mpr ⟨[], word ++ sampleBody rest, [], by simp [htrim], rfl, ?_, rfl⟩
  rw [Fits, hdetect]
  exact ⟨word, _, rfl, hword, matches_sampleBody (hnormal.single.of_isInfix hsuffix.isInfix)⟩

theorem Pattern.IsCompiled.isPlain (hcompiled : p.IsCompiled rulebook raw)
    (h : ∀ line, p.accepts line = true →
      ∃ keyword ∈ leads rulebook p.template, Keyword.leading? line = some keyword) :
    IsPlain p.template := by
  intro keyword rest hdetect
  have hread : ∀ word, Spells keyword word →
      Text.alike word keyword.word = true ∧ Keyword.endsWord (sampleBody rest) = true := by
    intro word hword
    obtain ⟨other, hmem, hleading⟩ := h _ (hcompiled.accepts_sampleBody hdetect hword)
    obtain rfl := (mem_leads_iff_of_detect hdetect).mp hmem
    exact (Keyword.leading?_append_eq_some_iff hword.isSpace hword.length_eq).mp hleading
  refine ⟨?_, ?_, ?_⟩
  · rintro rfl
    exact absurd (hread "bac\u212aground".toList (by decide)).1 (by decide)
  · rintro rfl
    exact absurd (hread "\u017fcenario".toList (by decide)).1 (by decide)
  · have hend := (hread keyword.word rfl).2
    cases hat : Placeholder.at? rest with
    | none => rfl
    | some _ =>
      rw [endsWord_sampleBody hat] at hend
      cases hend

/-- Every line that the pattern of a template accepts leads with a keyword of the template, and is
    not reported to have none, just if the template is plain. -/
theorem Pattern.accepts_imp_leading?_iff {text : Text} {small : Text → Bool}
    (h : p ∈ patterns rulebook text small) :
    (∀ line, p.accepts line = true →
      (∃ keyword ∈ leads rulebook p.template, Keyword.leading? line = some keyword) ∧
        ∀ policy block, (Check.classify policy block line.trim).2 ≠ some .noKeyword) ↔
      IsPlain p.template := by
  obtain ⟨raw, hcompiled⟩ := Pattern.exists_isCompiled h
  constructor
  · exact fun hread => hcompiled.isPlain fun line haccepts => (hread line haccepts).1
  · intro hplain line haccepts
    obtain ⟨lead, fit, trail, hline, hlead, hfit, htrail⟩ := (hcompiled.accepts_iff line).mp haccepts
    obtain ⟨keyword, hmem, hleading⟩ := hfit.exists_leading? hplain hlead htrail
    rw [← hline, Keyword.leading?_trim] at hleading
    refine ⟨⟨keyword, hmem, hleading⟩, fun policy block hproblem => ?_⟩
    rw [Check.classify_eq_noKeyword_iff, hleading] at hproblem
    cases hproblem

/-- A literal behind the keyword keeps its word apart from what follows. -/
theorem Pattern.accepts_imp_leading?_url : ∃ p ∈ patterns .step "Given url <url>".toList,
    ∀ line, p.accepts line = true → Keyword.leading? line = some .given := by
  obtain ⟨p, hp, htemplate⟩ : ∃ p, patterns .step "Given url <url>".toList = [p] ∧
      p.template = "Given url <url>".toList := ⟨_, rfl, rfl⟩
  have hmem : p ∈ patterns .step "Given url <url>".toList := hp ▸ List.mem_singleton_self p
  refine ⟨p, hmem, fun line haccepts => ?_⟩
  have hdetect : Keyword.detect p.template = some (.given, " url <url>".toList) := by
    rw [htemplate]
    decide
  have hplain : IsPlain p.template := by
    intro keyword rest h
    rw [hdetect] at h
    cases h
    decide
  obtain ⟨⟨keyword, hkeyword, hleading⟩, _⟩ :=
    (Pattern.accepts_imp_leading?_iff hmem).mpr hplain line haccepts
  rwa [(mem_leads_iff_of_detect hdetect).mp hkeyword] at hleading

/-- A placeholder directly behind a keyword goes on with its word, and the long s stands for a letter
    of a keyword in patterns alone. -/
theorem Pattern.not_accepts_imp_leading? :
    (∃ p ∈ patterns .step "Given<url>".toList, p.accepts "Givenhttp://h".toList = true ∧
      Keyword.leading? "Givenhttp://h".toList = none) ∧
    ∃ p ∈ patterns .step "Scenario <url>".toList, p.accepts "\u017fcenario http://h".toList = true ∧
      Keyword.leading? "\u017fcenario http://h".toList = none := by
  decide +kernel

end Recognition

end Template

end ScenarioLint
