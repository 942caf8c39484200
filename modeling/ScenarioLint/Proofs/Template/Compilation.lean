import ScenarioLint.Proofs.Keyword
import ScenarioLint.Proofs.Regex.Reader
import ScenarioLint.Proofs.Regex.Search
import ScenarioLint.Proofs.Template.Line
import ScenarioLint.Proofs.Template.Meaning
import ScenarioLint.Proofs.Template.Segment

/-!
The pattern of a template accepts exactly the lines that fit the template.
-/

namespace ScenarioLint.Template

open Regex (Pushes Writes)

section Gaps

variable {t : Text}

private theorem writes_of_part {piece : Text} {r : Regex} (h : Pushes piece [r]) :
    Writes piece r.Describes :=
  ⟨[r], h, fun _ => Regex.splits_singleton⟩

/-- What stands for white space in a template describes any white space, but some. -/
theorem writes_gap : Writes "\\s+".toList fun t => t ≠ [] ∧ t.isBlank = true := by
  have hpushes : Pushes "\\s+".toList [.seq (.one .space) (.many .space)] :=
    Regex.pushes_of_ready (by decide) (.inr (.inr rfl)) fun _ _ _ => rfl
  refine (writes_of_part hpushes).congr fun t => ?_
  constructor
  · rintro ⟨u, v, rfl, ⟨x, rfl, hx⟩, hv⟩
    refine ⟨List.cons_ne_nil _ _, List.all_eq_true.mpr ?_⟩
    rw [List.singleton_append, List.forall_mem_cons]
    exact ⟨hx, hv⟩
  · rintro ⟨hne, hblank⟩
    obtain ⟨x, v, rfl⟩ := List.exists_cons_of_ne_nil hne
    obtain ⟨hx, hv⟩ := List.forall_mem_cons.mp (List.all_eq_true.mp hblank)
    exact ⟨[x], v, rfl, ⟨x, rfl, hx⟩, hv⟩

theorem writes_blank : Writes "\\s*".toList fun t => t.isBlank = true := by
  have hpushes : Pushes "\\s*".toList [.many .space] :=
    Regex.pushes_of_ready (by decide) (.inr (.inr rfl)) fun _ _ _ => rfl
  exact (writes_of_part hpushes).congr fun t => List.all_eq_true.symm

end Gaps

section Literals

/-- A character that is escaped where need be stands for itself. -/
theorem pushes_escape (c : Char) : Pushes (escape c) [.one (.char c)] := by
  rw [escape]
  split
  · next hspecial =>
    have hall : ∀ d ∈ "\\.+*?()|[]\x7b\x7d^$#&-~".toList,
        Regex.Reader.isPunctuation d = true ∧ d ≠ 's' ∧ d ≠ 'S' ∧ d ≠ 'd' := by decide
    obtain ⟨hpunctuation, hs, hS, hd⟩ := hall c (by simpa [isSpecial] using hspecial)
    apply Regex.pushes_of_ready ⟨'\\', rfl, by decide⟩ (.inr (.inl rfl))
    intro outer earlier parts
    simp [Regex.Reader.run, Regex.Reader.step, Regex.Reader.readPart, Regex.Reader.readEscape, hpunctuation, hs, hS, hd,
      Regex.Reader.push, Regex.Branches.push]
  · next hplain =>
    have hne : ∀ d ∈ "\\.+*?()|[]\x7b\x7d^$#&-~".toList, c ≠ d := by
      rintro d hd rfl
      exact hplain (by simpa [isSpecial] using hd)
    simp only [String.reduceToList, List.forall_mem_cons] at hne
    obtain ⟨hslash, hdot, hplus, hstar, hmark, hopen, hclose, hbar, hbracket, hbracket', hbrace,
      hbrace', hhat, hdollar, _⟩ := hne
    apply Regex.pushes_of_ready ⟨c, rfl, hstar, hplus, hmark, hbrace⟩ (.inr (.inl rfl))
    intro outer earlier parts
    simp [Regex.Reader.run, Regex.Reader.step, Regex.Reader.readPart, Regex.Reader.literal, Regex.Reader.push,
      Regex.Branches.push, hslash, hdot, hplus, hstar, hmark, hopen, hclose, hbar, hbracket,
      hbracket', hbrace, hbrace', hhat, hdollar]

private theorem writes_escape (c : Char) : Writes (escape c) fun t => t = [c] := by
  refine (writes_of_part (pushes_escape c)).congr fun t => ?_
  constructor
  · rintro ⟨x, rfl, hx⟩
    rw [eq_of_beq hx]
  · rintro rfl
    exact ⟨c, rfl, beq_self_eq_true c⟩

/-- The pattern text of literal text describes the texts that differ from it in their white space
    alone. -/
theorem writes_renderLiteral {t : Text} (ht : t.IsSingleSpaced) :
    Writes (renderLiteral t) (Relaxes t) := by
  induction t with
  | nil => exact Regex.writes_nil.congr fun _ => relaxes_nil_iff.symm
  | cons c t ih =>
    obtain ⟨hhead, htail⟩ := List.isChain_cons.mp ht
    rw [renderLiteral, List.flatMap_cons]
    by_cases hc : isSpace c = true
    · rw [if_pos hc]
      exact (writes_gap.append (ih htail)).congr fun u =>
        (relaxes_cons_iff_of_space hc fun d hd => hhead d hd hc).symm
    · rw [if_neg hc]
      refine ((writes_escape c).append (ih htail)).congr fun u => ?_
      rw [relaxes_cons_iff_of_visible (Bool.not_eq_true _ ▸ hc)]
      constructor
      · rintro ⟨_, v, rfl, rfl, hv⟩
        exact ⟨v, rfl, hv⟩
      · rintro ⟨v, rfl, hv⟩
        exact ⟨[c], v, rfl, rfl, hv⟩

end Literals

section Fragments

/-- What reading a piece of a pattern makes of an empty group. -/
private def readInGroup (piece : Text) : Regex.Reader :=
  (Regex.Reader.run ⟨[], .start, false, .ready⟩ piece).getD .start

/-- A fragment is read alike in every group in which case counts. -/
private theorem run_fragment (outer : List (Regex.Branches × Bool)) (earlier : Option Regex)
    (parts : List Regex) : ∀ p ∈ Placeholder.table,
      Regex.Reader.run ⟨outer, ⟨earlier, parts⟩, false, .ready⟩ p.fragment =
        some ⟨outer, ⟨earlier, (readInGroup p.fragment).inner.parts ++ parts⟩, false,
          (readInGroup p.fragment).stage⟩ :=
  List.map_inj_left.mp rfl

theorem writes_fragment {p : Placeholder} (hp : p ∈ Placeholder.table) :
    Writes p.fragment p.Fills := by
  have hhead : ∀ p ∈ Placeholder.table,
      ∃ c ∈ p.fragment.head?, c ≠ '*' ∧ c ≠ '+' ∧ c ≠ '?' ∧ c ≠ '\x7b' := by decide
  have hopen : ∀ p ∈ Placeholder.table, (readInGroup p.fragment).stage ∈
      [Regex.Stage.ready, .part, .repeated] := by decide
  have hpushes : Pushes p.fragment (readInGroup p.fragment).inner.parts.reverse := by
    have hnext : (readInGroup p.fragment).stage.IsOpen := by
      simpa [Regex.Stage.IsOpen] using hopen p hp
    apply Regex.pushes_of_ready (hhead p hp) hnext
    intro outer earlier parts
    rw [run_fragment outer earlier parts p hp, List.reverse_reverse]
  refine ⟨_, hpushes, fun t => ?_⟩
  have hread := Regex.read?_of_pushes hpushes
  rw [← Regex.describes_sequence]
  constructor
  · intro h
    exact ⟨_, hread, h⟩
  · rintro ⟨r, hr, h⟩
    rw [hread] at hr
    cases hr
    exact h

end Fragments

section Bodies

private theorem writes_segments {segments : List Segment}
    (h : ∀ segment ∈ segments, Writes segment.render segment.Matches) :
    Writes (segments.flatMap Segment.render) fun t =>
      ∃ ts, t = ts.flatten ∧ List.Forall₂ Segment.Matches segments ts := by
  induction segments with
  | nil =>
    refine Regex.writes_nil.congr fun t => ?_
    constructor
    · rintro rfl
      exact ⟨[], rfl, .nil⟩
    · rintro ⟨_, rfl, ⟨⟩⟩
      rfl
  | cons segment segments ih =>
    obtain ⟨hsegment, hsegments⟩ := List.forall_mem_cons.mp h
    rw [List.flatMap_cons]
    refine (hsegment.append (ih hsegments)).congr fun t => ?_
    constructor
    · rintro ⟨u, _, rfl, hu, us, rfl, hus⟩
      exact ⟨u :: us, rfl, .cons hu hus⟩
    · rintro ⟨_, rfl, _ | ⟨hu, hus⟩⟩
      exact ⟨_, _, List.flatten_cons, hu, _, rfl, hus⟩

/-- The pattern text of a template without its keyword describes what the segments match. -/
theorem writes_renderBody {body : Text} (hbody : body.IsSingleSpaced) :
    Writes (renderBody body) (Matches body) := by
  apply writes_segments
  intro segment hsegment
  cases segment with
  | literal t => exact writes_renderLiteral (hbody.of_isInfix (Segment.isInfix_of_literal_mem hsegment))
  | placeholder p => exact writes_fragment (Segment.isCut_of_mem_ofTemplate hsegment)

end Bodies

section Keywords

/-- The expression for a word in any case. -/
private def wordRegex (keyword : Keyword) : Regex :=
  .sequence (keyword.word.map fun c => .one (.letter c))

private theorem describes_wordRegex {keyword : Keyword} {t : Text} :
    (wordRegex keyword).Describes t ↔ Spells keyword t := by
  rw [wordRegex, Regex.describes_sequence, Spells]
  generalize keyword.word = word
  induction word generalizing t with
  | nil => exact List.map_eq_nil_iff.symm
  | cons c word ih =>
    rw [List.map_cons, List.map_cons, List.map_eq_cons_iff]
    constructor
    · rintro ⟨_, v, rfl, ⟨x, rfl, hx⟩, hv⟩
      exact ⟨x, v, rfl, eq_of_beq hx, ih.mp hv⟩
    · rintro ⟨x, v, rfl, hx, hv⟩
      exact ⟨[x], v, rfl, ⟨x, rfl, beq_iff_eq.mpr hx⟩, ih.mpr hv⟩

private theorem describes_foldl_alt {r : Regex} {keywords : List Keyword} {t : Text} :
    (keywords.foldl (fun r keyword => .alt r (wordRegex keyword)) r).Describes t ↔
      r.Describes t ∨ ∃ keyword ∈ keywords, Spells keyword t := by
  induction keywords generalizing r with
  | nil => simp
  | cons keyword keywords ih =>
    rw [List.foldl_cons, ih, List.exists_mem_cons_iff, ← or_assoc, ← describes_wordRegex]
    rfl

private theorem writes_keywords {first : Keyword} {others : List Keyword}
    (h : ∀ outer earlier parts,
      Regex.Reader.run ⟨outer, ⟨earlier, parts⟩, false, .ready⟩ (renderKeywords (first :: others)) =
        some ⟨outer, ⟨earlier, others.foldl (fun r keyword => .alt r (wordRegex keyword))
          (wordRegex first) :: parts⟩, false, .part⟩) :
    Writes (renderKeywords (first :: others)) fun t =>
      ∃ keyword ∈ first :: others, Spells keyword t := by
  have hpushes : Pushes (renderKeywords (first :: others))
      [others.foldl (fun r keyword => .alt r (wordRegex keyword)) (wordRegex first)] :=
    Regex.pushes_of_ready ⟨'(', rfl, by decide⟩ (.inr (.inl rfl)) h
  refine (writes_of_part hpushes).congr fun t => ?_
  rw [describes_foldl_alt, List.exists_mem_cons_iff, describes_wordRegex]

theorem writes_renderKeywords_singleton (keyword : Keyword) :
    Writes (renderKeywords [keyword]) (Spells keyword) := by
  have hwrites : Writes (renderKeywords [keyword]) fun t => ∃ other ∈ [keyword], Spells other t := by
    apply writes_keywords
    intro outer earlier parts
    cases keyword <;> rfl
  exact hwrites.congr fun t => by simp

theorem writes_renderKeywords (rulebook : Rulebook) :
    Writes (renderKeywords rulebook.keywords) fun t =>
      ∃ keyword ∈ rulebook.keywords, Spells keyword t := by
  cases rulebook <;> exact writes_keywords fun _ _ _ => rfl

end Keywords

section Patterns

/-- Between its anchors and the white space beside them, the pattern text of a template describes
    what fits the template. -/
private theorem exists_render_eq (rulebook : Rulebook) {template : Text}
    (htemplate : template.IsSingleSpaced) :
    ∃ lead, render rulebook template = "^\\s*".toList ++ lead ++ "\\s*$".toList ∧
      Writes lead (Fits rulebook template) := by
  cases hdetect : Keyword.detect template with
  | some found =>
    obtain ⟨keyword, rest⟩ := found
    have hrest := htemplate.of_isInfix (Keyword.isSuffix_of_detect hdetect).isInfix
    refine ⟨renderKeywords [keyword] ++ renderBody rest, by rw [render, hdetect], ?_⟩
    refine ((writes_renderKeywords_singleton keyword).append (writes_renderBody hrest)).congr
      fun t => ?_
    rw [Fits, hdetect]
  | none =>
    refine ⟨renderKeywords rulebook.keywords ++ ("\\s+".toList ++ renderBody template),
      by rw [render, hdetect, List.append_assoc _ "\\s+".toList], ?_⟩
    refine ((writes_renderKeywords rulebook).append
      (writes_gap.append (writes_renderBody htemplate))).congr fun t => ?_
    rw [Fits, hdetect]
    constructor
    · rintro ⟨word, _, rfl, hword, gap, body, rfl, hgap, hbody⟩
      exact ⟨word, gap, body, rfl, hword, hgap, hbody⟩
    · rintro ⟨word, gap, body, rfl, hword, hgap, hbody⟩
      exact ⟨word, gap ++ body, rfl, hword, gap, body, rfl, hgap, hbody⟩

/-- The pattern text of a cleaned-up template can be read, and the expression describes what fits
    the template, with white space around it. -/
theorem exists_read?_render (rulebook : Rulebook) {template : Text}
    (htemplate : template.IsSingleSpaced) :
    ∃ r, Regex.read? (render rulebook template) = some r ∧ ∀ t, r.Describes t ↔
      ∃ lead fit trail, t = lead ++ (fit ++ trail) ∧ lead.isBlank = true ∧
        Fits rulebook template fit ∧ trail.isBlank = true := by
  obtain ⟨lead, hrender, hlead⟩ := exists_render_eq rulebook htemplate
  obtain ⟨r, hread, hdescribes⟩ := (writes_blank.append (hlead.append writes_blank)).read?
  refine ⟨r, ?_, fun t => ?_⟩
  · rw [← hread, hrender]
    simp
  · rw [hdescribes]
    constructor
    · rintro ⟨lead, _, rfl, hlead, fit, trail, rfl, hfit, htrail⟩
      exact ⟨lead, fit, trail, rfl, hlead, hfit, htrail⟩
    · rintro ⟨lead, fit, trail, rfl, hlead, hfit, htrail⟩
      exact ⟨lead, fit ++ trail, rfl, hlead, fit, trail, rfl, hfit, htrail⟩

/-- A pattern as compiling a line of a rulebook makes it. -/
structure Pattern.IsCompiled (rulebook : Rulebook) (raw : Text) (p : Pattern) : Prop where
  template_eq : p.template = normalizeLine raw
  source_eq : p.source = render rulebook p.template
  read_source : Regex.read? p.source = some p.regex

/-- A pattern is compiled from a line that holds a template, if the engine takes its source. -/
theorem Pattern.compile_eq_ok_some_iff {rulebook : Rulebook} {raw : Text} {small : Text → Bool}
    {p : Pattern} : Pattern.compile rulebook raw small = .ok (some p) ↔
      isSkippable (normalizeLine raw) = false ∧
        small (render rulebook (normalizeLine raw)) = true ∧ p.IsCompiled rulebook raw := by
  obtain ⟨r, hread, _⟩ := exists_read?_render rulebook (isSingleSpaced_normalizeLine raw)
  simp only [compile, hread]
  constructor
  · intro h
    split at h
    · cases h
    · rename_i hskip
      split at h
      · rename_i hsmall
        have hp := Option.some.inj (Except.ok.inj h)
        exact ⟨Bool.eq_false_iff.mpr hskip, hsmall, by rw [← hp], by rw [← hp], by rw [← hp, hread]⟩
      · cases h
  · rintro ⟨hskip, hsmall, htemplate, hsource, hregex⟩
    rw [hsource, htemplate, hread] at hregex
    rw [hskip, hsmall, if_neg Bool.false_ne_true, if_pos rfl, ← htemplate, ← hsource,
      Option.some.inj hregex]

/-- The patterns of a rulebook come from its lines. -/
theorem Pattern.exists_isCompiled {rulebook : Rulebook} {text : Text} {small : Text → Bool}
    {p : Pattern} (h : p ∈ patterns rulebook text small) : ∃ raw, p.IsCompiled rulebook raw := by
  obtain ⟨raw, _, hraw⟩ := List.mem_filterMap.mp h
  rw [pattern?] at hraw
  split at hraw
  · next hcompile =>
    subst hraw
    exact ⟨raw, (compile_eq_ok_some_iff.mp hcompile).2.2⟩
  · cases hraw

/-- The pattern of a rulebook's line accepts exactly the lines that fit the cleaned-up template,
    with any white space around what fits. -/
theorem Pattern.accepts_iff_fits {rulebook : Rulebook} {raw : Text} {small : Text → Bool}
    {p : Pattern} (h : Pattern.compile rulebook raw small = .ok (some p)) (line : Text) :
    p.accepts line = true ↔ ∃ lead fit trail, line.trim = lead ++ (fit ++ trail) ∧
      lead.isBlank = true ∧ Fits rulebook (normalizeLine raw) fit ∧ trail.isBlank = true := by
  obtain ⟨r, hread, hdescribes⟩ :=
    exists_read?_render rulebook (isSingleSpaced_normalizeLine raw)
  have hcompiled := (compile_eq_ok_some_iff.mp h).2.2
  have hregex : p.regex = r := by
    have hsource := hcompiled.read_source
    rw [hcompiled.source_eq, hcompiled.template_eq, hread] at hsource
    exact (Option.some.inj hsource).symm
  rw [Pattern.accepts, hregex, Regex.accepts_iff, hdescribes]

theorem Pattern.accepts_of_filled_url : ∃ p,
    Pattern.compile .step "1. given a.b <url> - note".toList = .ok (some p) ∧
      p.accepts "GIVEN a.b\thttp://h ".toList = true := by
  have haccepts : ∀ p, Pattern.compile .step "1. given a.b <url> - note".toList = .ok (some p) →
      _ := fun _ h => (Pattern.accepts_iff_fits h "GIVEN a.b\thttp://h ".toList).mpr
  refine ⟨_, rfl, haccepts _ rfl ?_⟩
  have hvisible : ∀ c ∈ "ttp://h".toList, CharClass.visible.has c = true := by decide
  have hgap : Relaxes ([' '] ++ []) (['\t'] ++ []) :=
    .gap (by decide) (by decide) (by decide) .nil
  have hliteral : Relaxes ([' '] ++ "a.b ".toList) ([' '] ++ "a.b\t".toList) :=
    .gap (by decide) (by decide) (by decide) (.visible rfl (.visible rfl (.visible rfl hgap)))
  have hurl : Placeholder.Fills ⟨"<url>".toList, "\\S+".toList⟩ "http://h".toList :=
    ⟨.seq (.one .visible) (.many .visible), rfl, ['h'], _, rfl, ⟨'h', rfl, rfl⟩, hvisible⟩
  exact ⟨[], "GIVEN a.b\thttp://h".toList, [], rfl, rfl,
    ⟨"GIVEN".toList, _, rfl, rfl, [" a.b\t".toList, "http://h".toList], rfl,
      .cons hliteral (.cons hurl .nil)⟩, rfl⟩

end Patterns

end ScenarioLint.Template
