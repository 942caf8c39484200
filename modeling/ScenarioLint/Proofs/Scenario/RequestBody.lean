import ScenarioLint.Proofs.Gherkin.StepPlace
import ScenarioLint.Proofs.Scenario.Grammatical
import ScenarioLint.Proofs.Scenario.Output

/-!
A request block that a repair puts in is read as it was meant: as a step with a docstring that holds
the written example of the body.

If a docstring were open above the block, the first mark of the block would close it, and the reader
could make nothing of the JSON text behind that mark.
-/

namespace ScenarioLint.Scenario

open Gherkin (Document Docstring Kind Lead Line Mode Place Step StepWord Token Unindented IsFiller
  IsIndentation IsDescriptionLine)

section Uses

variable {indent t : Text} {lead : Lead} {m n : Mode} {kind : Kind} {tokens : List Token}
  {body : Json.Value}

theorem trimStart_of_isFiller (h : IsFiller t) :
    t.trimStart = [] ∨ t.trimStart.head? = some '#' := by
  obtain ⟨ind, rest, hind, rfl, hrest⟩ := h
  rw [Text.trimStart_append_of_isBlank (Gherkin.isBlank_of_isIndentation hind)]
  rcases hrest with rfl | hrest
  · exact .inl rfl
  · obtain ⟨more, rfl⟩ := List.head?_eq_some_iff.mp hrest
    exact .inr rfl

/-- The lead of a line stands in front of its first visible character. -/
theorem split_of_opens {ind more : Text} (h : lead.Opens ind more (indent ++ t))
    (hindent : indent.isBlank = true) (hstart : ∀ c, t.head? = some c → isSpace c = false) :
    ind = indent ∧ t = lead.text ++ more := by
  obtain ⟨hind, hsplit⟩ := h
  have htext : t = lead.text ++ more := by
    have htrim := congrArg Text.trimStart hsplit
    rwa [Gherkin.trimStart_of_split hind,
      Text.trimStart_append_of_head hindent hstart] at htrim
  refine ⟨?_, htext⟩
  rw [htext] at hsplit
  exact (List.append_cancel_right hsplit).symm

/-- Outside docstrings a line with visible text has a lead or describes a header. -/
theorem exists_lead_of_next (h : m.Next (kind, indent ++ t) n) (hm : m.Outside)
    (hindent : indent.isBlank = true)
    (hstart : ∃ c, t.head? = some c ∧ isSpace c = false ∧ c ≠ '#')
    (hplain : m = .described → ¬ IsDescriptionLine (indent ++ t)) :
    ∃ lead more, kind = .lead lead ∧ n = lead.mode ∧ lead.Opens indent more (indent ++ t) ∧
      t = lead.text ++ more := by
  obtain ⟨c, hhead, hspace, hcomment⟩ := hstart
  have hvisible : ∀ d, t.head? = some d → isSpace d = false := by
    intro d hd
    rw [hhead] at hd
    rwa [← Option.some.inj hd]
  cases h with
  | filler _ hline =>
    have hfiller := trimStart_of_isFiller hline
    rw [Text.trimStart_append_of_head hindent hvisible, hhead] at hfiller
    rcases hfiller with rfl | hfiller
    · cases hhead
    · exact absurd (Option.some.inj hfiller) hcomment
  | description hline => exact absurd hline (hplain rfl)
  | @lead _ lead ind more _ _ hopens _ =>
    obtain ⟨rfl, htext⟩ := split_of_opens hopens hindent hvisible
    exact ⟨lead, more, rfl, rfl, hopens, htext⟩
  | content | closing => cases hm

theorem eq_of_text_append {own : Lead} {more rest : Text}
    (h : own.text ++ more = lead.text ++ rest) : lead = own ∧ rest = more := by
  have hafter := Lead.after?_text lead own more
  rw [Text.after?_eq_some_iff.mpr h] at hafter
  split at hafter
  · rename_i hsame
    exact ⟨hsame, Option.some.inj hafter⟩
  · cases hafter

/-- The first line of a written value. -/
theorem exists_first_line (body : Json.Value) : ∃ c line more,
    body.pretty.lines = (c :: line) :: more ∧ isSpace c = false ∧ c ≠ '#' ∧
      ∀ lead rest, c :: line ≠ Lead.text lead ++ rest := by
  obtain ⟨c, rest, hpretty, hc⟩ := body.exists_head_pretty
  have hvisible : isSpace c = false ∧ c ≠ '\n' ∧ c ≠ '#' ∧
      ∀ lead ∈ Lead.all, lead.text.head? = some c → lead = .quotes := by
    rcases hc with hc | hc
    · have hall : ∀ c ∈ ['n', 't', 'f', '"', '[', '\x7b'], isSpace c = false ∧ c ≠ '\n' ∧ c ≠ '#' ∧
          ∀ lead ∈ Lead.all, lead.text.head? = some c → lead = .quotes := by
        decide
      exact hall c hc
    · have hall : ∀ lead ∈ Lead.all, ∀ c ∈ lead.text.head?, isNumeral c = false := by
        decide
      refine ⟨(Json.visible_of_isNumeral hc).1, ?_, ?_, fun lead hlead hhead => ?_⟩
      · rintro rfl
        cases hc
      · rintro rfl
        cases hc
      · rw [hall lead hlead c hhead] at hc
        cases hc
  obtain ⟨hspace, hfeed, hcomment, hlead⟩ := hvisible
  obtain ⟨line, more, _, hpieces⟩ := Text.exists_pieces_cons hfeed rest
  have hlines : body.pretty.lines = (c :: line) :: more := by
    rw [body.lines_pretty, hpretty, hpieces]
  refine ⟨c, line, more, hlines, hspace, hcomment, fun lead tail hsplit => ?_⟩
  obtain ⟨d, hd, _⟩ := lead.exists_head
  have hhead : lead.text.head? = some c := by
    obtain ⟨front, hfront⟩ := List.head?_eq_some_iff.mp hd
    rw [hfront, List.cons_append] at hsplit
    rw [hd, (List.cons.inj hsplit).1]
  obtain rfl := hlead lead lead.mem_all hhead
  obtain ⟨_, _, hquotes⟩ := Json.Value.line_spec (hlines ▸ List.mem_cons_self)
  rw [hsplit, Text.trimStart_of_head (fun d hd => by cases hd; rfl)] at hquotes
  exact hquotes (List.prefix_append _ _)

/-- No line of a request block ends in a carriage return. -/
theorem map_dropReturn_requestBlock (hindent : indent.isBlank = true)
    (hindentFeed : '\n' ∉ indent) (body : Json.Value) :
    (requestBlock indent body).map Text.dropReturn = requestBlock indent body := by
  refine (List.map_congr_left fun line hline => ?_).trans (List.map_id _)
  exact Text.dropReturn_of_getLast
    (readable_of_mem_requestBlock hindent hindentFeed hline).carriage

/-- Inside a docstring the lines up to the first closing mark are its content. -/
theorem tokens_of_inside {lines : List Text} {last : Text}
    (h : (Mode.inside .quotes).Passes tokens n) (htokens : tokens.map Prod.snd = lines ++ [last])
    (hlines : ∀ line ∈ lines, line.trim ≠ docstringMark) (hlast : last.trim = docstringMark) :
    tokens = lines.map (Kind.content, ·) ++ [(.closing, last)] := by
  induction lines generalizing tokens with
  | nil =>
    obtain ⟨⟨kind, line⟩, rest, rfl, rfl, hrest⟩ := List.map_eq_cons_iff.mp htokens
    obtain rfl := List.map_eq_nil_iff.mp hrest
    obtain ⟨k, hnext, _⟩ := Mode.passes_cons_iff.mp h
    cases hnext with
    | closing => rfl
    | content hne => exact absurd hlast hne
    | filler hm | lead hm => cases hm
  | cons line lines ih =>
    obtain ⟨⟨kind, other⟩, rest, rfl, rfl, hrest⟩ := List.map_eq_cons_iff.mp htokens
    obtain ⟨hline, hmore⟩ := List.forall_mem_cons.mp hlines
    obtain ⟨k, hnext, hpasses⟩ := Mode.passes_cons_iff.mp h
    cases hnext with
    | closing heq => exact absurd heq hline
    | content => rw [ih hpasses hrest hmore]; rfl
    | filler hm | lead hm => cases hm

/-- The lines of a request block with their uses. -/
def requestTokens (indent : Text) (body : Json.Value) : List Token :=
  [(.lead (.step .and), indent ++ "And request".toList),
      (.lead .quotes, indent ++ docstringMark)] ++
    ((body.pretty.lines.map (indent ++ ·)).map (Kind.content, ·) ++
      [(.closing, indent ++ docstringMark)])

theorem trim_line_pretty (hindent : indent.isBlank = true) {line : Text}
    (h : line ∈ body.pretty.lines) : Text.trim (indent ++ line) ≠ docstringMark :=
  trim_ne_docstringMark (hasMark_line_pretty hindent h)

/-- The reader goes over the step and the opening mark of a request block, and over the rest. -/
theorem exists_passes_of_requestBlock (htokens : tokens.map Prod.snd = requestBlock indent body)
    (h : m.Passes tokens n) :
    ∃ first second inner k l,
      tokens = (first, indent ++ "And request".toList) :: (second, indent ++ docstringMark) :: inner ∧
        inner.map Prod.snd = body.pretty.lines.map (indent ++ ·) ++ [indent ++ docstringMark] ∧
        m.Next (first, indent ++ "And request".toList) k ∧
        k.Next (second, indent ++ docstringMark) l ∧ l.Passes inner n := by
  rw [requestBlock_eq] at htokens
  obtain ⟨⟨first, _⟩, rest, rfl, rfl, hrest⟩ := List.map_eq_cons_iff.mp htokens
  obtain ⟨⟨second, _⟩, inner, rfl, rfl, hinner⟩ := List.map_eq_cons_iff.mp hrest
  obtain ⟨k, hfirst, hmore⟩ := Mode.passes_cons_iff.mp h
  obtain ⟨l, hsecond, hbehind⟩ := Mode.passes_cons_iff.mp hmore
  exact ⟨first, second, inner, k, l, rfl, hinner, hfirst, hsecond, hbehind⟩

/-- A request block cannot be read inside a docstring: its first mark closes the docstring, and no
    JSON text can be read behind that. -/
theorem not_passes_requestBlock (hindent : indent.isBlank = true)
    (htokens : tokens.map Prod.snd = requestBlock indent body) :
    ¬ (Mode.inside .quotes).Passes tokens n := by
  intro h
  obtain ⟨_, _, inner, _, _, rfl, hinner, hfirst, hsecond, hbehind⟩ :=
    exists_passes_of_requestBlock htokens h
  cases hfirst with
  | filler hout | lead hout => cases hout
  | closing htrim => exact trim_ne_docstringMark (hasMark_requestStep hindent) htrim
  | content =>
    cases hsecond with
    | filler hout | lead hout => cases hout
    | content hne => exact hne (trim_indent_docstringMark hindent)
    | closing =>
      obtain ⟨c, line, more, hlines, hspace, hcomment, hlead⟩ := exists_first_line body
      rw [hlines] at hinner
      obtain ⟨⟨kind, other⟩, _, rfl, rfl, _⟩ := List.map_eq_cons_iff.mp hinner
      obtain ⟨_, hthird, _⟩ := Mode.passes_cons_iff.mp hbehind
      obtain ⟨own, tail, _, _, _, hsplit⟩ := exists_lead_of_next hthird trivial hindent
        ⟨c, rfl, hspace, hcomment⟩ nofun
      exact hlead own tail hsplit

/-- There is but one way to read a request block. -/
theorem tokens_of_requestBlock (hindent : indent.isBlank = true)
    (hm : ∀ lead, m = .inside lead → lead = .quotes) (h : m.Passes tokens n)
    (htokens : tokens.map Prod.snd = requestBlock indent body) :
    IsIndentation indent ∧ tokens = requestTokens indent body := by
  cases m with
  | inside lead =>
    obtain rfl := hm lead rfl
    exact absurd h (not_passes_requestBlock hindent htokens)
  | plain | described =>
    obtain ⟨_, _, inner, _, _, rfl, hinner, hfirst, hsecond, hbehind⟩ :=
      exists_passes_of_requestBlock htokens h
    have hplain : ¬ IsDescriptionLine (indent ++ "And request".toList) := by
      rintro ⟨_, hstart⟩
      apply hstart "And ".toList (by decide)
      rw [Text.trim_append_left hindent]
      exact ⟨"request".toList, by decide⟩
    obtain ⟨own, more, rfl, rfl, hopens, hsplit⟩ := exists_lead_of_next hfirst trivial hindent
      ⟨'A', rfl, by decide⟩ fun _ => hplain
    have hrequest : own.text ++ more = (Lead.step .and).text ++ "request".toList := hsplit.symm
    obtain ⟨rfl, rfl⟩ := eq_of_text_append hrequest
    obtain ⟨own, more, rfl, rfl, _, hsplit⟩ := exists_lead_of_next hsecond trivial hindent
      ⟨'"', rfl, by decide⟩ nofun
    have hquotes : own.text ++ more = Lead.quotes.text ++ [] := hsplit.symm
    obtain ⟨rfl, rfl⟩ := eq_of_text_append hquotes
    refine ⟨hopens.1, ?_⟩
    have hcontent : ∀ line ∈ body.pretty.lines.map (indent ++ ·), line.trim ≠ docstringMark :=
      List.forall_mem_map.mpr fun _ => trim_line_pretty hindent
    rw [tokens_of_inside hbehind hinner hcontent (trim_indent_docstringMark hindent)]
    rfl

end Uses

section Step

variable {indent : Text} {body : Json.Value} {tokens back : List Token} {doc : Document} {i : Nat}

/-- The step that a request block stands for, where its first line has the number `n`. -/
def requestStep (body : Json.Value) (n : Nat) : Step :=
  ⟨.and, "request".toList, n, some (.docstring ⟨none, body.pretty, n + 1⟩)⟩

theorem derived_requestStep (hindent : IsIndentation indent) (body : Json.Value) (n : Nat) :
    (requestStep body n).Derived n (requestTokens indent body) := by
  have hblank := Gherkin.isBlank_of_isIndentation hindent
  have hcontent : ∀ line ∈ body.pretty.lines.map (indent ++ ·), line.trim ≠ Lead.quotes.text := by
    exact List.forall_mem_map.mpr fun _ => trim_line_pretty hblank
  have hunindented : List.Forall₂ (Unindented indent) (body.pretty.lines.map (indent ++ ·))
      body.pretty.lines := by
    rw [List.forall₂_map_left_iff, List.forall₂_same]
    exact fun line _ => .removed line
  have hjoin : Text.join ['\n'] body.pretty.lines = body.pretty := by
    rw [body.lines_pretty, Text.join_pieces]
  have hdocstring : Docstring.Derived (n + 1) (requestTokens indent body).tail
      ⟨none, body.pretty, n + 1⟩ :=
    ⟨.quotes, indent, [], indent ++ docstringMark, _, _, indent ++ docstringMark, .inl rfl,
      ⟨hindent, rfl⟩, hcontent, trim_indent_docstringMark hblank, hunindented, by rw [hjoin]; rfl,
      rfl⟩
  refine ⟨(.lead (.step .and), indent ++ "And request".toList), _,
    ⟨indent, "request".toList, _, ⟨hindent, rfl⟩, rfl, rfl⟩, rfl, ?_, rfl⟩
  exact Gherkin.series_singleton ⟨[], _, Gherkin.fillers_nil, hdocstring, rfl⟩

/-- Where a request block is read, its step is a step of the document. -/
theorem requestStep_mem_steps (h : doc.Derived tokens) (hindent : IsIndentation indent)
    (hblock : tokens.drop i = requestTokens indent body ++ back) :
    requestStep body (i + 1) ∈ doc.steps := by
  have hline : tokens[i]? = some (.lead (.step .and), indent ++ "And request".toList) := by
    rw [← Nat.add_zero i, ← List.getElem?_drop, hblock]
    rfl
  obtain ⟨s, hs, _, _, hstands⟩ := h.exists_step hline
  rwa [← hstands.eq_of_derived hblock (derived_requestStep hindent body (i + 1)) rfl]

end Step

section Layout

variable {options : RepairOptions} {e : Endpoint} {indent line : Text} {body : Json.Value}
  {front back lines block result : List Text} {blocks : List (List Text)} {endpointAt i : Nat}

theorem dropWhile_append_cons (h : line.isBlank = false) :
    (front ++ line :: back).dropWhile Text.isBlank =
      front.dropWhile Text.isBlank ++ line :: back := by
  induction front with
  | nil => rw [List.nil_append, List.dropWhile_cons_of_neg (by simp [h])]; rfl
  | cons first front ih =>
    rw [List.cons_append, List.dropWhile_cons, List.dropWhile_cons]
    split
    · exact ih
    · rfl

/-- What stands between two visible lines is not touched when the ends are trimmed. -/
theorem trimLines_append_cons {last : Text} (h : line.isBlank = false)
    (hlast : last.isBlank = false) (inner : List Text) :
    trimLines (front ++ line :: (inner ++ last :: back)) =
      front.dropWhile Text.isBlank ++ line :: (inner ++ last :: back.rdropWhile Text.isBlank) := by
  have hreverse : (front.dropWhile Text.isBlank ++ line :: (inner ++ last :: back)).reverse =
      back.reverse ++ last :: (front.dropWhile Text.isBlank ++ line :: inner).reverse := by
    simp
  rw [trimLines_eq, dropWhile_append_cons h, List.rdropWhile, hreverse, dropWhile_append_cons hlast]
  simp [List.rdropWhile]

/-- Nor is a request block behind a visible line touched, or what stands between the two. -/
theorem trimLines_append_requestBlock (hindent : indent.isBlank = true) (h : line.isBlank = false)
    (body : Json.Value) (front inner back : List Text) :
    trimLines (front ++ line :: inner ++ (requestBlock indent body ++ back)) =
      front.dropWhile Text.isBlank ++ line :: inner ++
        (requestBlock indent body ++ back.rdropWhile Text.isBlank) := by
  have hlast : Text.isBlank (indent ++ docstringMark) = false := by
    rw [← Text.isEmpty_trim, trim_indent_docstringMark hindent]
    rfl
  obtain ⟨block, hblock, _⟩ := requestBlock_eq_append hindent body
  have hlines :
      trimLines (front ++ line :: (inner ++ block ++ (indent ++ docstringMark) :: back)) = _ :=
    trimLines_append_cons h hlast (inner ++ block)
  rw [hblock]
  simpa using hlines

theorem Woven.append_left (h : Woven blocks lines result) (front : List Text) :
    Woven blocks (front ++ lines) (front ++ result) := by
  induction front with
  | nil => exact h
  | cons line front ih => exact .line line ih

/-- The line that sends the request goes in front of a request block, but behind the endpoint line,
    or behind the block. -/
theorem exists_withExecution_requestBlock (hindent : indent.isBlank = true)
    (hlt : endpointAt < front.length) (houtside : Role.insideAfter false front = false)
    (e : Endpoint) (body : Json.Value) (back : List Text) :
    (∃ more, withExecution e indent endpointAt (front ++ (requestBlock indent body ++ back)) =
        front ++ (requestBlock indent body ++ more)) ∨
      ∃ i, endpointAt < i ∧ i ≤ front.length ∧
        withExecution e indent endpointAt (front ++ (requestBlock indent body ++ back)) =
          insertAt front i [executionLineOf e indent] ++ (requestBlock indent body ++ back) := by
  have hblock := insertAt_length_append front back (requestBlock indent body)
  have hle : front.length ≤ (front ++ back).length := List.length_append ▸ Nat.le_add_right _ _
  have hapart := lastSetupLine?_requestBlock hindent hle (by rwa [List.take_left]) hlt body
  have hbehind : endpointAt ≤ (lastSetupLine? endpointAt (insertAt (front ++ back) front.length
      (requestBlock indent body))).getD endpointAt := by
    cases hlast : lastSetupLine? endpointAt _ with
    | none => exact Nat.le_refl _
    | some i => exact le_of_lastSetupLine? hlast
  rw [hblock] at hapart hbehind
  rw [withExecution]
  split
  · exact .inl ⟨back, rfl⟩
  · dsimp only
    generalize (lastSetupLine? endpointAt (front ++ (requestBlock indent body ++ back))).getD
      endpointAt = i at hapart hbehind ⊢
    rcases hapart with hle | hle
    · exact .inr ⟨i + 1, Nat.lt_succ_of_le hbehind, hle, insertAt_append_of_le hle⟩
    · obtain ⟨k, hk⟩ := Nat.exists_eq_add_of_le hle
      refine .inl ⟨insertAt back k [executionLineOf e indent], ?_⟩
      rw [hk, Nat.add_assoc, insertAt_append_add, insertAt_append_add]
      rfl

/-- A request block stands in the output behind what stood in front of it, without blank lines at
    the start and perhaps with the line that sends the request. -/
theorem exists_trimLines_repairedLines (hpath : '\n' ∉ e.path)
    (hhost : ∀ host ∈ e.host, '\n' ∉ host) (hstep : options.stepIndent.isBlank = true)
    (hbody : e.body? = some body) (hlacks : hasBodyBlock (headedLines options e lines).1 = false) :
    ∃ front back sent, sent.Sublist [[executionLineOf e (stepIndentOf options lines)]] ∧
      Woven sent (((headedLines options e lines).1.take
        ((headedLines options e lines).2 + 1)).dropWhile Text.isBlank) front ∧
      trimLines (repairedLines options e lines) =
        front ++ (requestBlock (stepIndentOf options lines) body ++ back) := by
  have hindent := isBlank_stepIndentOf hstep lines
  simp only [headedLines] at hlacks ⊢
  simp only [repairedLines, withRequest, hbody]
  generalize stepIndentOf options lines = indent at hindent hlacks ⊢
  have hendpoint := endpointAt_withEndpoint hindent hhost hpath lines
  generalize withEndpoint e indent lines = found at hendpoint hlacks ⊢
  obtain ⟨hat, _, hle, houtside⟩ := withHeader_spec hindent hendpoint options
  have hanchor := lt_length_withHeader hendpoint.lt_length options indent
  generalize withHeader options indent found.2 found.1 = headed at hat hle houtside hanchor hlacks ⊢
  obtain ⟨headed, anchor⟩ := headed
  dsimp only at hat hle houtside hanchor hlacks ⊢
  rw [hlacks, if_neg Bool.false_ne_true, insertAt_eq_append]
  obtain ⟨pre, line, post, rfl, hpre, _, _, hline, _⟩ := hat
  have hvisible := not_isBlank_of_endpointLine hline
  obtain ⟨k, hk⟩ := Nat.exists_eq_add_of_le hle
  have htake : (pre ++ line :: post).take (anchor + 1) = pre ++ line :: post.take k := by
    rw [hk, ← hpre, Nat.add_assoc, List.take_length_add_append, List.take_succ_cons]
  have htrim := trimLines_append_requestBlock hindent hvisible body pre
  have hlength := List.length_take_of_le hanchor
  rw [htake] at hlength houtside ⊢
  rw [dropWhile_append_cons hvisible]
  have hlt : found.2 < (pre ++ line :: post.take k).length := by omega
  obtain ⟨more, hexecution⟩ | ⟨i, hbehind, hi, hexecution⟩ :=
    exists_withExecution_requestBlock hindent hlt houtside e body
      ((pre ++ line :: post).drop (anchor + 1))
  · rw [hexecution, htrim]
    exact ⟨_, _, [], List.nil_sublist _, .refl _, rfl⟩
  · obtain ⟨j, rfl⟩ := Nat.exists_eq_add_of_lt hbehind
    have hinsert : insertAt (pre ++ line :: post.take k) (found.2 + j + 1)
        [executionLineOf e indent] =
        pre ++ line :: insertAt (post.take k) j [executionLineOf e indent] := by
      rw [← hpre, Nat.add_assoc, insertAt_append_add]
      rfl
    obtain ⟨sent, hsent, hwoven⟩ := (Woven.refl (post.take k)).insertAt (by simp)
      [executionLineOf e indent] j
    rw [List.perm_singleton.mp hsent] at hwoven
    rw [hexecution, hinsert, htrim]
    exact ⟨_, _, _, .refl _, (hwoven.line line).append_left _, rfl⟩

end Layout

/-- Whenever a repair puts in a request block and the result can be read, the block is a step with a
    docstring whose content is the written example.  The block stands behind the lines that were in
    front of its place, of which blank ones at the start are gone and to which the line that sends
    the request may have come. -/
theorem requestStep_mem_of_parse_repair {options : RepairOptions} {e : Endpoint} {text : Text}
    {body : Json.Value} {doc : Document} (hpath : '\n' ∉ e.path) (hmethod : '\n' ∉ e.method)
    (hhost : ∀ host ∈ e.host, '\n' ∉ host) (hstep : options.stepIndent.isBlank = true)
    (hstepFeed : '\n' ∉ options.stepIndent) (hcontentType : '\n' ∉ options.contentType)
    (hbody : e.body? = some body)
    (hlacks : hasBodyBlock (headedLines options e (fencelessLines text)).1 = false)
    (hparse : Gherkin.parse (repair options e text) = .ok doc) :
    let indent := stepIndentOf options (fencelessLines text)
    let headed := headedLines options e (fencelessLines text)
    ∃ front back sent, sent.Sublist [[executionLineOf e indent]] ∧
      Woven sent ((headed.1.take (headed.2 + 1)).dropWhile Text.isBlank) front ∧
      repair options e text = Text.unlines (front ++ (requestBlock indent body ++ back)) ∧
      ⟨.and, "request".toList, front.length + 1,
        some (.docstring ⟨none, body.pretty, front.length + 2⟩)⟩ ∈ doc.steps := by
  intro indent headed
  obtain ⟨front, back, sent, hsent, hwoven, hlines⟩ :=
    exists_trimLines_repairedLines hpath hhost hstep hbody hlacks
  obtain ⟨tokens, hderived, htokens, hfence⟩ := exists_tokens_of_repair hpath hmethod hhost hstep
    hstepFeed hcontentType hparse
  have hne := (settled_repairedLines hhost hpath hstep (fencelessLines text)).trimLines.ne_nil
  refine ⟨front, back, sent, hsent, hwoven,
    by rw [repair_eq_unlines options e text hne, hlines], ?_⟩
  have hindent := isBlank_stepIndentOf hstep (fencelessLines text)
  have hindentFeed := feed_not_mem_stepIndentOf hstepFeed
    fun line (hline : line ∈ fencelessLines text) => (stays_of_mem_fencelessLines hline).feed
  rw [hlines, List.map_append, List.map_append, map_dropReturn_requestBlock hindent hindentFeed]
    at htokens
  obtain ⟨above, rest, rfl, habove, hrest⟩ := List.map_eq_append_iff.mp htokens
  obtain ⟨block, below, rfl, hblock, _⟩ := List.map_eq_append_iff.mp hrest
  obtain ⟨n, _, hpasses⟩ := hderived.clears
  obtain ⟨m, hfront, hbehind⟩ := Gherkin.Mode.passes_append_iff.mp hpasses
  obtain ⟨_, hinner, _⟩ := Gherkin.Mode.passes_append_iff.mp hbehind
  have hquotes : ∀ lead, m = .inside lead → lead = .quotes := fun lead hm =>
    eq_quotes_of_inside hfront hm
      (fun token htoken => hderived.allFit token (List.mem_append_left _ htoken))
      fun token htoken => hfence token (List.mem_append_left _ htoken)
  obtain ⟨hindentation, rfl⟩ := tokens_of_requestBlock hindent hquotes hinner hblock
  have hlength : front.length = above.length := by
    rw [← List.length_map Text.dropReturn, ← habove, List.length_map]
  rw [hlength]
  exact requestStep_mem_steps hderived hindentation List.drop_left

/-- An example that holds the mark of a docstring, under steps that a tab indents. -/
theorem requestStep_mem_of_parse_repair_tab :
    let body : Json.Value := .object [(docstringMark, .array [.null, .string "Then\n\"\"\"".toList])]
    let e : Endpoint := ⟨"/users".toList, "post".toList, some "api.test".toList, some body⟩
    let text : Text := "\n# users\nFeature: F\nScenario: s\n\tGiven url '/users'\n\tThen status 200\n".toList
    let headed := headedLines .standard e (fencelessLines text)
    ∃ doc, Gherkin.parse (repair .standard e text) = .ok doc ∧ ∃ front back sent,
      sent.Sublist [[executionLineOf e ['\t']]] ∧
      Woven sent ((headed.1.take (headed.2 + 1)).dropWhile Text.isBlank) front ∧
      repair .standard e text = Text.unlines (front ++ (requestBlock ['\t'] body ++ back)) ∧
      ⟨.and, "request".toList, front.length + 1,
        some (.docstring ⟨none, body.pretty, front.length + 2⟩)⟩ ∈ doc.steps := by
  intro body e text headed
  have hrun : Gherkin.Stage.run (Line.all (repair .standard e text)) (.between .top) =
      some (.step .scenario) := by
    decide +kernel
  obtain ⟨doc, hparse⟩ := (Gherkin.exists_parse_iff _).mpr ⟨_, hrun, rfl⟩
  have hindent : stepIndentOf .standard (fencelessLines text) = ['\t'] := by decide +kernel
  have hblock := requestStep_mem_of_parse_repair (by decide) (by decide) (by decide) (by decide)
    (by decide) (by decide) (rfl : e.body? = some body) (by decide +kernel) hparse
  rw [hindent] at hblock
  exact ⟨doc, hparse, hblock⟩

end ScenarioLint.Scenario
