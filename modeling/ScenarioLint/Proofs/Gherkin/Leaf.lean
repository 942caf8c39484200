import ScenarioLint.Proofs.Gherkin.Place
import ScenarioLint.Proofs.Text.Words

/-!
The readers of single lines and of blocks without further structure: tags, headers, descriptions,
docstrings and tables.
-/

namespace ScenarioLint.Gherkin

theorem prefix_trimEnd_append {front : Text}
    (hlast : ∀ c, front.getLast? = some c → isSpace c = false) (more : Text) :
    front <+: (front ++ more).trimEnd := by
  by_cases hmore : more.trimEnd = []
  · obtain ⟨ws, hws, hblank⟩ := Text.exists_trimEnd_append more
    rw [hmore, List.nil_append] at hws
    have hfront : Text.trimEnd (front ++ ws) = front := Text.trimEnd_append_of_getLast hblank hlast
    exact ⟨[], by rw [hws, hfront, List.append_nil]⟩
  · rw [Text.trimEnd_append_of_not_isBlank front hmore]
    exact List.prefix_append _ _

theorem trim_ne_nil_of_visible {t : Text} (h : t.trim ≠ []) : t.trimEnd ≠ [] := by
  intro hnil
  obtain ⟨ws, hws, hblank⟩ := Text.exists_trimEnd_append t
  rw [hnil, List.nil_append] at hws
  apply h
  have htrim : Text.trim (t ++ ([] ++ [])) = [] := Text.trim_append (hws ▸ hblank) rfl rfl
  simpa using htrim

/-- A written line has its lead, and its text is what the lead's reader trims it to. -/
theorem LeadWritten.leads {ind : Text} {lead : Lead} {text line : Text}
    (h : LeadWritten ind lead text line) (htext : text.trim = text)
    (hstep : ∀ word, lead = .step word → text ≠ []) :
    ∃ more, Leads lead more line ∧ more.trim = text := by
  obtain ⟨pad, trail, hind, hpad, htrail, rfl⟩ := h
  have htrim : Text.trim (pad ++ (text ++ trail)) = text := Text.trim_append hpad htext htrail
  refine ⟨pad ++ (text ++ trail), ⟨⟨ind, hind, rfl⟩, ?_⟩, htrim⟩
  have hall : ∀ lead ∈ Lead.all, (∃ word ∈ StepWord.all, lead = .step word) ∨
      ∀ c ∈ lead.text.getLast?, isSpace c = false := by
    decide
  rcases Lead.forall_of_all hall lead with ⟨word, _, hlead⟩ | hlast
  · have hvisible : (pad ++ (text ++ trail)).trimEnd ≠ [] := by
      apply trim_ne_nil_of_visible
      rw [htrim]
      exact hstep word hlead
    rw [Text.trimEnd_append_of_not_isBlank _ hvisible]
    exact List.prefix_append _ _
  · exact prefix_trimEnd_append hlast _

section Tags

theorem leads_tag {ind first : Text} (tags : List Text) (hind : IsIndentation ind)
    (hfirst : first.head? = some '@') : ∃ more,
      Leads .tag more (ind ++ Text.join [' '] (first :: tags)) ∧
        Line.body (ind ++ Text.join [' '] (first :: tags)) = Text.join [' '] (first :: tags) := by
  obtain ⟨name, rfl⟩ := List.head?_eq_some_iff.mp hfirst
  obtain ⟨more, hmore⟩ : ∃ more, Text.join [' '] (('@' :: name) :: tags) = '@' :: more := by
    cases tags with
    | nil => exact ⟨name, by simp [Text.join]⟩
    | cons tag tags =>
      rw [Text.join_cons_cons]
      exact ⟨_, rfl⟩
  have hleads : Leads .tag more (ind ++ Text.join [' '] (('@' :: name) :: tags)) := by
    refine ⟨⟨ind, hind, by rw [hmore]; rfl⟩, prefix_trimEnd_append ?_ more⟩
    intro c hc
    exact Option.some.inj hc ▸ rfl
  refine ⟨more, hleads, ?_⟩
  rw [hleads.body_eq, hmore]
  rfl

/-- What tags stand in front of: a line with another lead. -/
def OpensWith (lead : Lead) (rest : List Line) : Prop :=
  ∃ more line tail, rest = some line :: tail ∧ Leads lead more line

theorem skipIgnorable_before_tags {lead : Lead} {lines tags : List Text} {rest : List Line}
    (h : TagsWritten lines tags) (hrest : OpensWith lead rest) (n : Nat) :
    (Place.before n lines rest).skipIgnorable = Place.before n lines rest := by
  cases h with
  | nil =>
    obtain ⟨more, line, tail, rfl, hleads⟩ := hrest
    exact Place.skipIgnorable_of_leads hleads n tail
  | cons hind hfirst _ _ =>
    obtain ⟨more, hleads, _⟩ := leads_tag _ hind hfirst
    exact Place.skipIgnorable_of_leads hleads n _

private theorem many_tags {lead : Lead} (hlead : lead ≠ .tag) {lines tags : List Text}
    (h : TagsWritten lines tags) (hgood : ∀ tag ∈ tags, tag ≠ [] ∧ ∀ c ∈ tag, isSpace c = false)
    {rest : List Line} (hrest : OpensWith lead rest) (n : Nat) :
    ∃ groups, (Place.before n lines rest).many (fun p =>
        (p.take Line.tags?).bind fun tags next => .done tags next.skipIgnorable) =
      .done groups ⟨n + lines.length, rest⟩ ∧ groups.flatten = tags := by
  induction h generalizing n with
  | nil =>
    obtain ⟨more, line, tail, rfl, hleads⟩ := hrest
    refine ⟨[], Place.many_of_pass ?_, rfl⟩
    simp [Place.before, Place.take, hleads.tags?_eq, hlead, Reply.bind]
  | @cons ind first tags fillers lines more hind hfirst hfillers hmore ih =>
    obtain ⟨_, hleads, hbody⟩ := leads_tag tags hind hfirst
    have hown : ∀ tag ∈ first :: tags, tag ≠ [] ∧ ∀ c ∈ tag, isSpace c = false :=
      fun tag htag => hgood tag (List.mem_append_left _ htag)
    have htest : Line.tags? (some (ind ++ Text.join [' '] (first :: tags))) =
        some (first :: tags) := by
      rw [hleads.tags?_eq, if_pos rfl, hbody, Text.words_join hown]
    obtain ⟨groups, hgroups, hflatten⟩ := ih
      (fun tag htag => hgood tag (List.mem_append_right _ htag)) (n + 1 + fillers.length)
    have hskip : (Place.mk (n + 1) ((fillers ++ lines).map some ++ rest)).skipIgnorable =
        Place.before (n + 1 + fillers.length) lines rest := by
      rw [← skipIgnorable_before_tags hmore hrest]
      exact Place.skipIgnorable_before_fillers hfillers (n + 1) lines rest
    refine ⟨(first :: tags) :: groups, ?_, by rw [List.flatten_cons, hflatten]⟩
    have hline : ((Place.before n ((ind ++ Text.join [' '] (first :: tags)) :: (fillers ++ lines))
        rest).take Line.tags?).bind (fun tags next => .done tags next.skipIgnorable) =
          .done (first :: tags) (Place.before (n + 1 + fillers.length) lines rest) := by
      rw [Place.before, List.map_cons, List.cons_append, Place.take_cons htest, Reply.bind, hskip]
    rw [Place.many_of_done hline, hgroups, List.length_cons, List.length_append]
    · simp only [Reply.map, Reply.bind, Reply.done.injEq, Place.mk.injEq, and_true, true_and]
      omega
    · simp only [Place.before, List.map_cons, List.map_append, List.cons_append, List.length_cons,
        List.length_append]
      omega

/-- Tags are read up to the header that they belong to. -/
theorem tags_before {lead : Lead} (hlead : lead ≠ .tag) {lines tags : List Text}
    (h : TagsWritten lines tags) (hgood : TagsWellFormed tags) {rest : List Line}
    (hrest : OpensWith lead rest) (n : Nat) :
    (Place.before n lines rest).tags = .done tags ⟨n + lines.length, rest⟩ := by
  obtain ⟨groups, hgroups, hflatten⟩ := many_tags hlead h hgood.1 hrest n
  rw [Place.tags, hgroups, Reply.map, Reply.bind, hflatten]

end Tags

section Header

variable {lead : Lead} {more line : Text}

theorem header_of_leads (h : Leads lead more line) {keyword : Text}
    (hkeyword : keyword ++ [':'] = lead.text) (n : Nat) (rest : List Line) :
    (Place.mk n (some line :: rest)).header [((), keyword)] =
      .done ((), more.trim) ⟨n + 1, rest⟩ := by
  rw [Place.header]
  apply Place.take_cons
  simp [h.header?_eq lead hkeyword]

theorem header_of_other (h : Leads lead more line) (own : Lead) (hown : own ≠ lead)
    {keyword : Text} (hkeyword : keyword ++ [':'] = own.text) (n : Nat) (rest : List Line) :
    (Place.mk n (some line :: rest)).header [((), keyword)] = .pass := by
  simp [Place.header, Place.take, h.header?_eq own hkeyword, hown]

theorem header_of_scenario {word : ScenarioWord} (h : Leads (.scenario word) more line) (n : Nat)
    (rest : List Line) : (Place.mk n (some line :: rest)).header
      (ScenarioWord.all.map fun word => (word, word.word)) =
        .done (word, more.trim) ⟨n + 1, rest⟩ := by
  have hheader : ∀ other : ScenarioWord, Line.header? other.word (some line) =
      if Lead.scenario other = .scenario word then some more.trim else none :=
    fun other => h.header?_eq (.scenario other) rfl
  rw [Place.header]
  apply Place.take_cons
  rw [List.findSome?_map]
  simp only [Function.comp_def, hheader]
  cases word <;> rfl

end Header

section Description

private theorem many_description_of_faces {test : Line → Option (List Text)} {ok : Lead → Bool}
    (hskip : ∀ line, Line.isIgnorable line = true → test line = some [])
    (hstop : ∀ lead more line, Leads lead more line → test (some line) = none) :
    ∀ (m : Nat) (p : Place), p.rest.length = m → Place.Faces ok p →
      ∃ groups, p.many (·.take test) = .done groups p.skipIgnorable ∧ groups.flatten = [] := by
  intro m
  induction m with
  | zero =>
    intro p hlength _
    have hrest : p.rest = [] := List.eq_nil_of_length_eq_zero hlength
    have hsame : p.skipIgnorable = p := Place.skipIgnorable_of_head (by simp [hrest])
    refine ⟨[], ?_, rfl⟩
    rw [hsame, Place.many_of_pass]
    rw [Place.take, hrest]
  | succ m ih =>
    intro p hlength hfaces
    obtain ⟨n, rest⟩ := p
    obtain ⟨line, rest, rfl⟩ := List.exists_cons_of_length_eq_add_one hlength
    by_cases hline : Line.isIgnorable line = true
    · have hreaches : (Place.mk n (line :: rest)).Reaches ⟨n + 1, rest⟩ :=
        ⟨[line], rfl, by simpa using hline, rfl⟩
      have hnext : Place.Faces ok ⟨n + 1, rest⟩ := by
        rw [← Place.faces_skipIgnorable_iff, hreaches.skipIgnorable_eq,
          Place.faces_skipIgnorable_iff]
        exact hfaces
      obtain ⟨groups, hgroups, hflatten⟩ := ih ⟨n + 1, rest⟩ (Nat.succ.inj hlength) hnext
      refine ⟨[] :: groups, ?_, by rw [List.flatten_cons, hflatten, List.nil_append]⟩
      rw [Place.many_of_done (Place.take_cons (hskip line hline) n rest) (by simp), hgroups,
        hreaches.skipIgnorable_eq]
      rfl
    · have hsame := Place.skipIgnorable_of_counts (Bool.eq_false_iff.mpr hline) n rest
      refine ⟨[], ?_, rfl⟩
      rw [hsame, Place.many_of_pass]
      rw [← hsame]
      exact hfaces.take_eq_pass fun lead more line hleads _ => hstop lead more line hleads

theorem description?_of_isDescription {pad text trail : Text} (hpad : pad.isBlank = true)
    (htext : IsDescription text) (htrail : trail.isBlank = true) :
    Line.description? (some (pad ++ (text ++ trail))) = some text := by
  obtain ⟨⟨htrim, _⟩, hne, hstructural⟩ := htext
  have hany : Line.structural.any (·.isPrefixOf text) = false := by
    rw [List.any_eq_false]
    intro start hstart
    rw [List.isPrefixOf_iff_prefix]
    exact hstructural start hstart
  simp [Line.description?, Text.trim_append hpad htrim htrail, hne, hany]

/-- What a line adds to a description, if it belongs to one. -/
def descriptionLine? (line : Line) : Option (List Text) :=
  line.description?.elim (if line.isIgnorable then some [] else none) fun text => some [text]

theorem description_eq (p : Place) :
    p.description = (p.many fun p => p.take descriptionLine?).map List.flatten := by
  rw [Place.description]
  congr
  funext p
  congr
  funext line
  rw [descriptionLine?]
  cases line.description? <;> rfl

/-- A description is read with all that does not count behind it. -/
theorem description_before {ok : Lead → Bool} {lines texts : List Text}
    (h : DescriptionWritten lines texts) {n : Nat} {rest : List Line}
    (hfaces : Place.Faces ok ⟨n + lines.length, rest⟩) :
    (Place.before n lines rest).description =
      .done texts (Place.mk (n + lines.length) rest).skipIgnorable := by
  suffices hmany : ∃ groups, (Place.before n lines rest).many (fun p => p.take descriptionLine?) =
      .done groups (Place.mk (n + lines.length) rest).skipIgnorable ∧ groups.flatten = texts by
    obtain ⟨groups, hgroups, hflatten⟩ := hmany
    rw [description_eq, hgroups, ← hflatten]
    rfl
  induction h generalizing n with
  | nil =>
    refine many_description_of_faces ?_ ?_ _ _ rfl hfaces
    · intro line hline
      simp [descriptionLine?, description?_of_isIgnorable hline, hline]
    · intro lead more line hleads
      simp [descriptionLine?, hleads.description?_eq, hleads.isIgnorable_eq]
  | @filler line lines texts hline hmore ih =>
    have hignorable := isIgnorable_of_isFiller hline
    have hempty : descriptionLine? (some line) = some [] := by
      simp [descriptionLine?, description?_of_isIgnorable hignorable, hignorable]
    rw [List.length_cons, Nat.add_comm lines.length, ← Nat.add_assoc] at hfaces ⊢
    obtain ⟨groups, hgroups, hflatten⟩ := ih hfaces
    refine ⟨[] :: groups, ?_, by rw [List.flatten_cons, hflatten, List.nil_append]⟩
    rw [Place.before, List.map_cons, List.cons_append, Place.many_of_done (a := [])
      (Place.take_cons hempty _ _) (by simp), ← Place.before, hgroups]
    rfl
  | @text pad text trail lines texts hpad htext htrail hmore ih =>
    have hsingle : descriptionLine? (some (pad ++ (text ++ trail))) = some [text] := by
      simp [descriptionLine?, description?_of_isDescription hpad htext htrail]
    rw [List.length_cons, Nat.add_comm lines.length, ← Nat.add_assoc] at hfaces ⊢
    obtain ⟨groups, hgroups, hflatten⟩ := ih hfaces
    refine ⟨[text] :: groups, ?_, by rw [List.flatten_cons, hflatten, List.singleton_append]⟩
    rw [Place.before, List.map_cons, List.cons_append, Place.many_of_done (a := [text])
      (Place.take_cons hsingle _ _) (by simp), ← Place.before, hgroups]
    rfl

end Description

section Block

/-- A line of a docstring loses the indentation that it was written with. -/
theorem unindent_append (ind line : Text) : Place.unindent ind (ind ++ line) = line := by
  rw [Place.unindent, Text.after?_eq_some_iff.mpr rfl, Option.getD_some]

theorem trim_isBlank_append {ind : Text} (hind : ind.isBlank = true) (line : Text) :
    Text.trim (ind ++ line) = line.trim := by
  rw [Text.trim, Text.trimStart_append_of_isBlank hind, Text.trim]

private theorem docstringBody_before {ind mark closing more : Text} (hind : IsIndentation ind)
    {body : List Text} (hbody : ∀ line ∈ body, line.trim ≠ mark) (hclosing : closing.trim = mark)
    (start n : Nat) (rest : List Line) :
    Place.docstringBody start ⟨ind, mark, more⟩ n
        ((body.map (ind ++ ·) ++ [closing]).map some ++ rest) =
      .done body ⟨n + body.length + 1, rest⟩ := by
  induction body generalizing n with
  | nil => simp [Place.docstringBody, hclosing]
  | cons line body ih =>
    have hline : Text.trim (ind ++ line) ≠ mark := by
      rw [trim_isBlank_append (isBlank_of_isIndentation hind)]
      exact hbody line List.mem_cons_self
    simp only [List.map_cons, List.cons_append, Place.docstringBody, if_neg hline]
    rw [ih fun other hother => hbody other (List.mem_cons_of_mem _ hother), unindent_append]
    simp only [Reply.map, Reply.bind, Reply.done.injEq, Place.mk.injEq, and_true, true_and,
      List.length_cons]
    omega

theorem opening?_of_written {ind : Text} {lead : Lead} {text line : Text}
    (hlead : lead = .quotes ∨ lead = .backticks) (h : LeadWritten ind lead text line)
    (htext : text.trim = text) :
    ∃ more, Line.opening? (some line) = some ⟨ind, lead.text, more⟩ ∧ more.trim = text := by
  have hstep : ∀ word, lead = .step word → text ≠ [] := by
    rintro word rfl
    rcases hlead with hlead | hlead <;> cases hlead
  obtain ⟨pad, trail, hind, hpad, htrail, rfl⟩ := h
  have hhead : ∀ c, (lead.text ++ (pad ++ (text ++ trail))).head? = some c → isIndent c = false :=
    fun c hc => (Leads.head?_text_append lead _ c hc).1
  refine ⟨pad ++ (text ++ trail), ?_, Text.trim_append hpad htext htrail⟩
  rw [Line.opening?, body_append hind hhead, indent_append hind hhead]
  rcases hlead with rfl | rfl
  · rfl
  · rfl

/-- A docstring is read as it was written.  Only an empty media type is lost. -/
theorem docstring_before {n : Nat} {lines : List Text} {d : Docstring} (h : d.Written n lines)
    (hgood : d.WellFormed) (hmedia : d.mediaType ≠ some []) (rest : List Line) :
    (Place.before n lines rest).docstring = .done d ⟨n + lines.length, rest⟩ := by
  obtain ⟨ind, lead, opening, body, closingInd, closing, hlead, hopening, hline, hcontent, hbody,
    hclosing, rfl⟩ := h
  have hplain : (d.mediaType.getD []).trim = d.mediaType.getD [] := by
    cases hmediaType : d.mediaType with
    | none => rfl
    | some mediaType => exact (hgood.1 mediaType hmediaType).1
  obtain ⟨more, hread, hmore⟩ := opening?_of_written hlead hopening hplain
  have hend : closing.trim = lead.text := by
    obtain ⟨pad, trail, hclosingInd, hpad, htrail, rfl⟩ := hclosing
    have hblank : Text.isBlank (pad ++ ([] ++ trail)) = true := by
      rw [List.nil_append, Text.isBlank, List.all_append, ← Text.isBlank, ← Text.isBlank, hpad,
        htrail]
      rfl
    apply Text.trim_append (isBlank_of_isIndentation hclosingInd) _ hblank
    rcases hlead with rfl | rfl
    · rfl
    · rfl
  have hind : IsIndentation ind := by
    obtain ⟨_, _, hind, _⟩ := hopening
    exact hind
  rw [Place.docstring, Place.before, List.map_cons, List.cons_append, Place.take_cons hread,
    Reply.bind, docstringBody_before hind (fun line hline => (hbody line hline).2) hend, Reply.map,
    Reply.bind, hmore, hcontent]
  have hmediaType : (if (d.mediaType.getD []).isEmpty then none else some (d.mediaType.getD [])) =
      d.mediaType := by
    cases hmediaType : d.mediaType with
    | none => rfl
    | some mediaType =>
      have hne : mediaType ≠ [] := fun hnil => hmedia (hnil ▸ hmediaType)
      simp [hne]
  simp only [hmediaType, ← hline, Reply.done.injEq, Place.mk.injEq, and_true, true_and,
    List.length_cons, List.length_append, List.length_map, List.length_nil]
  omega

theorem leads_bar {ind joined trail : Text} (hind : IsIndentation ind) :
    Leads .bar (joined ++ '|' :: trail) (ind ++ ('|' :: (joined ++ '|' :: trail))) := by
  refine ⟨⟨ind, hind, rfl⟩, prefix_trimEnd_append ?_ _⟩
  intro c hc
  exact Option.some.inj hc ▸ rfl

private theorem cells_of_padded {cells padded : List Text}
    (h : List.Forall₂ (fun cell written => ∃ front back : Text, front.isBlank = true ∧
      back.isBlank = true ∧ written = front ++ (cell ++ back)) cells padded)
    (hgood : ∀ cell ∈ cells, Plain cell ∧ '|' ∉ cell) :
    padded.map Text.trim = cells ∧ ∀ written ∈ padded, '|' ∉ written := by
  induction h with
  | nil => exact ⟨rfl, by simp⟩
  | @cons cell written cells padded hcell _ ih =>
    obtain ⟨front, back, hfront, hback, rfl⟩ := hcell
    obtain ⟨hplain, hbar⟩ := hgood cell List.mem_cons_self
    obtain ⟨hmap, hbars⟩ := ih fun other hother => hgood other (List.mem_cons_of_mem _ hother)
    have hblank : ∀ {t : Text}, t.isBlank = true → '|' ∉ t := by
      intro t ht hmem
      cases Text.isBlank_iff.mp ht '|' hmem
    refine ⟨?_, ?_⟩
    · rw [List.map_cons, hmap, Text.trim_append hfront hplain.1 hback]
    · intro other hother
      rcases List.mem_cons.mp hother with rfl | hother
      · simp [hblank hfront, hbar, hblank hback]
      · exact hbars other hother

/-- A row is read as it was written. -/
theorem row_before {row : Row} {line : Text} (h : row.Written line) (hgood : row.WellFormed)
    (rest : List Line) : (Place.mk row.line (some line :: rest)).row =
      .done row ⟨row.line + 1, rest⟩ := by
  obtain ⟨ind, padded, trail, hind, htrail, hcells, rfl⟩ := h
  have hread : Line.row? (some (ind ++ ('|' :: (Text.join ['|'] padded ++ '|' :: trail)))) =
      some (Text.join ['|'] padded ++ '|' :: trail) := by
    rw [(leads_bar hind).row?_eq, if_pos rfl]
  have htrim : Text.trimEnd (Text.join ['|'] padded ++ '|' :: trail) =
      Text.join ['|'] padded ++ ['|'] := by
    rw [List.append_cons]
    apply Text.trimEnd_append_of_getLast htrail
    intro c hc
    rw [List.getLast?_concat] at hc
    exact Option.some.inj hc ▸ rfl
  obtain ⟨hmap, hbars⟩ := cells_of_padded hcells hgood.2
  have hne : padded ≠ [] := by
    intro hnil
    rw [hnil] at hmap
    exact hgood.1 hmap.symm
  rw [Place.row, Place.take_cons hread, Reply.bind]
  simp only [htrim, List.getLast?_concat, if_true, List.dropLast_concat,
    Text.pieces_join hne hbars, hmap]

private theorem many_rows {width n : Nat} {lines : List Text} {rows : List Row}
    (h : TableWritten n lines rows) (hgood : ∀ row ∈ rows, row.WellFormed)
    (hwidth : ∀ row ∈ rows, row.cells.length = width) {rest : List Line}
    (hpass : (Place.mk (n + lines.length) rest).row = .pass) :
    (Place.before n lines rest).many (Place.rowOfWidth width) =
      .done rows ⟨n + lines.length, rest⟩ := by
  induction h with
  | nil =>
    apply Place.many_of_pass
    rw [Place.rowOfWidth]
    exact congrArg (Reply.bind · _) hpass
  | @cons n line lines row rows hrow hline hmore ih =>
    subst hline
    rw [List.length_cons, Nat.add_comm lines.length, ← Nat.add_assoc] at hpass ⊢
    have hrows := ih (fun other hother => hgood other (List.mem_cons_of_mem _ hother))
      (fun other hother => hwidth other (List.mem_cons_of_mem _ hother)) hpass
    have hread : (Place.before row.line (line :: lines) rest).rowOfWidth width =
        .done row (Place.before (row.line + 1) lines rest) := by
      rw [Place.rowOfWidth, Place.before, List.map_cons, List.cons_append,
        row_before hrow (hgood row List.mem_cons_self)]
      simp only [Reply.bind, hwidth row List.mem_cons_self, if_true]
      rfl
    rw [Place.many_of_done hread (by simp [Place.before]), hrows]
    rfl

/-- A table is read up to the first line that is no row. -/
theorem table_before {n : Nat} {lines : List Text} {rows : List Row}
    (h : TableWritten n lines rows) (hgood : TableWellFormed rows) {rest : List Line}
    (hpass : (Place.mk (n + lines.length) rest).row = .pass) :
    (Place.before n lines rest).table = .done rows ⟨n + lines.length, rest⟩ := by
  obtain ⟨hne, hrows, hwidth⟩ := hgood
  cases h with
  | nil => exact absurd rfl hne
  | @cons _ line lines row rows hrow hline hmore =>
    subst hline
    rw [List.length_cons, Nat.add_comm lines.length, ← Nat.add_assoc] at hpass ⊢
    have hmany := many_rows hmore (fun other hother => hrows other (List.mem_cons_of_mem _ hother))
      (fun other hother => hwidth other (List.mem_cons_of_mem _ hother) row List.mem_cons_self) hpass
    rw [Place.table, Place.before, List.map_cons, List.cons_append,
      row_before hrow (hrows row List.mem_cons_self), Reply.bind, ← Place.before, hmany]
    rfl

/-- A table starts with a bar. -/
theorem TableWritten.first {n : Nat} {lines : List Text} {rows : List Row}
    (h : TableWritten n lines rows) (hne : rows ≠ []) :
    ∃ more line tail, lines = line :: tail ∧ Leads .bar more line := by
  cases h with
  | nil => exact absurd rfl hne
  | cons hrow _ _ =>
    obtain ⟨_, _, _, hind, _, _, rfl⟩ := hrow
    exact ⟨_, _, _, rfl, leads_bar hind⟩

/-- Behind a table, neither a line that does not count nor one with another lead is a row. -/
theorem row_of_faces {ok : Lead → Bool} {p : Place} (h : Place.Faces ok p)
    (hok : ∀ lead, ok lead = true → lead ≠ .bar) : p.row = .pass := by
  have htake : p.take Line.row? = .pass := by
    obtain ⟨n, rest⟩ := p
    cases rest with
    | nil => rfl
    | cons line rest =>
      by_cases hline : Line.isIgnorable line = true
      · have hrow : Line.row? line = none := by
          cases line with
          | none => rfl
          | some t =>
            rw [Line.isIgnorable] at hline
            rw [Line.row?]
            cases hbody : Line.body t with
            | nil => rfl
            | cons c rest =>
              simp only [hbody, beq_iff_eq] at hline
              subst hline
              rfl
        simp [Place.take, hrow]
      · rw [← Place.skipIgnorable_of_counts (Bool.eq_false_iff.mpr hline) n rest]
        apply h.take_eq_pass
        intro lead more line hleads hlead
        rw [hleads.row?_eq, if_neg (hok lead hlead)]
  rw [Place.row, htake]
  rfl

end Block

end ScenarioLint.Gherkin
