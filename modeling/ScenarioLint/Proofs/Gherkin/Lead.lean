import ScenarioLint.Gherkin.Line
import ScenarioLint.Proofs.Text.Decision
import ScenarioLint.Proofs.Text.Search
import ScenarioLint.Proofs.Text.Space

/-!
The leads of the lines that count in a feature file.  No lead starts another one, so a line is read
by the one reader that knows its lead and by no other.
-/

namespace ScenarioLint.Gherkin

/-- What a line that counts starts with. -/
inductive Lead where
  | tag
  | feature
  | background
  | scenario (word : ScenarioWord)
  | examples
  | step (word : StepWord)
  | quotes
  | backticks
  | bar
  deriving DecidableEq, Repr

namespace Lead

/-- All leads. -/
def all : List Lead :=
  [tag, feature, background, examples, quotes, backticks, bar] ++ ScenarioWord.all.map scenario ++
    StepWord.all.map step

/-- The spelling of a lead. -/
def text : Lead → Text
  | tag => ['@']
  | feature => "Feature".toList ++ [':']
  | background => "Background".toList ++ [':']
  | scenario word => word.word ++ [':']
  | examples => "Examples".toList ++ [':']
  | step word => word.word ++ [' ']
  | quotes => "\"\"\"".toList
  | backticks => "\x60\x60\x60".toList
  | bar => ['|']

/-- The lead of a line that belongs to the step above it. -/
def isArgument : Lead → Bool
  | quotes | backticks | bar => true
  | _ => false

/-- The lead of the first line of a scenario. -/
def opensScenario : Lead → Bool
  | tag | scenario _ => true
  | _ => false

/-- The lead of the first line of a block inside a feature. -/
def opensBlock : Lead → Bool
  | tag | background | scenario _ | examples => true
  | _ => false

theorem mem_all (lead : Lead) : lead ∈ all := by
  cases lead with
  | scenario word => cases word <;> decide
  | step word => cases word <;> decide
  | _ => decide

/-- A fact about all leads that can be checked one by one. -/
theorem forall_of_all {P : Lead → Prop} (h : ∀ lead ∈ all, P lead) (lead : Lead) : P lead :=
  h lead lead.mem_all

/-- No lead starts another one. -/
theorem eq_of_isPrefix {a b : Lead} (h : a.text <+: b.text) : a = b := by
  have hall : ∀ a ∈ all, ∀ b ∈ all, a.text <+: b.text → a = b := by decide
  exact hall a a.mem_all b b.mem_all h

/-- What a reader that looks for one lead sees behind another. -/
theorem after?_text (a b : Lead) (more : Text) :
    Text.after? a.text (b.text ++ more) = if a = b then some more else none := by
  by_cases hab : a = b
  · rw [if_pos hab, Text.after?_eq_some_iff, hab]
  · rw [if_neg hab, Option.eq_none_iff_forall_not_mem]
    intro rest hrest
    have hsplit : b.text ++ more = a.text ++ rest := Text.after?_eq_some_iff.mp hrest
    rcases List.prefix_or_prefix_of_prefix (List.prefix_append b.text more)
      (hsplit ▸ List.prefix_append a.text rest) with hstarts | hstarts
    · exact hab (eq_of_isPrefix hstarts).symm
    · exact hab (eq_of_isPrefix hstarts)

/-- A lead starts with a visible character that begins no comment. -/
theorem exists_head (lead : Lead) : ∃ c, lead.text.head? = some c ∧ isSpace c = false ∧
    isIndent c = false ∧ c ≠ '#' ∧ (c = '@' ↔ lead = tag) := by
  have hall : ∀ lead ∈ all, ∃ c ∈ lead.text.head?, isSpace c = false ∧ isIndent c = false ∧
      c ≠ '#' ∧ (c = '@' ↔ lead = tag) := by
    decide
  exact forall_of_all hall lead

theorem mem_structural (lead : Lead) : lead.text ∈ Line.structural := by
  have hall : ∀ lead ∈ all, lead.text ∈ Line.structural := by decide
  exact forall_of_all hall lead

end Lead

/-- A text of nothing but spaces and tabs. -/
def IsIndentation (ind : Text) : Prop :=
  ∀ c ∈ ind, isIndent c = true

instance (ind : Text) : Decidable (IsIndentation ind) :=
  inferInstanceAs (Decidable (∀ c ∈ ind, isIndent c = true))

theorem isBlank_of_isIndentation {ind : Text} (h : IsIndentation ind) : ind.isBlank = true := by
  rw [Text.isBlank_iff]
  intro c hc
  have hc := h c hc
  simp only [isIndent, Bool.or_eq_true, beq_iff_eq] at hc
  rcases hc with rfl | rfl
  · rfl
  · rfl

theorem body_append {ind t : Text} (hind : IsIndentation ind)
    (ht : ∀ c, t.head? = some c → isIndent c = false) : Line.body (ind ++ t) = t := by
  rw [Line.body, List.dropWhile_append_of_pos hind]
  cases t with
  | nil => rfl
  | cons c rest => rw [List.dropWhile_cons_of_neg (by simp [ht c rfl])]

theorem indent_append {ind t : Text} (hind : IsIndentation ind)
    (ht : ∀ c, t.head? = some c → isIndent c = false) : Line.indent (ind ++ t) = ind := by
  rw [Line.indent, List.takeWhile_append_of_pos hind]
  cases t with
  | nil => exact List.append_nil ind
  | cons c rest => rw [List.takeWhile_cons_of_neg (by simp [ht c rfl]), List.append_nil]

/-- A line with a lead behind its indentation and `more` behind the lead, of which the white space
    at the end of the line is no part. -/
structure Leads (lead : Lead) (more line : Text) : Prop where
  split : ∃ ind, IsIndentation ind ∧ line = ind ++ (lead.text ++ more)
  visible : lead.text <+: (lead.text ++ more).trimEnd

namespace Leads

variable {lead : Lead} {more line : Text}

theorem head?_text_append (lead : Lead) (more : Text) :
    ∀ c, (lead.text ++ more).head? = some c → isIndent c = false ∧ isSpace c = false := by
  intro c hc
  obtain ⟨d, hd, hspace, hindent, _⟩ := lead.exists_head
  rw [List.head?_append, hd, Option.some_or] at hc
  rw [← Option.some.inj hc]
  exact ⟨hindent, hspace⟩

theorem body_eq (h : Leads lead more line) : Line.body line = lead.text ++ more := by
  obtain ⟨ind, hind, rfl⟩ := h.split
  exact body_append hind fun c hc => (head?_text_append lead more c hc).1

theorem isIgnorable_eq (h : Leads lead more line) : Line.isIgnorable (some line) = false := by
  obtain ⟨c, hc, _, _, hcomment, _⟩ := lead.exists_head
  obtain ⟨rest, hrest⟩ := List.head?_eq_some_iff.mp hc
  rw [Line.isIgnorable, h.body_eq, hrest]
  simpa using hcomment

theorem tags?_eq (h : Leads lead more line) :
    Line.tags? (some line) = if lead = .tag then some (Line.body line).words else none := by
  obtain ⟨c, hc, _, _, _, htag⟩ := lead.exists_head
  rw [Line.tags?, h.body_eq, List.head?_append, hc, Option.some_or]
  by_cases hlead : lead = .tag
  · rw [if_pos hlead, if_pos (by rw [htag.mpr hlead])]
  · rw [if_neg hlead, if_neg (fun heq => hlead (htag.mp (Option.some.inj heq)))]

/-- A reader of headers reads the lines with its own lead. -/
theorem header?_eq (h : Leads lead more line) (own : Lead) {keyword : Text}
    (hkeyword : keyword ++ [':'] = own.text) :
    Line.header? keyword (some line) = if own = lead then some more.trim else none := by
  rw [Line.header?, h.body_eq, hkeyword, Lead.after?_text]
  split <;> rfl

theorem row?_eq (h : Leads lead more line) :
    Line.row? (some line) = if lead = .bar then some more else none := by
  have hbar : Text.after? ['|'] (lead.text ++ more) = if Lead.bar = lead then some more else none :=
    Lead.after?_text .bar lead more
  simp only [Line.row?, h.body_eq, hbar, eq_comm]

theorem step?_eq_some {word : StepWord} (h : Leads (.step word) more line) :
    Line.step? (some line) = some (word, more.trim) := by
  have hafter : ∀ other : StepWord, Text.after? (other.word ++ [' ']) (Line.body line) =
      if Lead.step other = .step word then some more else none := by
    intro other
    rw [h.body_eq]
    exact Lead.after?_text (.step other) (.step word) more
  simp only [Line.step?, hafter]
  cases word <;> rfl

theorem step?_eq_none (h : Leads lead more line) (hlead : ∀ word, lead ≠ .step word) :
    Line.step? (some line) = none := by
  have hafter : ∀ other : StepWord,
      Text.after? (other.word ++ [' ']) (Line.body line) = none := by
    intro other
    have hother := Lead.after?_text (.step other) lead more
    rw [if_neg (Ne.symm (hlead other))] at hother
    rw [h.body_eq]
    exact hother
  simp [Line.step?, hafter]

theorem opening?_eq_none (h : Leads lead more line) (hquotes : lead ≠ .quotes)
    (hbackticks : lead ≠ .backticks) : Line.opening? (some line) = none := by
  have hafter : ∀ mark ∈ Line.docstringMarks, Text.after? mark (lead.text ++ more) = none := by
    intro mark hmark
    simp only [Line.docstringMarks, List.mem_cons, List.not_mem_nil, or_false] at hmark
    rcases hmark with rfl | rfl
    · exact (Lead.after?_text .quotes lead more).trans (if_neg (Ne.symm hquotes))
    · exact (Lead.after?_text .backticks lead more).trans (if_neg (Ne.symm hbackticks))
  rw [Line.opening?, h.body_eq, List.findSome?_eq_none_iff]
  intro mark hmark
  rw [hafter mark hmark]
  rfl

/-- No line with a lead is taken for a description. -/
theorem description?_eq (h : Leads lead more line) : Line.description? (some line) = none := by
  obtain ⟨ind, hind, rfl⟩ := h.split
  have htrim : Text.trim (ind ++ (lead.text ++ more)) = (lead.text ++ more).trimEnd := by
    rw [Text.trim, Text.trimStart_append_of_head (isBlank_of_isIndentation hind)]
    exact fun c hc => (head?_text_append lead more c hc).2
  have hany : Line.structural.any (·.isPrefixOf (lead.text ++ more).trimEnd) = true :=
    List.any_eq_true.mpr
      ⟨lead.text, lead.mem_structural, List.isPrefixOf_iff_prefix.mpr h.visible⟩
  rw [Line.description?, htrim]
  simp [hany]

end Leads

end ScenarioLint.Gherkin
