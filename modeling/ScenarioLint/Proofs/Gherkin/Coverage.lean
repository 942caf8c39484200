import ScenarioLint.Check.Status
import ScenarioLint.Proofs.Gherkin.Accepted

/-!
Two readings of docstrings.  The scan of lines goes in and out of docstrings at every line that
starts with the mark; the reader of feature files leaves a docstring at the mark alone.  They agree
on a text exactly as far as the docstrings that are read hold no marks that lead the scan outside.
-/

open ScenarioLint.Scenario (Role docstringMark hasMark hasMark_of_trim hasMark_trim isFence
  isFence_trim)

namespace ScenarioLint.Gherkin

namespace Docstring

variable {lines : List Line} {d : Docstring}

def contentLines (d : Docstring) : List Text :=
  Text.pieces '\n' d.content

/-- The reader of docstrings reads the docstring at its line, up to a place behind it. -/
def ReadsTo (lines : List Line) (d : Docstring) (next : Place) : Prop :=
  Place.docstring ⟨d.line, lines.drop (d.line - 1)⟩ = .done d next

/-- The reader takes the line with the number for a part of the docstring. -/
def Covers (lines : List Line) (d : Docstring) (number : Nat) : Prop :=
  ∃ next, d.ReadsTo lines next ∧ d.line ≤ number ∧ number < next.line

/-- Nothing stands behind the docstring. -/
def Ends (lines : List Line) (d : Docstring) : Prop :=
  ∃ next, d.ReadsTo lines next ∧ next.rest = []

theorem covers_iff {next : Place} (h : d.ReadsTo lines next) (number : Nat) :
    d.Covers lines number ↔ d.line ≤ number ∧ number < next.line := by
  constructor
  · rintro ⟨other, hother, hcovers⟩
    rw [ReadsTo, h] at hother
    cases hother
    exact hcovers
  · exact fun hcovers => ⟨next, h, hcovers⟩

theorem ends_iff {next : Place} (h : d.ReadsTo lines next) : d.Ends lines ↔ next.rest = [] := by
  constructor
  · rintro ⟨other, hother, hends⟩
    rw [ReadsTo, h] at hother
    cases hother
    exact hends
  · exact fun hends => ⟨next, h, hends⟩

end Docstring

namespace Place

/-- The lines of a docstring that is read, and the line that closes it. -/
theorem of_docstringBody {start n : Nat} {o : Line.Opening} {lines : List Line}
    {body : List Text} {q : Place} (h : docstringBody start o n lines = .done body q) :
    ∃ (inner : List Text) (closing : Text) (rest : List Line),
      lines = inner.map some ++ some closing :: rest ∧ closing.trim = o.mark ∧
      body = inner.map (unindent o.indent) ∧ q = ⟨n + inner.length + 1, rest⟩ := by
  induction lines generalizing n body with
  | nil => cases h
  | cons line rest ih =>
    cases line with
    | none => cases h
    | some t =>
      rw [docstringBody] at h
      by_cases hclosing : t.trim = o.mark
      · rw [if_pos hclosing] at h
        cases h
        exact ⟨[], t, rest, rfl, hclosing, rfl, rfl⟩
      · rw [if_neg hclosing] at h
        cases hbody : docstringBody start o (n + 1) rest with
        | pass => simp [hbody, Reply.map, Reply.bind] at h
        | stop e => simp [hbody, Reply.map, Reply.bind] at h
        | done more r =>
          rw [hbody] at h
          cases h
          obtain ⟨inner, closing, back, rfl, htrim, rfl, rfl⟩ := ih hbody
          refine ⟨t :: inner, closing, back, rfl, htrim, rfl, ?_⟩
          rw [List.length_cons]
          congr 1
          omega

theorem of_docstring {p q : Place} {d : Docstring} (h : p.docstring = .done d q) :
    ∃ (line : Line) (o : Line.Opening) (inner : List Text) (closing : Text) (rest : List Line),
      p.rest = line :: (inner.map some ++ some closing :: rest) ∧ line.opening? = some o ∧
      closing.trim = o.mark ∧ d.line = p.line ∧
      d.content = Text.join ['\n'] (inner.map (unindent o.indent)) ∧
      q = ⟨p.line + (inner.length + 2), rest⟩ := by
  rw [docstring] at h
  cases htake : p.take Line.opening? with
  | pass => simp [htake, Reply.bind] at h
  | stop e => simp [htake, Reply.bind] at h
  | done o next =>
    obtain ⟨line, lines, hlines, hopening, rfl⟩ := take_eq_done_iff.mp htake
    rw [htake] at h
    dsimp only [Reply.bind] at h
    cases hbody : docstringBody p.line o (p.line + 1) lines with
    | pass => simp [hbody, Reply.map, Reply.bind] at h
    | stop e => simp [hbody, Reply.map, Reply.bind] at h
    | done body r =>
      rw [hbody] at h
      cases h
      obtain ⟨inner, closing, rest, rfl, htrim, rfl, rfl⟩ := of_docstringBody hbody
      refine ⟨line, o, inner, closing, rest, hlines, hopening, htrim, rfl, rfl, ?_⟩
      congr 1
      omega

end Place

/-- Removing the indentation of a docstring leaves the marks that lines start with. -/
theorem hasMark_unindent {indent : Text} (hindent : IsIndentation indent) (line : Text) :
    hasMark (Place.unindent indent line) = hasMark line := by
  rw [Place.unindent]
  cases hafter : Text.after? indent line with
  | none =>
    have hstart : line.trimStart.trimStart = line.trimStart :=
      Text.trimStart_of_head fun _ => Text.head?_trimStart
    rw [Option.getD_none, hasMark, hasMark, hstart]
  | some rest =>
    rw [Option.getD_some, Text.after?_eq_some_iff.mp hafter, hasMark, hasMark,
      Text.trimStart_append_of_isBlank (isBlank_of_isIndentation hindent)]

theorem mem_of_mem_unindent {indent line : Text} {c : Char}
    (h : c ∈ Place.unindent indent line) : c ∈ line := by
  rw [Place.unindent] at h
  cases hafter : Text.after? indent line with
  | none =>
    rw [hafter] at h
    exact (List.dropWhile_suffix _).subset h
  | some rest =>
    rw [hafter] at h
    rw [Text.after?_eq_some_iff.mp hafter]
    exact List.mem_append_right _ h

theorem hasMark_nil : hasMark [] = false :=
  rfl

/-- The content of a docstring has marks where its lines have them. -/
theorem scanFrom_contentLines {d : Docstring} {indent : Text} {inner : List Text}
    (hindent : IsIndentation indent) (hfeed : ∀ line ∈ inner, '\n' ∉ line)
    (hcontent : d.content = Text.join ['\n'] (inner.map (Place.unindent indent))) :
    (Role.text ∈ Role.scanFrom true d.contentLines ↔ Role.text ∈ Role.scanFrom true inner) ∧
      Role.insideAfter true d.contentLines = Role.insideAfter true inner := by
  rw [Docstring.contentLines, hcontent]
  by_cases hinner : inner = []
  · subst hinner
    exact ⟨by simp [Text.pieces_nil, Text.join, Role.scanFrom, Role.of, hasMark_nil], rfl⟩
  · have hpieces : Text.pieces '\n' (Text.join ['\n'] (inner.map (Place.unindent indent))) =
        inner.map (Place.unindent indent) := by
      apply Text.pieces_join (by simpa using hinner)
      intro t ht
      obtain ⟨line, hline, rfl⟩ := List.mem_map.mp ht
      exact fun hmem => hfeed line hline (mem_of_mem_unindent hmem)
    have hmarks : (inner.map (Place.unindent indent)).map hasMark = inner.map hasMark := by
      rw [List.map_map]
      exact List.map_congr_left fun line _ => hasMark_unindent hindent line
    obtain ⟨hscan, hafter⟩ := Role.scanFrom_eq_of_marks hmarks true
    rw [hpieces, hscan, hafter]
    exact ⟨Iff.rfl, rfl⟩

/-- For each line whether the scan takes it for a part of a docstring. -/
def partsFrom (inside : Bool) (ts : List Text) : List Bool :=
  (Role.scanFrom inside ts).map (· != .text)

theorem partsFrom_cons (inside : Bool) (t : Text) (rest : List Text) :
    partsFrom inside (t :: rest) =
      (inside || hasMark t) :: partsFrom (inside != hasMark t) rest := by
  rw [partsFrom, Role.scanFrom, List.map_cons, ← partsFrom]
  cases inside <;> cases hasMark t <;> rfl

theorem partsFrom_append (inside : Bool) (front back : List Text) :
    partsFrom inside (front ++ back) =
      partsFrom inside front ++ partsFrom (Role.insideAfter inside front) back := by
  rw [partsFrom, Role.scanFrom_append, List.map_append]
  rfl

/-- Some of the lines of a file from a number on, with the docstrings that are read from them, and
    for each line whether it is part of one.  Behind a docstring stands no mark. -/
inductive Charted (lines : List Line) : Nat → List Text → List Docstring → List Bool → Prop
  | nil (n : Nat) : Charted lines n [] [] []
  | line {n : Nat} {t : Text} {rest : List Text} {docs : List Docstring} {parts : List Bool}
      (hmark : hasMark t = false) (hrest : Charted lines (n + 1) rest docs parts) :
      Charted lines n (t :: rest) docs (false :: parts)
  | docstring {n : Nat} {opening closing : Text} {inner rest : List Text} {d : Docstring}
      {docs : List Docstring} {parts : List Bool} (hopening : hasMark opening = true)
      (hclosing : hasMark closing = true)
      (hbehind : ∀ t, rest.head? = some t → hasMark t = false) (hline : d.line = n)
      (hread : d.ReadsTo lines ⟨n + (inner.length + 2), rest.map some⟩)
      (htext : Role.text ∈ Role.scanFrom true d.contentLines ↔
        Role.text ∈ Role.scanFrom true inner)
      (hafter : Role.insideAfter true d.contentLines = Role.insideAfter true inner)
      (hrest : Charted lines (n + (inner.length + 2)) rest docs parts) :
      Charted lines n (opening :: (inner ++ closing :: rest)) (d :: docs)
        (List.replicate (inner.length + 2) true ++ parts)

namespace Charted

variable {lines : List Line} {n : Nat} {ts : List Text} {docs : List Docstring}
  {parts : List Bool}

theorem length_eq (h : Charted lines n ts docs parts) : parts.length = ts.length := by
  induction h with
  | nil n => rfl
  | line hmark hrest ih => rw [List.length_cons, List.length_cons, ih]
  | docstring hopening hclosing hbehind hline hread htext hafter hrest ih =>
    simp only [List.length_append, List.length_replicate, List.length_cons, ih]
    omega

theorem le_line (h : Charted lines n ts docs parts) : ∀ d ∈ docs, n ≤ d.line := by
  induction h with
  | nil n => simp
  | line hmark hrest ih => exact fun d hd => Nat.le_of_succ_le (ih d hd)
  | docstring hopening hclosing hbehind hline hread htext hafter hrest ih =>
    intro other hother
    rcases List.mem_cons.mp hother with rfl | hother
    · exact Nat.le_of_eq hline.symm
    · exact Nat.le_trans (Nat.le_add_right _ _) (ih other hother)

/-- The lines that are part of a docstring are those that some docstring covers. -/
theorem getElem?_parts_iff (h : Charted lines n ts docs parts) (k : Nat) :
    parts[k]? = some true ↔ ∃ d ∈ docs, d.Covers lines (n + k) := by
  induction h generalizing k with
  | nil n => simp
  | @line n t rest docs parts hmark hrest ih =>
    cases k with
    | zero =>
      simp only [List.getElem?_cons_zero, Option.some.injEq, Bool.false_eq_true, false_iff,
        not_exists, not_and]
      rintro d hd ⟨_, _, hle, _⟩
      have hlt := hrest.le_line d hd
      omega
    | succ k => rw [List.getElem?_cons_succ, ih k, Nat.add_right_comm, Nat.add_assoc]
  | @docstring n opening closing inner rest d docs parts hopening hclosing hbehind hline hread htext
      hafter hrest ih =>
    have hcovers : d.Covers lines (n + k) ↔ k < inner.length + 2 := by
      rw [Docstring.covers_iff hread, hline]
      dsimp only
      omega
    rw [List.exists_mem_cons_iff, hcovers]
    by_cases hk : k < inner.length + 2
    · rw [List.getElem?_append_left (by simpa using hk), List.getElem?_replicate, if_pos hk]
      simp [hk]
    · obtain ⟨j, rfl⟩ := Nat.exists_eq_add_of_le (Nat.le_of_not_lt hk)
      have hindex : (List.replicate (inner.length + 2) true ++ parts)[inner.length + 2 + j]? =
          parts[j]? := by
        rw [List.getElem?_append_right (by simp)]
        simp
      rw [hindex, ih j, or_iff_right hk, Nat.add_assoc]

/-- Where a scan is still inside at a line that is part of no docstring, it takes the line for one
    that is. -/
theorem partsFrom_true_eq_iff (h : Charted lines n ts docs parts)
    (hhead : ∀ t, ts.head? = some t → hasMark t = false) :
    partsFrom true ts = parts ↔ ts = [] := by
  cases h with
  | nil n => simp [partsFrom, Role.scanFrom]
  | line hmark hrest => simp [partsFrom_cons]
  | docstring hopening hclosing hbehind hline hread htext hafter hrest =>
    rw [hhead _ rfl] at hopening
    cases hopening

/-- The scan and the reader take the same lines for parts of docstrings exactly if every docstring
    keeps the scan inside and lets it out at its end. -/
theorem partsFrom_eq_iff (h : Charted lines n ts docs parts) :
    partsFrom false ts = parts ↔
      ∀ d ∈ docs, Role.text ∉ Role.scanFrom true d.contentLines ∧
        (Role.insideAfter true d.contentLines = true ∨ d.Ends lines) := by
  induction h with
  | nil n => simp [partsFrom, Role.scanFrom]
  | @line n t rest docs parts hmark hrest ih =>
    rw [partsFrom_cons, hmark, ← ih]
    simp
  | @docstring n opening closing inner rest d docs parts hopening hclosing hbehind hline hread htext
      hafter hrest ih =>
    have hends : d.Ends lines ↔ rest = [] := by
      rw [Docstring.ends_iff hread, List.map_eq_nil_iff]
    have hsplit : partsFrom false (opening :: (inner ++ closing :: rest)) =
          List.replicate (inner.length + 2) true ++ parts ↔
        Role.text ∉ Role.scanFrom true inner ∧
          partsFrom (!Role.insideAfter true inner) rest = parts := by
      have hparts : List.replicate (inner.length + 2) true ++ parts =
          true :: (List.replicate inner.length true ++ true :: parts) := by
        rw [List.replicate_succ, List.replicate_succ', List.cons_append, List.append_assoc]
        rfl
      have hinner : partsFrom true inner = List.replicate inner.length true ↔
          Role.text ∉ Role.scanFrom true inner := by
        rw [partsFrom, ← Role.length_scanFrom true inner, List.map_eq_replicate_iff]
        simp only [bne_iff_ne, ne_eq]
        exact ⟨fun hall hmem => hall _ hmem rfl, fun hnot role hrole heq => hnot (heq ▸ hrole)⟩
      rw [partsFrom_cons, hopening, partsFrom_append, partsFrom_cons, hclosing, hparts,
        ← hinner]
      simp only [Bool.or_true, Bool.bne_true, Bool.not_false, List.cons.injEq, true_and]
      constructor
      · intro heq
        obtain ⟨hfirst, hsecond⟩ := List.append_inj heq (by simp [partsFrom])
        exact ⟨hfirst, (List.cons.inj hsecond).2⟩
      · rintro ⟨hfirst, hsecond⟩
        rw [hfirst, hsecond]
    rw [List.forall_mem_cons, htext, hafter, hends, hsplit]
    cases hinside : Role.insideAfter true inner with
    | true =>
      rw [Bool.not_true, ih]
      simp
    | false =>
      rw [Bool.not_false, hrest.partsFrom_true_eq_iff hbehind]
      have hnone : rest = [] → docs = [] := by
        rintro rfl
        cases hrest
        rfl
      constructor
      · rintro ⟨hinner, hend⟩
        exact ⟨⟨hinner, .inr hend⟩, by simp [hnone hend]⟩
      · rintro ⟨⟨hinner, hend⟩, _⟩
        exact ⟨hinner, by simpa using hend⟩

end Charted

theorem drop_of_append {lines : List Line} {n : Nat} (front : List Text) {rest : List Text}
    (hn : 0 < n) (h : lines.drop (n - 1) = (front ++ rest).map some) :
    lines.drop (n + front.length - 1) = rest.map some := by
  have hdrop := congrArg (List.drop front.length) h
  have hindex : n - 1 + front.length = n + front.length - 1 := by omega
  rwa [List.drop_drop, hindex, List.map_append, List.drop_left' (List.length_map _)] at hdrop

/-- A docstring that is read from lines without fences has its opening and its closing line where
    the scan sees marks. -/
theorem exists_docstring {w : Within} {o : Line.Opening} {n : Nat} {t : Text} {rest : List Text}
    {docs : List Docstring} (hmark : hasMark t = true)
    (hopening : Line.opening? (some t) = some o) (hquotes : o.mark = docstringMark)
    (hwalk : (Place.mk n (some t :: rest.map some)).walk (.step w) = some docs) :
    ∃ d inner closing back more, rest = inner ++ closing :: back ∧ docs = d :: more ∧
      hasMark closing = true ∧ d.line = n ∧
      Place.docstring ⟨n, (t :: rest).map some⟩ =
        .done d ⟨n + (inner.length + 2), back.map some⟩ ∧
      d.content = Text.join ['\n'] (inner.map (Place.unindent o.indent)) ∧
      (Place.mk (n + (inner.length + 2)) (back.map some)).walk (.between w) = some more := by
  have htells := Place.tells_docstring (p := ⟨n, some t :: rest.map some⟩) w fun line hline =>
    Option.some.inj hline ▸ (Line.of_hasMark hmark).1
  cases hread : (Place.mk n (some t :: rest.map some)).docstring with
  | stop e =>
    rw [hread] at htells
    have hnone : (Place.mk n (some t :: rest.map some)).walk (.step w) = none := htells
    rw [hnone] at hwalk
    cases hwalk
  | pass =>
    rw [hread] at htells
    have hnone := htells (some t) rfl (by rw [hopening]; rfl)
    rw [hnone] at hwalk
    cases hwalk
  | done d q =>
    rw [hread] at htells
    obtain ⟨hwalked, _⟩ := htells
    obtain ⟨line, own, inner, closing, after, hlines, hown, hclosing, hline, hcontent, rfl⟩ :=
      Place.of_docstring hread
    obtain ⟨rfl, hrest⟩ := List.cons.inj hlines
    cases hopening.symm.trans hown
    obtain ⟨front, other, rfl, hfront, hother⟩ := List.map_eq_append_iff.mp hrest
    obtain ⟨last, back, rfl, hlast, rfl⟩ := List.map_eq_cons_iff.mp hother
    obtain rfl := Option.some.inj hlast
    obtain rfl := List.map_injective_iff.mpr (fun _ _ => Option.some.inj) hfront
    rw [hwalk] at hwalked
    obtain ⟨more, hmore, hdocs⟩ := Option.map_eq_some_iff.mp hwalked.symm
    have hmark : hasMark last = true := hasMark_of_trim (hclosing.trans hquotes)
    exact ⟨d, front, last, back, more, rfl, hdocs.symm, hmark, hline, hread, hcontent, hmore⟩

/-- No docstring follows another one: a mark has no place where a step cannot take it. -/
theorem hasMark_of_walk_between {w : Within} {n : Nat} {ts : List Text} {docs : List Docstring}
    (hwalk : (Place.mk n (ts.map some)).walk (.between w) = some docs) {t : Text}
    (ht : ts.head? = some t) : hasMark t = false := by
  obtain ⟨rest, rfl⟩ := List.head?_eq_some_iff.mp ht
  rw [Bool.eq_false_iff]
  intro hmark
  rw [List.map_cons, Place.walk_cons rfl] at hwalk
  obtain ⟨τ, hnext, _⟩ := Option.bind_eq_some_iff.mp hwalk
  obtain ⟨_, _, hstep, _⟩ := Stage.next_of_hasMark rfl hmark hnext
  cases hstep

/-- Lines that are read outside docstrings can be charted. -/
theorem exists_charted (lines : List Line) {σ : Stage} (hσ : σ.Aligned false) {n : Nat}
    {ts : List Text} {docs : List Docstring}
    (hwalk : (Place.mk n (ts.map some)).walk σ = some docs)
    (hfence : ∀ t ∈ ts, isFence t = false) (hfeed : ∀ t ∈ ts, '\n' ∉ t) (hn : 0 < n)
    (hlines : lines.drop (n - 1) = ts.map some) :
    ∃ parts, Charted lines n ts docs parts := by
  induction hlength : ts.length using Nat.strongRecOn generalizing σ n ts docs with
  | ind m ih =>
  subst hlength
  cases ts with
  | nil =>
    rw [Place.walk, List.map_nil, walk] at hwalk
    split at hwalk
    · cases hwalk
      exact ⟨[], .nil n⟩
    · cases hwalk
  | cons t rest =>
    rw [List.map_cons, Place.walk_cons hσ.isOutside] at hwalk
    obtain ⟨τ, hnext, hrest⟩ := Option.bind_eq_some_iff.mp hwalk
    cases hmark : hasMark t with
    | false =>
      have hτ := hσ.next_of_not_hasMark hmark (hfence t List.mem_cons_self) hnext
      obtain ⟨parts, hparts⟩ := ih rest.length (Nat.lt_succ_self _) hτ hrest
        (fun other hother => hfence other (List.mem_cons_of_mem _ hother))
        (fun other hother => hfeed other (List.mem_cons_of_mem _ hother)) (Nat.succ_pos n)
        (drop_of_append [t] hn hlines) rfl
      exact ⟨_, .line hmark hparts⟩
    | true =>
      obtain ⟨w, o, rfl, hopening, hquotes, rfl⟩ :=
        Stage.next_of_hasMark hσ.isOutside hmark hnext
      rw [← Place.walk_cons rfl] at hwalk
      obtain ⟨d, inner, closing, back, more, rfl, rfl, hclosing, hline, hread, hcontent, hmore⟩ :=
        exists_docstring hmark hopening hquotes hwalk
      have hsplit : t :: (inner ++ closing :: back) = (t :: (inner ++ [closing])) ++ back := by simp
      have hback : ∀ other ∈ back, other ∈ t :: (inner ++ closing :: back) := by
        intro other hother
        rw [hsplit]
        exact List.mem_append_right _ hother
      obtain ⟨lead, _, _, hindent, _⟩ := Line.opening?_eq_some_iff.mp hopening
      have hindentation : IsIndentation o.indent := by
        rw [hindent]
        exact fun _ => List.mem_takeWhile_imp
      obtain ⟨htext, hafter⟩ := scanFrom_contentLines hindentation
        (fun other hother => hfeed other (by simp [hother])) hcontent
      have hdrop : lines.drop (n + (inner.length + 2) - 1) = back.map some := by
        rw [hsplit] at hlines
        have hdropped := drop_of_append _ hn hlines
        rwa [List.length_cons, List.length_append, List.length_singleton] at hdropped
      obtain ⟨parts, hparts⟩ := ih back.length (by simp; omega) (σ := .between w) rfl hmore
        (fun other hother => hfence other (hback other hother))
        (fun other hother => hfeed other (hback other hother)) (Nat.add_pos_left hn _) hdrop rfl
      refine ⟨_, .docstring hmark hclosing (fun _ => hasMark_of_walk_between hmore) hline ?_ htext
        hafter hparts⟩
      rw [Docstring.ReadsTo, hline, hlines, hread]

/-- The lines of a text that can be read, without the carriage returns at their ends. -/
theorem all_eq_map_some {text : Text} {doc : Document} (h : parse text = .ok doc) :
    Line.all text = (text.lines.map Text.dropReturn).map some := by
  obtain ⟨hreadable, hall⟩ := all_of_parse h
  rw [hall, List.map_map]
  refine List.map_congr_left fun line hline => ?_
  cases hraw : Line.ofRaw line with
  | none =>
    rw [hall, ← hraw] at hreadable
    exact absurd (List.mem_map_of_mem hline) hreadable
  | some t =>
    obtain ⟨rfl, _⟩ := Line.ofRaw_eq_some_iff.mp hraw
    rfl

/-- In a text without fences that can be read, the scan takes just the lines for parts of docstrings
    that the reader does, if and only if no line of a docstring leads the scan outside: the scan
    stays inside from one line of the content to the next, and is inside at the closing line unless
    nothing stands behind it. -/
theorem scan_agrees_iff {text : Text} {doc : Document} (hparse : parse text = .ok doc)
    (hfence : ∀ line ∈ text.lines, isFence line = false) :
    (∀ i role, (Role.scan text.lines)[i]? = some role →
      (role ≠ .text ↔ ∃ d ∈ doc.docstrings, d.Covers (Line.all text) (i + 1))) ↔
    ∀ d ∈ doc.docstrings, Role.text ∉ Role.scanFrom true d.contentLines ∧
      (Role.insideAfter true d.contentLines = true ∨ d.Ends (Line.all text)) := by
  have hlines := all_eq_map_some hparse
  have hwalk := walk_eq_parse text
  rw [hparse, hlines] at hwalk
  have hts : ∀ t ∈ text.lines.map Text.dropReturn, isFence t = false ∧ '\n' ∉ t := by
    intro t ht
    obtain ⟨line, hline, rfl⟩ := List.mem_map.mp ht
    refine ⟨?_, fun hmem => ?_⟩
    · rw [← isFence_trim, Text.trim_dropReturn, isFence_trim]
      exact hfence line hline
    · exact Text.feed_not_mem_of_mem_lines hline (Text.mem_of_mem_dropReturn hmem)
  obtain ⟨parts, hparts⟩ := exists_charted (Line.all text) (σ := .between .top) rfl hwalk
    (fun t ht => (hts t ht).1) (fun t ht => (hts t ht).2) Nat.one_pos hlines
  have hmarks : (text.lines.map Text.dropReturn).map hasMark = text.lines.map hasMark := by
    rw [List.map_map]
    refine List.map_congr_left fun line _ => ?_
    rw [Function.comp_apply, ← hasMark_trim, Text.trim_dropReturn, hasMark_trim]
  have hscan : Role.scan text.lines = Role.scanFrom false (text.lines.map Text.dropReturn) :=
    (Role.scanFrom_eq_of_marks hmarks false).1.symm
  rw [← hparts.partsFrom_eq_iff, hscan]
  simp only [Nat.add_comm _ 1, ← hparts.getElem?_parts_iff]
  have hlength : (Role.scanFrom false (text.lines.map Text.dropReturn)).length = parts.length := by
    rw [Role.length_scanFrom, hparts.length_eq]
  rw [partsFrom]
  generalize Role.scanFrom false (text.lines.map Text.dropReturn) = roles at hlength
  constructor
  · intro h
    apply List.ext_getElem (by rw [List.length_map, hlength])
    intro i hi hlt
    rw [List.length_map] at hi
    have hrole := h i roles[i] (List.getElem?_eq_getElem hi)
    rw [List.getElem?_eq_getElem hlt, Option.some.injEq] at hrole
    rw [List.getElem_map, Bool.eq_iff_iff, bne_iff_ne, hrole]
  · rintro rfl i role hrole
    rw [List.getElem?_map, hrole, Option.map_some, Option.some.injEq, bne_iff_ne]

/-- A docstring with a media type that holds an empty line and the mark inside a line, and one that
    is empty at the end of the text. -/
theorem scan_agrees_two_docstrings :
    let text : Text :=
      ("Feature: F\nScenario: s\nGiven x\n  \"\"\"json\n\n  a \"\"\"\n  \"\"\"\n" ++
        "Then status 200\n\"\"\"\n\"\"\"").toList
    ∃ doc, parse text = .ok doc ∧ doc.docstrings.length = 2 ∧
      ((∀ i role, (Role.scan text.lines)[i]? = some role →
        (role ≠ .text ↔ ∃ d ∈ doc.docstrings, d.Covers (Line.all text) (i + 1))) ↔
      ∀ d ∈ doc.docstrings, Role.text ∉ Role.scanFrom true d.contentLines ∧
        (Role.insideAfter true d.contentLines = true ∨ d.Ends (Line.all text))) := by
  intro text
  have hlength : (walk 1 (.between .top) (Line.all text)).map List.length = some 2 := by
    decide +kernel
  obtain ⟨docstrings, hwalk, htwo⟩ := Option.map_eq_some_iff.mp hlength
  obtain ⟨doc, hparse, rfl⟩ := exists_parse_of_walk hwalk
  exact ⟨doc, hparse, htwo, scan_agrees_iff hparse (by decide +kernel)⟩

/-- The scan leaves a docstring at a line that only starts with the mark, and the status in the next
    line of the docstring counts. -/
theorem scan_leaves_docstring :
    let text : Text := ("Feature: F\nScenario: s\nGiven x\n\"\"\"\n\"\"\"json\n" ++
      "Then status 500\n\"\"\"\nThen status 200\n").toList
    ∃ doc, parse text = .ok doc ∧ (∀ line ∈ text.lines, isFence line = false) ∧
      (Role.scan text.lines)[5]? = some .text ∧
      Check.statusAssertion? text = some ⟨6, 500⟩ ∧
      ∃ d ∈ doc.docstrings, d.Covers (Line.all text) 6 := by
  intro text
  have hwalk : walk 1 (.between .top) (Line.all text) =
      some [⟨none, "\"\"\"json\nThen status 500".toList, 4⟩] := by
    decide +kernel
  obtain ⟨doc, hparse, hdocs⟩ := exists_parse_of_walk hwalk
  refine ⟨doc, hparse, by decide +kernel, by decide +kernel, by decide +kernel, _,
    hdocs ▸ List.mem_cons_self, ?_⟩
  exact ⟨⟨8, (Line.all text).drop 7⟩, rfl, by decide, by decide⟩

end ScenarioLint.Gherkin
