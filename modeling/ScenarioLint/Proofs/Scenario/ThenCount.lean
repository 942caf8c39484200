import ScenarioLint.Proofs.Scenario.Output
import ScenarioLint.Proofs.Settings.Matrix

/-!
How many lines lead with `Then`.  Each line that a repair inserts starts with another word or with a
token of JSON, so the number can change only where a text that is put into a line breaks it.
-/

namespace ScenarioLint

namespace Scenario

/-- A line that looks like an assertion, whatever stands around it. -/
def leadsThen (line : Text) : Bool :=
  "Then".toList.isPrefixOf line.trimStart

/-- The number of lines that look like assertions. -/
def thenCount (t : Text) : Nat :=
  t.lines.countP leadsThen

section Counting

theorem leadsThen_iff {line : Text} : leadsThen line = true ↔ "Then".toList <+: line.trimStart := by
  rw [leadsThen, List.isPrefixOf_iff_prefix]

theorem leadsThen_append_left {ws : Text} (hws : ws.isBlank = true) (line : Text) :
    leadsThen (ws ++ line) = leadsThen line := by
  rw [leadsThen, Text.trimStart_append_of_isBlank hws, leadsThen]

theorem leadsThen_append_right {ws : Text} (hws : ws.isBlank = true) (line : Text) :
    leadsThen (line ++ ws) = leadsThen line := by
  rw [Bool.eq_iff_iff, leadsThen_iff, leadsThen_iff, Text.trimStart, List.dropWhile_append]
  split
  · rename_i hblank
    have hnil : ws.dropWhile isSpace = [] := List.dropWhile_eq_nil_iff.mpr (Text.isBlank_iff.mp hws)
    rw [hnil, Text.trimStart, List.isEmpty_iff.mp hblank]
  · exact Text.isPrefix_append_iff (by decide) hws _

theorem leadsThen_dropReturn (line : Text) : leadsThen line.dropReturn = leadsThen line := by
  obtain ⟨ws, hws, hblank⟩ := Text.exists_dropReturn_append line
  conv_rhs => rw [hws]
  exact (leadsThen_append_right hblank _).symm

theorem leadsThen_of_head {t : Text} {c : Char} (hc : t.head? = some c) (hspace : isSpace c = false)
    (hthen : c ≠ 'T') : leadsThen t = false := by
  obtain ⟨rest, rfl⟩ := List.head?_eq_some_iff.mp hc
  have htrim : Text.trimStart (c :: rest) = c :: rest :=
    Text.trimStart_of_head fun _ hd => Option.some.inj hd ▸ hspace
  rw [Bool.eq_false_iff, ne_eq, leadsThen_iff, htrim]
  exact fun h => hthen (List.cons_prefix_cons.mp h).1.symm

theorem leadsThen_of_isFence {line : Text} (h : isFence line = true) : leadsThen line = false := by
  rw [isFence, List.isPrefixOf_iff_prefix] at h
  obtain ⟨more, hmore⟩ := h
  rw [leadsThen, ← hmore]
  rfl

/-- The endings of lines do not matter for the number. -/
theorem thenCount_eq (t : Text) : thenCount t = (Text.pieces '\n' t).countP leadsThen := by
  obtain ⟨front, last, hpieces⟩ :=
    (List.eq_nil_or_concat' _).resolve_left (Text.pieces_ne_nil '\n' t)
  have hfront : (front.map Text.dropReturn).countP leadsThen = front.countP leadsThen := by
    rw [List.countP_map]
    exact List.countP_congr fun line _ => by rw [Function.comp_apply, leadsThen_dropReturn]
  rw [thenCount, Text.lines, hpieces]
  simp only [List.dropLast_concat, List.getLastD_concat, List.countP_append, hfront]
  cases last with
  | nil => rfl
  | cons => rfl

theorem thenCount_append_feed (s t : Text) :
    thenCount (s ++ '\n' :: t) = thenCount s + thenCount t := by
  rw [thenCount_eq, thenCount_eq, thenCount_eq, Text.pieces_append_cons, List.countP_append]

/-- Written lines are counted one by one, each with the lines that it breaks into. -/
theorem thenCount_unlines_cons (line : Text) (rest : List Text) :
    thenCount (Text.unlines (line :: rest)) = thenCount line + thenCount (Text.unlines rest) := by
  rw [← thenCount_append_feed]
  simp [Text.unlines]

theorem thenCount_unlines_append (front back : List Text) :
    thenCount (Text.unlines (front ++ back)) =
      thenCount (Text.unlines front) + thenCount (Text.unlines back) := by
  induction front with
  | nil => exact (Nat.zero_add _).symm
  | cons line front ih =>
    rw [List.cons_append, thenCount_unlines_cons, thenCount_unlines_cons, ih, Nat.add_assoc]

theorem thenCount_unlines_of_forall {lines : List Text} (h : ∀ line ∈ lines, thenCount line = 0) :
    thenCount (Text.unlines lines) = 0 := by
  induction lines with
  | nil => rfl
  | cons line rest ih =>
    obtain ⟨hline, hrest⟩ := List.forall_mem_cons.mp h
    rw [thenCount_unlines_cons, hline, ih hrest]

theorem thenCount_of_feed_not_mem {line : Text} (h : '\n' ∉ line) :
    thenCount line = if leadsThen line then 1 else 0 := by
  rw [thenCount_eq, Text.pieces_of_not_mem h, List.countP_singleton]

theorem thenCount_unlines {lines : List Text} (h : ∀ line ∈ lines, '\n' ∉ line) :
    thenCount (Text.unlines lines) = lines.countP leadsThen := by
  induction lines with
  | nil => rfl
  | cons line rest ih =>
    obtain ⟨hline, hrest⟩ := List.forall_mem_cons.mp h
    rw [thenCount_unlines_cons, ih hrest, thenCount_of_feed_not_mem hline, List.countP_cons,
      Nat.add_comm]

/-- White space in front of a text matters as little as that behind it, line feeds included. -/
theorem thenCount_append_left {ws : Text} (hws : ws.isBlank = true) (t : Text) :
    thenCount (ws ++ t) = thenCount t := by
  induction ws with
  | nil => rfl
  | cons c ws ih =>
    obtain ⟨hc, hblank⟩ := List.forall_mem_cons.mp (Text.isBlank_iff.mp hws)
    have hrest := ih (Text.isBlank_iff.mpr hblank)
    rw [List.cons_append, ← hrest]
    by_cases hfeed : c = '\n'
    · rw [hfeed]
      exact (thenCount_append_feed [] _).trans (Nat.zero_add _)
    · obtain ⟨piece, done, hpieces, hcons⟩ := Text.exists_pieces_cons hfeed (ws ++ t)
      have hspace : Text.isBlank [c] = true := Text.isBlank_iff.mpr (by simpa using hc)
      have hlead : leadsThen (c :: piece) = leadsThen piece := leadsThen_append_left hspace piece
      rw [thenCount_eq, thenCount_eq, hpieces, hcons, List.countP_cons, List.countP_cons, hlead]

theorem thenCount_of_isBlank {t : Text} (h : t.isBlank = true) : thenCount t = 0 := by
  have hnil := thenCount_append_left h []
  rwa [List.append_nil] at hnil

/-- A line that starts with something else is counted only for what it breaks into. -/
theorem thenCount_append_of_head {front : Text} {c : Char} (hc : front.head? = some c)
    (hspace : isSpace c = false) (hthen : c ≠ 'T') (hfeed : '\n' ∉ front) (t : Text) :
    thenCount (front ++ t) = (Text.pieces '\n' t).tail.countP leadsThen := by
  obtain ⟨piece, more, ht, hpieces⟩ := Text.exists_pieces_append hfeed t
  have hhead : (front ++ piece).head? = some c := by
    rw [List.head?_append, hc, Option.some_or]
  rw [thenCount_eq, hpieces, List.countP_cons, leadsThen_of_head hhead hspace hthen, ht]
  rfl

theorem thenCount_of_head {line : Text} {c : Char} (hc : line.head? = some c)
    (hspace : isSpace c = false) (hthen : c ≠ 'T') (hfeed : '\n' ∉ line) : thenCount line = 0 := by
  have hcount := thenCount_append_of_head hc hspace hthen hfeed []
  rwa [List.append_nil] at hcount

end Counting

section Repair

variable {options : RepairOptions} {e : Endpoint} {indent : Text} {lines : List Text}

theorem thenCount_unlines_insertAt (lines block : List Text) (i : Nat) :
    thenCount (Text.unlines (insertAt lines i block)) =
      thenCount (Text.unlines lines) + thenCount (Text.unlines block) := by
  have hsplit := thenCount_unlines_append (lines.take i) (lines.drop i)
  rw [List.take_append_drop] at hsplit
  rw [insertAt_eq_append, thenCount_unlines_append, thenCount_unlines_append, hsplit]
  omega

theorem thenCount_unlines_trimLines (lines : List Text) :
    thenCount (Text.unlines (trimLines lines)) = thenCount (Text.unlines lines) := by
  have hblank : ∀ {ls : List Text}, (∀ line ∈ ls, line.isBlank = true) →
      thenCount (Text.unlines ls) = 0 := fun hls =>
    thenCount_unlines_of_forall fun line hline => thenCount_of_isBlank (hls line hline)
  obtain ⟨front, back, hlines, hall⟩ := exists_append_trimLines lines
  rw [List.forall_mem_append] at hall
  conv_rhs => rw [hlines]
  rw [thenCount_unlines_append, thenCount_unlines_append, hblank hall.1, hblank hall.2,
    Nat.zero_add, Nat.add_zero]

theorem thenCount_unlines_fencelessLines (text : Text) :
    thenCount (Text.unlines (fencelessLines text)) = thenCount text := by
  rw [thenCount_unlines fun line hline => (stays_of_mem_fencelessLines hline).feed, fencelessLines,
    List.countP_filter, thenCount]
  refine List.countP_congr fun line _ => ?_
  cases hfence : isFence line with
  | false => simp
  | true => simp [leadsThen_of_isFence hfence]

theorem thenCount_repair_eq (options : RepairOptions) (e : Endpoint) (text : Text) :
    thenCount (repair options e text) =
      thenCount (Text.unlines (repairedLines options e (fencelessLines text))) := by
  rw [← thenCount_unlines_trimLines]
  by_cases hnil : trimLines (repairedLines options e (fencelessLines text)) = []
  · rw [repair, hnil]
    rfl
  · rw [repair_eq_unlines options e text hnil]

/-- No word that leads an endpoint line starts like an assertion. -/
theorem exists_head_of_spells {word : Text} (h : Spells endpointWords word) :
    ∃ c, word.head? = some c ∧ isSpace c = false ∧ c ≠ 'T' := by
  obtain ⟨c, hc, hspace, _⟩ := h.startsVisibly endpointWords_visible
  obtain ⟨spelled, hspelled, hword⟩ := h
  refine ⟨c, hc, hspace, ?_⟩
  rintro rfl
  have hfirst : ∀ other ∈ endpointWords, (other.map foldCase).head? ≠ some (foldCase 'T') := by
    decide
  apply hfirst spelled hspelled
  rw [← hword, List.head?_map, hc, Option.map_some]

theorem thenCount_of_endpointLine {line : Text} (hfeed : '\n' ∉ line)
    (h : (endpointLine? line).isSome = true) : thenCount line = 0 := by
  obtain ⟨parts, hparts⟩ := Option.isSome_iff_exists.mp h
  obtain ⟨rest, rfl, ⟨margin, word, more, name, pad, hlead, hmargin, hword, _⟩, _⟩ :=
    endpointLine?_eq_some_iff.mp hparts
  obtain ⟨c, hc, hspace, hthen⟩ := exists_head_of_spells hword
  rw [hlead, List.append_assoc] at hfeed ⊢
  rw [thenCount_append_left hmargin]
  refine thenCount_of_head ?_ hspace hthen fun hmem => hfeed (List.mem_append_right _ hmem)
  rw [List.append_assoc, List.head?_append, hc, Option.some_or]

theorem thenCount_headerLineOf (hindent : indent.isBlank = true)
    (hcontentType : '\n' ∉ options.contentType) : thenCount (headerLineOf options indent) = 0 := by
  rw [headerLineOf, List.append_assoc, List.append_assoc, thenCount_append_left hindent]
  exact thenCount_of_head rfl rfl (by decide) (by simp [hcontentType])

/-- Capitals hold none of the small letters of an assertion, so a method may break its line and
    still adds none. -/
theorem thenCount_executionLineOf (hindent : indent.isBlank = true) (e : Endpoint) :
    thenCount (executionLineOf e indent) = 0 := by
  have hupper : 'h' ∉ e.methodUpper := fun hmem =>
    absurd (Text.isLower_of_mem_methodName hmem) (by decide)
  rw [executionLineOf, List.append_assoc, thenCount_append_left hindent,
    thenCount_append_of_head rfl rfl (by decide) (by decide), List.countP_eq_zero]
  intro piece hpiece hthen
  obtain ⟨more, hmore⟩ := leadsThen_iff.mp hthen
  have hmem : 'h' ∈ piece.trimStart := by
    rw [← hmore]
    exact List.mem_append_left _ (by decide)
  obtain ⟨pre, post, hsplit, _⟩ := Text.exists_of_mem_pieces (List.mem_of_mem_tail hpiece)
  apply hupper
  rw [hsplit]
  exact List.mem_append_left _ (List.mem_append_right _ ((List.dropWhile_suffix _).subset hmem))

/-- The lines of a body example start with tokens of JSON. -/
theorem thenCount_requestBlock (hindent : indent.isBlank = true) (body : Json.Value) :
    thenCount (Text.unlines (requestBlock indent body)) = 0 := by
  have hbody : ∀ line ∈ body.pretty.lines, thenCount (indent ++ line) = 0 := by
    intro line hline
    have hfeed := Text.feed_not_mem_of_mem_lines hline
    obtain ⟨n, c, rest, rfl, hc⟩ := Json.Value.exists_opening_of_mem_lines hline
    have hspaces : Text.isBlank (List.replicate n ' ') = true :=
      Text.isBlank_iff.mpr fun d hd => List.eq_of_mem_replicate hd ▸ rfl
    obtain ⟨hspace, hthen⟩ := Json.Value.visible_of_isOpening hc
    rw [thenCount_append_left hindent, thenCount_append_left hspaces]
    exact thenCount_of_head rfl hspace hthen fun hmem => hfeed (List.mem_append_right _ hmem)
  rw [requestBlock]
  apply thenCount_unlines_of_forall
  rw [List.forall_mem_append, List.forall_mem_append, List.forall_mem_map]
  refine ⟨⟨?_, hbody⟩, ?_⟩
  all_goals
    simp only [List.forall_mem_cons, thenCount_append_left hindent]
    decide

/-- The line of a repair that names the endpoint: the first endpoint line with its value qualified,
    or the line that is made. -/
def writtenEndpoint (e : Endpoint) (indent : Text) (lines : List Text) : Text :=
  (withEndpoint e indent lines).1.getD (withEndpoint e indent lines).2 []

theorem thenCount_withEndpoint (hlines : ∀ line ∈ lines, '\n' ∉ line) (e : Endpoint)
    (indent : Text) : thenCount (Text.unlines (withEndpoint e indent lines).1) =
      thenCount (Text.unlines lines) + thenCount (writtenEndpoint e indent lines) := by
  rw [writtenEndpoint]
  obtain ⟨front, line, back, rfl, _, _, hendpoint, _, heq⟩ | ⟨_, heq⟩ :=
    withEndpoint_cases e indent lines
  · have hzero : thenCount line = 0 := thenCount_of_endpointLine (hlines line (by simp)) hendpoint
    have hwritten : (front ++ qualifyLine e line :: back).getD front.length [] =
        qualifyLine e line := by
      simp
    rw [heq, hwritten, thenCount_unlines_append, thenCount_unlines_append,
      thenCount_unlines_cons, thenCount_unlines_cons, hzero]
    omega
  · have hle := (outside_under_header lines).1
    rw [heq]
    generalize (headerAt? lines).elim 0 (· + 1) = i at hle ⊢
    have hwritten : (insertAt lines i [endpointLineOf e indent]).getD i [] =
        endpointLineOf e indent := by
      have hlength := List.length_take_of_le hle
      rw [insertAt_eq_append, List.getD_eq_getElem?_getD, List.getElem?_append_right hlength.le,
        hlength]
      simp
    rw [hwritten, thenCount_unlines_insertAt, thenCount_unlines_cons]
    rfl

theorem thenCount_withRequest (hindent : indent.isBlank = true)
    (hcontentType : '\n' ∉ options.contentType) (e : Endpoint) (endpointAt : Nat)
    (lines : List Text) :
    thenCount (Text.unlines (withRequest options e indent endpointAt lines)) =
      thenCount (Text.unlines lines) := by
  have hheader : thenCount (Text.unlines (withHeader options indent endpointAt lines).1) =
      thenCount (Text.unlines lines) := by
    obtain heq | heq := fst_withHeader_cases options indent endpointAt lines
    · rw [heq]
    · rw [heq, thenCount_unlines_insertAt, thenCount_unlines_cons,
        thenCount_headerLineOf hindent hcontentType]
      rfl
  rw [withRequest]
  cases e.body? with
  | none => rfl
  | some body =>
    dsimp only
    split
    · exact hheader
    · rw [thenCount_unlines_insertAt, thenCount_requestBlock hindent, hheader, Nat.add_zero]

theorem thenCount_withExecution (hindent : indent.isBlank = true) (e : Endpoint) (endpointAt : Nat)
    (lines : List Text) :
    thenCount (Text.unlines (withExecution e indent endpointAt lines)) =
      thenCount (Text.unlines lines) := by
  rw [withExecution]
  split
  · rfl
  · dsimp only
    rw [thenCount_unlines_insertAt, ← executionLineOf, thenCount_unlines_cons,
      thenCount_executionLineOf hindent]
    rfl

/-- The line that names the endpoint is one line if the endpoint holds no line feeds. -/
theorem thenCount_writtenEndpoint (hindent : indent.isBlank = true) (hindentFeed : '\n' ∉ indent)
    (hpath : '\n' ∉ e.path) (hhost : ∀ host ∈ e.host, '\n' ∉ host)
    (hlines : ∀ line ∈ lines, Stays line) : thenCount (writtenEndpoint e indent lines) = 0 := by
  have hfeed : ∀ line ∈ (withEndpoint e indent lines).1, '\n' ∉ line := by
    intro line hline
    obtain ⟨kept, blocks, hkept, hblocks, hwoven⟩ := woven_withEndpoint e indent lines
    rcases hwoven.mem hline with hline | ⟨block, hblock, hline⟩
    · exact (stays_of_requalified hhost hkept hlines line hline).feed
    · rw [List.mem_singleton.mp (hblocks.subset hblock), List.mem_singleton] at hline
      rw [hline]
      exact (readable_endpointLineOf hindent hindentFeed
        (Endpoint.not_mem_qualify (by decide) hhost hpath)).feed
  obtain ⟨front, line, back, hsplit, hat, _, _, hendpoint, _⟩ :=
    endpointAt_withEndpoint hindent hhost hpath lines
  have hwritten : writtenEndpoint e indent lines = line := by
    rw [writtenEndpoint, hsplit, ← hat]
    simp
  rw [hwritten]
  exact thenCount_of_endpointLine (hfeed line (hsplit ▸ by simp)) hendpoint

end Repair

/-- The default repair of a scenario adds lines that lead with `Then` nowhere but in the line that
    names the endpoint: there are as many more of them as this one line breaks into.  There are none
    if neither the path nor the host breaks a line, whatever the method and the body example
    are. -/
theorem thenCount_repair (e : Endpoint) (text : Text) :
    let lines := fencelessLines text
    let indent := stepIndentOf .standard lines
    thenCount (repair .standard e text) =
      thenCount text + thenCount (writtenEndpoint e indent lines) ∧
    ('\n' ∉ e.path → (∀ host ∈ e.host, '\n' ∉ host) →
      thenCount (repair .standard e text) = thenCount text) := by
  intro lines indent
  have hlines : ∀ line ∈ lines, Stays line := fun line hline => stays_of_mem_fencelessLines hline
  have hfeed : ∀ line ∈ lines, '\n' ∉ line := fun line hline => (hlines line hline).feed
  have hindent : indent.isBlank = true := isBlank_stepIndentOf rfl lines
  have hindentFeed : '\n' ∉ indent := feed_not_mem_stepIndentOf (by decide) hfeed
  have hcount : thenCount (repair .standard e text) =
      thenCount text + thenCount (writtenEndpoint e indent lines) := by
    rw [thenCount_repair_eq, repairedLines]
    dsimp only
    rw [thenCount_withExecution hindent, thenCount_withRequest hindent (by decide),
      thenCount_withEndpoint hfeed, thenCount_unlines_fencelessLines]
  refine ⟨hcount, fun hpath hhost => ?_⟩
  rw [hcount, thenCount_writtenEndpoint hindent hindentFeed hpath hhost hlines, Nat.add_zero]

/-- A method that breaks its line, a carriage return in the path and assertions in the body example
    add nothing. -/
theorem thenCount_repair_method :
    let e : Endpoint := ⟨"/p\rThen a".toList, "get\nThen b".toList, some "h".toList,
      some (.object [("Then".toList, .string "\nThen c".toList)])⟩
    let text : Text := "Scenario: s\nThen status 200".toList
    '\n' ∉ e.path ∧ (∀ host ∈ e.host, '\n' ∉ host) ∧ thenCount text = 1 ∧
      thenCount (repair .standard e text) = thenCount text :=
  ⟨by decide, by decide, by decide, (thenCount_repair _ _).2 (by decide) (by decide)⟩

/-- A path that breaks its line adds an assertion to a scenario that has none. -/
theorem thenCount_repair_ne :
    let e : Endpoint := ⟨"/p\nThen status 200".toList, "GET".toList, none, none⟩
    let text : Text := "Scenario: s\nWhen method GET\n".toList
    thenCount text = 0 ∧ thenCount (repair .standard e text) = 1 := by
  decide +kernel

end Scenario

end ScenarioLint
