import ScenarioLint.Proofs.Check.Message
import ScenarioLint.Proofs.Pipeline.Fault

/-!
The text of a report, line by line.  An issue is written on one line as far as its message is one line,
and the messages of the built-in checks are, but for the line feeds that the method and the path of an
endpoint bring into them.
-/

namespace ScenarioLint

/-- A line feed stands in the path, or in the method but not in the white space around it. -/
def Endpoint.HasFeed (e : Endpoint) : Prop :=
  '\n' ∈ e.method.trim ∨ '\n' ∈ e.path

instance (e : Endpoint) : Decidable e.HasFeed :=
  inferInstanceAs (Decidable (_ ∨ _))

theorem feed_mem_methodName_iff {method : Text} :
    '\n' ∈ methodName method ↔ '\n' ∈ method.trim := by
  rw [methodName, Text.toUpper, List.mem_map]
  constructor
  · rintro ⟨c, hc, hupper⟩
    rcases Text.toUpper_eq_self_or c with hsame | hvisible
    · rwa [← hupper, hsame]
    · rw [hupper] at hvisible
      cases hvisible
  · exact fun hfeed => ⟨'\n', hfeed, by decide⟩

theorem feed_mem_endpointText_iff {r : Record} :
    '\n' ∈ (Context.ofRecord r).endpointText ↔ r.endpoint.HasFeed := by
  have hspace : '\n' ≠ ' ' := by decide
  rw [Context.endpointText, List.mem_append, List.mem_cons, or_iff_right hspace]
  exact or_congr feed_mem_methodName_iff Iff.rfl

namespace Text

/-- Texts hold as many marks as others that hold as many one by one. -/
theorem count_flatMap_congr {α : Type} {f g : α → Text} {mark : Char} {xs : List α}
    (h : ∀ x ∈ xs, (f x).count mark = (g x).count mark) :
    (xs.flatMap f).count mark = (xs.flatMap g).count mark := by
  induction xs with
  | nil => rfl
  | cons x xs ih =>
    rw [List.flatMap_cons, List.flatMap_cons, List.count_append, List.count_append,
      h x List.mem_cons_self, ih fun y hy => h y (List.mem_cons_of_mem x hy)]

end Text

namespace Digest

theorem feed_not_mem_hex (bytes : List UInt8) : '\n' ∉ hex bytes := by
  have hdigit : ∀ n < 16, Nat.digitChar n ≠ '\n' := by decide
  rw [hex, List.mem_flatMap]
  rintro ⟨b, _, hmem⟩
  have hbyte := b.toNat_lt
  rw [List.mem_pair] at hmem
  rcases hmem with hhigh | hlow
  · exact hdigit _ (by omega) hhigh.symm
  · exact hdigit _ (by omega) hlow.symm

end Digest

namespace Report

theorem firstBytes?_prefix {n : Nat} {t front : Text} (h : firstBytes? n t = some front) :
    front <+: t := by
  induction t generalizing n front with
  | nil =>
    cases n with
    | zero => cases h; exact List.nil_prefix
    | succ n => cases h
  | cons c t ih =>
    cases n with
    | zero => cases h; exact List.nil_prefix
    | succ n =>
      rw [firstBytes?] at h
      split at h
      · obtain ⟨front, hfront, rfl⟩ := Option.map_eq_some_iff.mp h
        exact List.cons_prefix_cons.mpr ⟨rfl, ih hfront⟩
      · cases h

theorem shownFingerprint_prefix (r : Report) : r.shownFingerprint <+: r.fingerprint := by
  rw [shownFingerprint]
  cases hbytes : firstBytes? 16 r.fingerprint with
  | none => exact List.prefix_refl _
  | some front => exact firstBytes?_prefix hbytes

variable {r : Report}

theorem feed_not_mem_summaryLine (h : '\n' ∉ r.fingerprint) : '\n' ∉ r.summaryLine := by
  have hshown : '\n' ∉ r.shownFingerprint := fun hmem => h (r.shownFingerprint_prefix.subset hmem)
  have hnumber : ∀ n, '\n' ∉ Text.ofNat n := Text.not_mem_ofNat rfl
  simp [summaryLine, hnumber, hshown]

theorem getLast?_summaryLine (r : Report) : r.summaryLine.getLast? = some ')' := by
  rw [summaryLine, List.getLast?_concat]

theorem count_feed_issueLine (i : Issue) :
    (issueLine i).count '\n' = i.message.count '\n' := by
  have hname : ∀ category ∈ Category.all, '\n' ∉ '[' :: (category.name ++ "] ".toList) := by decide
  have hcategory : i.category ∈ Category.all := by cases i.category <;> decide
  have hline : issueLine i = '[' :: (i.category.name ++ "] ".toList) ++ i.message := by
    simp [issueLine]
  rw [hline, List.count_append, List.count_eq_zero.mpr (hname _ hcategory), Nat.zero_add]

theorem feed_mem_issueLine_iff {i : Issue} : '\n' ∈ issueLine i ↔ '\n' ∈ i.message := by
  rw [← List.count_pos_iff, count_feed_issueLine, List.count_pos_iff]

theorem getLast?_issueLine {i : Issue} (h : i.message.getLast? ≠ some '\r') :
    (issueLine i).getLast? ≠ some '\r' := by
  have hline : issueLine i = '[' :: (i.category.name ++ [']']) ++ [' '] ++ i.message := by
    simp [issueLine]
  rw [hline, List.getLast?_append, List.getLast?_concat]
  cases hlast : i.message.getLast? with
  | none => decide
  | some c =>
    rw [hlast] at h
    exact h

/-- The text of a report has a line for each issue, one for the summary, and one more for each line feed
    in a message. -/
theorem length_lines_text (h : '\n' ∉ r.fingerprint) :
    r.text.lines.length = r.issues.length + 1 + (r.issues.flatMap Issue.message).count '\n' := by
  have hmessages : (r.issues.map issueLine).flatten.count '\n' =
      (r.issues.flatMap Issue.message).count '\n' := by
    rw [← List.flatMap_def]
    exact Text.count_flatMap_congr fun i _ => count_feed_issueLine i
  have hsummary : List.count '\n' [r.summaryLine].flatten = 0 := by
    rw [List.flatten_singleton, List.count_eq_zero]
    exact feed_not_mem_summaryLine h
  rw [text, Text.length_lines_unlines, List.flatten_append, List.count_append, hmessages, hsummary,
    Nat.add_zero, List.length_append, List.length_map, List.length_singleton]

theorem lines_text_iff (h : '\n' ∉ r.fingerprint)
    (hends : ∀ i ∈ r.issues, i.message.getLast? ≠ some '\r') :
    r.text.lines = r.issues.map issueLine ++ [r.summaryLine] ↔
      ∀ i ∈ r.issues, '\n' ∉ i.message := by
  rw [text, Text.lines_unlines_eq_self_iff]
  · rw [List.forall_mem_append, List.forall_mem_map, List.forall_mem_singleton,
      and_iff_left (feed_not_mem_summaryLine h)]
    simp only [feed_mem_issueLine_iff]
  · intro line hline
    rcases List.mem_append.mp hline with hline | hline
    · obtain ⟨i, hi, rfl⟩ := List.mem_map.mp hline
      exact getLast?_issueLine (hends i hi)
    · rw [List.mem_singleton.mp hline, getLast?_summaryLine]
      decide

end Report

theorem Issue.Concerns.feed_mem_iff {i : Issue} {category : Category} {r : Record}
    (h : i.Concerns category (.ofRecord r)) : '\n' ∈ i.message ↔ r.endpoint.HasFeed := by
  rw [← List.count_pos_iff, h.feeds, List.count_pos_iff, feed_mem_endpointText_iff]

namespace Pipeline

variable {policy : Policy} {options : PipelineOptions} {records : List Record}

/-- Without checks that were added, all issues of an outcome are about its record. -/
theorem concerns_of_mem_outcome {i : Nat} {r : Record} {issue : Issue}
    (h : issue ∈ ((assemble policy [] (some options)).outcome i r).issues) :
    ∃ category, issue.Concerns category (.ofRecord r) := by
  rw [outcome_assemble, List.flatMap_nil, List.append_nil, builtinIssues, List.mem_append,
    List.mem_append] at h
  rcases h with (h | h) | h
  · exact ⟨_, Check.concerns_of_mem_vocabulary h⟩
  · exact ⟨_, Check.concerns_of_mem_status h⟩
  · split at h
    · exact ⟨_, Check.concerns_of_mem_grammar h⟩
    · cases h

/-- A batch with the outcomes of its records when no checks were added. -/
def checkedRecords (policy : Policy) (options : PipelineOptions) (records : List Record) :
    List (Record × Outcome) :=
  records.zip ((assemble policy [] (some options)).run records).2.scenarios

theorem concerns_of_mem_checkedRecords {ro : Record × Outcome} {issue : Issue}
    (hro : ro ∈ checkedRecords policy options records) (h : issue ∈ ro.2.issues) :
    ∃ category, issue.Concerns category (.ofRecord ro.1) := by
  obtain ⟨i, hi⟩ := List.mem_iff_getElem?.mp hro
  obtain ⟨hr, ho⟩ := List.getElem?_zip_eq_some.mp hi
  rw [getElem?_scenarios, hr] at ho
  rw [← Option.some.inj ho] at h
  exact concerns_of_mem_outcome h

/-- The issues of a report are those of the outcomes, each of which stands at the place of its record,
    and those of the batch. -/
theorem issues_assemble (policy : Policy) (options : PipelineOptions) (records : List Record) :
    ((assemble policy [] (some options)).run records).2.issues =
      ((checkedRecords policy options records).flatMap fun ro => ro.2.issues) ++
        Check.checklist policy (records.map Record.kind) := by
  have hscenarios : (checkedRecords policy options records).map Prod.snd =
      ((assemble policy [] (some options)).run records).2.scenarios :=
    List.map_snd_zip (by rw [run_eq, List.length_mapIdx])
  have hpolicy : (assemble policy [] (some options)).policy = policy := by rw [assemble_eq]
  rw [← List.flatMap_map, hscenarios, Report.issues, run_eq, hpolicy]

theorem mem_issues_assemble {issue : Issue} :
    issue ∈ ((assemble policy [] (some options)).run records).2.issues ↔
      (∃ ro ∈ checkedRecords policy options records, issue ∈ ro.2.issues) ∨
        issue ∈ Check.checklist policy (records.map Record.kind) := by
  rw [issues_assemble, List.mem_append, List.mem_flatMap]

/-- The messages of a report hold the line feeds of the endpoints, that of a record once for each issue
    of its scenario. -/
theorem count_feed_messages (policy : Policy) (options : PipelineOptions) (records : List Record) :
    (((assemble policy [] (some options)).run records).2.issues.flatMap Issue.message).count '\n' =
      ((checkedRecords policy options records).flatMap fun ro =>
        ro.2.issues.flatMap fun _ => (Context.ofRecord ro.1).endpointText).count '\n' := by
  have hbatch : ((Check.checklist policy (records.map Record.kind)).flatMap Issue.message).count
      '\n' = 0 := by
    rw [List.count_eq_zero, List.mem_flatMap]
    rintro ⟨issue, hissue, hfeed⟩
    exact (Check.feed_not_mem_of_mem_checklist hissue).2.1 hfeed
  rw [issues_assemble, List.flatMap_append, List.count_append, hbatch, Nat.add_zero,
    List.flatMap_assoc]
  refine Text.count_flatMap_congr fun ro hro => Text.count_flatMap_congr fun issue hissue => ?_
  obtain ⟨_, hconcerns⟩ := concerns_of_mem_checkedRecords hro hissue
  exact hconcerns.feeds

/-- Without checks that were added, the text of a report has a line for each issue in the order of
    the report and the summary behind them, if and only if no scenario with an issue has a line feed
    in its path or inside its method.  Each of these line feeds makes one line more of each issue of
    its scenario, and nothing else does, be it in the text of a scenario or in the policy. -/
theorem lines_text_run (policy : Policy) (options : PipelineOptions) (records : List Record) :
    let report := ((assemble policy [] (some options)).run records).2
    (report.text.lines = report.issues.map Report.issueLine ++ [report.summaryLine] ↔
      ∀ ro ∈ records.zip report.scenarios, ro.2.issues ≠ [] → ¬ ro.1.endpoint.HasFeed) ∧
    report.text.lines.length = report.issues.length + 1 +
      ((records.zip report.scenarios).flatMap fun ro =>
        ro.2.issues.flatMap fun _ => (Context.ofRecord ro.1).endpointText).count '\n' := by
  have hfingerprint :
      '\n' ∉ ((assemble policy [] (some options)).run records).2.fingerprint := by
    rw [run_eq]
    exact Digest.feed_not_mem_hex _
  dsimp only
  rw [Report.length_lines_text hfingerprint, count_feed_messages, Report.lines_text_iff hfingerprint]
  · refine ⟨⟨fun hmessages ro hro hne hfeed => ?_, fun hendpoints issue hissue hfeed => ?_⟩, rfl⟩
    · obtain ⟨issue, hissue⟩ := List.exists_mem_of_ne_nil _ hne
      obtain ⟨_, hconcerns⟩ := concerns_of_mem_checkedRecords hro hissue
      exact hmessages issue (mem_issues_assemble.mpr (.inl ⟨ro, hro, hissue⟩))
        (hconcerns.feed_mem_iff.mpr hfeed)
    · rcases mem_issues_assemble.mp hissue with ⟨ro, hro, hmem⟩ | hmem
      · obtain ⟨_, hconcerns⟩ := concerns_of_mem_checkedRecords hro hmem
        exact hendpoints ro hro (List.ne_nil_of_mem hmem) (hconcerns.feed_mem_iff.mp hfeed)
      · exact (Check.feed_not_mem_of_mem_checklist hmem).2.1 hfeed
  · intro issue hissue
    rcases mem_issues_assemble.mp hissue with ⟨ro, hro, hmem⟩ | hmem
    · obtain ⟨_, hconcerns⟩ := concerns_of_mem_checkedRecords hro hmem
      exact hconcerns.ends
    · exact (Check.feed_not_mem_of_mem_checklist hmem).2.2

/-- A path that ends its line and goes on like another issue. -/
theorem not_lines_text_run :
    let policy := Policy.compile none none { Settings.standard with targets := .empty }
    let options : PipelineOptions := ⟨false, false, .standard⟩
    let r : Record := ⟨⟨"/p\n[status] forged".toList, "GET".toList, none, none⟩, .happy,
      "Given url 'http://h'\nWhen method GET\n".toList, none⟩
    let report := ((assemble policy [] (some options)).run [r]).2
    report.issues.length = 1 ∧ report.text.lines.length = 3 ∧
      report.text.lines ≠ report.issues.map Report.issueLine ++ [report.summaryLine] := by
  intro policy options r report
  have hreport : report = ⟨policy.fingerprintText,
      [r].mapIdx (assemble policy [] (some options)).outcome, []⟩ := by
    rw [show report = ((assemble policy [] (some options)).run [r]).2 from rfl, run_eq]
    rfl
  have hissues : report.issues.length = 1 := by
    rw [hreport]
    decide +kernel
  have hlines : report.text.lines.length = 3 := by
    have hfeeds : (report.issues.flatMap Issue.message).count '\n' = 1 := by
      rw [hreport]
      decide +kernel
    have hfingerprint : '\n' ∉ report.fingerprint := by
      rw [hreport]
      exact Digest.feed_not_mem_hex _
    rw [Report.length_lines_text hfingerprint, hissues, hfeeds]
  refine ⟨hissues, hlines, fun heq => ?_⟩
  have hlength := congrArg List.length heq
  rw [List.length_append, List.length_map, hlines, hissues] at hlength
  cases hlength

end Pipeline

end ScenarioLint
