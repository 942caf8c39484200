import ScenarioLint.CommandLine.Program
import ScenarioLint.Proofs.Command
import ScenarioLint.Proofs.Pipeline.Lines
import ScenarioLint.Proofs.Pipeline.Repeat
import ScenarioLint.Proofs.Report

/-!
A check from its arguments to its exit code.  What it prints, what it writes and how it ends are
made of one run on the batch, which depends on the files that are read and on whether the grammar is
checked.  It fails before it prints or writes anything, if it fails at all.
-/

namespace ScenarioLint

namespace Pipeline

/-- Each record that a run leaves has the text of its outcome. -/
theorem map_canonicalText_fst_run (p : Pipeline) (records : List Record) :
    (p.run records).1.map Record.canonicalText =
      (p.run records).2.scenarios.map fun o => some o.canonicalText := by
  apply List.ext_getElem?
  intro i
  rw [List.getElem?_map, List.getElem?_map, getElem?_scenarios, fst_run, List.getElem?_map,
    Option.map_map, Option.map_map]
  rfl

end Pipeline

namespace Report

variable {r : Report}

theorem isClean_iff :
    r.isClean = true ↔ (∀ o ∈ r.scenarios, o.issues = []) ∧ r.batchIssues = [] := by
  rw [isClean, List.isEmpty_iff, issues, List.append_eq_nil_iff, List.flatMap_eq_nil_iff]

/-- The last line of the text of a report is the summary, whatever the issues say. -/
theorem getLast?_lines_text (h : '\n' ∉ r.fingerprint) :
    r.text.lines.getLast? = some r.summaryLine := by
  have hpieces : r.summaryLine.pieces '\n' = [r.summaryLine] :=
    Text.pieces_of_not_mem (feed_not_mem_summaryLine h)
  have hreturn : r.summaryLine.dropReturn = r.summaryLine :=
    Text.dropReturn_of_getLast (by rw [getLast?_summaryLine]; decide)
  rw [text, Text.lines_unlines_eq, List.flatMap_append, List.flatMap_singleton, hpieces,
    List.map_append, List.map_singleton, hreturn, List.getLast?_concat]

end Report

namespace CommandLine

open Command (Fails Holds policyOf resultOf printed)

/-- The outputs of a check that does not fail: its exit code, what it prints as JSON or as text, and
    the directory that it leaves, all made of one report and of the batch that it is about. -/
structure Tells (d : Directory) (result : List Record × Report) (json : Bool)
    (output : Option Text) (left : Directory) (ending : Ending) : Prop where
  exitCode : ending.exitCode =
    if (∀ o ∈ result.2.scenarios, o.issues = []) ∧ result.2.batchIssues = [] then 0 else 1
  printed : json = true → ending.stdout = printed result.2.value ∧
    (result.2.InRange → Report.ofText? ending.stdout = some result.2)
  summary : json = false → ∃ fingerprint, ending.stdout.lines.getLast? = some
    (Text.ofNat result.2.scenarios.length ++ " scenarios checked, ".toList ++
      Text.ofNat result.2.issues.length ++ " issues (policy ".toList ++ fingerprint ++ [')'])
  unwritten : output = none → left = d
  written : ∀ path ∈ output, left.read path = .ok (Record.listValue result.1).pretty

variable {environment : Environment} {d : Directory} {args : List Text} {command : Command}
  {small : Text → Bool}

theorem run_of_ok {after : Directory} {done : Completion}
    (hread : read environment args = .ok command) (h : command.runIn d small = .ok (after, done)) :
    run environment d args small = (after, ⟨if done.clean then 0 else 1, done.stdout⟩) := by
  simp only [run, hread, h, Ending.ofResult]

theorem run_of_error (hread : read environment args = .ok command)
    (h : ∃ e, command.runIn d small = .error e) :
    run environment d args small = (d, ⟨2, []⟩) := by
  obtain ⟨e, he⟩ := h
  simp only [run, hread, he, Ending.ofResult]

section Check

variable {files : PolicyFiles} {json : Bool} {request : CheckRequest} {settings : Settings}
  {records : List Record}

theorem run_of_fails (hread : read environment args = .ok ⟨files, json, .check request⟩)
    (h : Fails d files request.batch request.output) :
    run environment d args small = (d, ⟨2, []⟩) :=
  run_of_error hread (Command.exists_runIn_check_eq_error h)

theorem tells_of_run (small : Text → Bool)
    (hread : read environment args = .ok ⟨files, json, .check request⟩)
    (hfiles : Holds d.read files request.batch settings records)
    (hwritable : ∀ path ∈ request.output, d.Writable path) :
    Tells d (resultOf (policyOf d.read files settings small) request.skipGrammar records) json
      request.output (run environment d args small).1 (run environment d args small).2 := by
  obtain ⟨left, hrunIn, hunwritten, hwritten⟩ :=
    Command.exists_runIn_check json small hfiles hwritable
  rw [run_of_ok hread hrunIn, Command.checked_eq]
  generalize hresult : resultOf (policyOf d.read files settings small) request.skipGrammar records =
    result at hwritten ⊢
  have hfingerprint : '\n' ∉ result.2.fingerprint := by
    rw [← hresult, resultOf, Pipeline.run_eq]
    exact Digest.feed_not_mem_hex _
  refine ⟨?_, ?_, ?_, hunwritten, hwritten⟩
  · exact ite_congr (propext Report.isClean_iff) (fun _ => rfl) (fun _ => rfl)
  · rintro rfl
    exact ⟨rfl, Report.ofText?_printed⟩
  · rintro rfl
    exact ⟨_, Report.getLast?_lines_text hfingerprint⟩

theorem exitCode_eq_two_iff (hread : read environment args = .ok ⟨files, json, .check request⟩) :
    (run environment d args small).2.exitCode = 2 ↔
      Fails d files request.batch request.output := by
  refine ⟨fun hexit => ?_, fun hfails => by rw [run_of_fails hread hfails]⟩
  by_contra hfails
  obtain ⟨settings, records, hfiles⟩ := Command.exists_holds_of_not_fails hfails
  have hwritable : ∀ path ∈ request.output, d.Writable path := fun path hpath =>
    not_not.mp fun hnot => hfails (.output hpath hnot)
  rw [(tells_of_run small hread hfiles hwritable).exitCode] at hexit
  split at hexit <;> cases hexit

end Check

/-- The outputs of a check agree.  If the file that is named for its settings holds settings and
    its batch is one, there is one report and one repaired batch, text by text alike, which its exit
    code, its JSON, its text and its file are made of, with whatever options they are asked for; the
    batch without doubles is read from the file again.  It fails just if one of these files cannot
    be read or decoded or its file cannot be written, be there rulebooks or not, and then prints
    nothing and leaves the directory as it was. -/
theorem outputs_agree (environment : Environment) (d : Directory) (files : PolicyFiles)
    (batch : Text) (skipGrammar : Bool) (small : Text → Bool) :
    let asks (json sequential : Bool) (output : Option Text) (args : List Text) : Prop :=
      read environment args = .ok ⟨files, json, .check ⟨batch, sequential, skipGrammar, output⟩⟩
    (∀ settings records, Holds d.read files batch settings records →
      let result := resultOf (policyOf d.read files settings small) skipGrammar records
      result.1.map Record.canonicalText = result.2.scenarios.map (fun o => some o.canonicalText) ∧
      ((∀ r ∈ records, r.endpoint.IsExact) →
        Record.ofText? (Record.listValue result.1).pretty = some result.1) ∧
      ∀ json sequential output args, asks json sequential output args →
        (∀ path ∈ output, d.Writable path) →
        Tells d result json output (run environment d args small).1
          (run environment d args small).2) ∧
    ((∃ settings records, Holds d.read files batch settings records) ∨
      ∀ output, Fails d files batch output) ∧
    ∀ json sequential output args, asks json sequential output args →
      (Fails d files batch output → run environment d args small = (d, ⟨2, []⟩)) ∧
      ((run environment d args small).2.exitCode = 2 ↔ Fails d files batch output) := by
  dsimp only
  refine ⟨fun settings records hfiles => ⟨?_, fun hexact => ?_, ?_⟩, ?_, ?_⟩
  · exact Pipeline.map_canonicalText_fst_run _ records
  · obtain ⟨_, _, ht⟩ := hfiles.batch
    exact Pipeline.ofText?_pretty_run ht hexact _
  · intro json sequential output args hread hwritable
    -- stated first, so that the request is the one of `hread` when the results are compared
    have htells := tells_of_run small hread hfiles hwritable
    exact htells
  · by_cases hfails : Fails d files batch none
    · exact .inr fun output => hfails.of_none output
    · exact .inl (Command.exists_holds_of_not_fails hfails)
  · exact fun json sequential output args hread =>
      ⟨run_of_fails hread, exitCode_eq_two_iff hread⟩

/-- A check with a settings file and a batch of one record, asked for JSON and a file and asked for
    text, and the same check with a settings file that breaks off and without its batch. -/
theorem outputs_agree_of_yaml :
    let d := Directory.ofList
      [("p.yaml".toList, .file (some "allowed_keywords: [Given]".toList)),
       ("q.yaml".toList, .file (some "allowed_keywords: [Giv".toList)),
       ("b.json".toList, .file (some ("[\x7b\"raw_text\":\"Then x\",\"endpoint\":" ++
         "\x7b\"method\":\"GET\",\"path\":\"/p\"\x7d\x7d]").toList))]
    let files := { PolicyFiles.standard with settings := some "p.yaml".toList }
    let args (options : List String) : List Text := ("check" :: options).map String.toList
    let json := run ⟨none, none⟩ d
      (args ["--batch=b.json", "--policy=p.yaml", "--json", "--output=o.json"])
    let text := run ⟨none, none⟩ d (args ["--batch=b.json", "--policy=p.yaml", "--sequential"])
    (∃ settings records result, Holds d.read files "b.json".toList settings records ∧
      settings.keywords = [.given] ∧ records.map Record.rawText = ["Then x".toList] ∧
      Record.ofText? (Record.listValue result.1).pretty = some result.1 ∧
      Tells d result true (some "o.json".toList) json.1 json.2 ∧
      Tells d result false none text.1 text.2) ∧
    json.2.exitCode = 1 ∧ text.2.exitCode = 1 ∧
    run ⟨none, none⟩ d (args ["--batch=b.json", "--policy=q.yaml", "--output=o.json"]) =
      (d, ⟨2, []⟩) ∧
    run ⟨none, none⟩ d (args ["--batch=c.json", "--policy=p.yaml", "--json"]) = (d, ⟨2, []⟩) := by
  intro d files args json text
  have hsettings : Settings.HeldBy d.read "p.yaml".toList
      { Settings.standard with keywords := [.given] } :=
    ⟨.yaml, "allowed_keywords: [Given]".toList, by decide, by decide +kernel, by decide +kernel⟩
  obtain ⟨batch, hbatch, hdecoded⟩ : ∃ batch, d.read "b.json".toList = .ok batch ∧
      (Record.ofText? batch).any (fun records =>
        records.map Record.rawText = ["Then x".toList] &&
          records.all fun r => r.endpoint.bodyExample.isNone) = true :=
    ⟨_, rfl, by decide +kernel⟩
  obtain ⟨records, hrecords, hdecoded⟩ := (Option.any_eq_true _ _).mp hdecoded
  rw [Bool.and_eq_true, decide_eq_true_eq, List.all_eq_true] at hdecoded
  obtain ⟨hraw, hnone⟩ := hdecoded
  have hfiles : Holds d.read files "b.json".toList { Settings.standard with keywords := [.given] }
      records :=
    ⟨nofun, fun path hpath => Option.some.inj hpath ▸ hsettings, batch, hbatch, hrecords⟩
  have hagree (files : PolicyFiles) (batch : Text) :=
    outputs_agree ⟨none, none⟩ d files batch false Template.Pattern.isSmall
  obtain ⟨_, hdecode, htells⟩ := (hagree files "b.json".toList).1 _ _ hfiles
  have hwritable : ∀ path ∈ some "o.json".toList, d.Writable path := by
    rintro _ ⟨⟩
    exact ⟨by decide, ["o.json".toList], by decide +kernel, by decide +kernel⟩
  have hexact : ∀ r ∈ records, r.endpoint.IsExact := by
    intro r hr v hv
    rw [Option.isNone_iff_eq_none.mp (hnone r hr)] at hv
    cases hv
  have hbroken : Fails d { files with settings := some "q.yaml".toList } "b.json".toList
      (some "o.json".toList) :=
    .settings rfl (.text (e := ⟨.yaml, none⟩) rfl rfl (by decide +kernel))
  have habsent : Fails d files "c.json".toList none :=
    .batch (.file (e := .notFound) (by decide +kernel))
  refine ⟨⟨_, records, _, hfiles, rfl, hraw, hdecode hexact, ?json, ?text⟩, by decide +kernel,
    by decide +kernel, ?broken, ?absent⟩
  case json => exact htells true false _ _ (by decide +kernel) hwritable
  case text => exact htells false true none _ (by decide +kernel) nofun
  case broken =>
    exact ((hagree _ _).2.2 false false _ _ (by decide +kernel)).1 hbroken
  case absent =>
    exact ((hagree _ _).2.2 true false _ _ (by decide +kernel)).1 habsent

end CommandLine

end ScenarioLint
