import ScenarioLint.Command.Run
import ScenarioLint.Proofs.Directory
import ScenarioLint.Proofs.Pipeline.Order

/-!
What a command takes from its files.  A check is about the settings and the batch that its files
hold.  It fails just if one of these files holds none, or if its output has no place, and the
rulebooks have no say in that: one that cannot be read is left out of the policy.
-/

namespace ScenarioLint

section Errors

variable {ε ε' α β : Type} {x : Except ε α}

theorem bind_eq_ok_iff {f : α → Except ε β} {b : β} :
    (x >>= f) = .ok b ↔ ∃ a, x = .ok a ∧ f a = .ok b := by
  cases x <;> simp [bind, Except.bind]

theorem mapError_eq_ok_iff {f : ε → ε'} {a : α} : x.mapError f = .ok a ↔ x = .ok a := by
  cases x <;> simp [Except.mapError]

theorem pure_eq_ok_iff {a b : α} : (pure a : Except ε α) = .ok b ↔ a = b := by
  simp [pure, Except.pure]

theorem exists_eq_error_iff : (∃ e, x = .error e) ↔ ∀ a, x ≠ .ok a := by
  cases x <;> simp

end Errors

namespace Settings

variable {read : Reader} {path : Text} {named : Option Text} {s : Settings}

/-- The file at a path holds the settings: its name tells a format, and in this format its text
    stands for them. -/
def HeldBy (read : Reader) (path : Text) (s : Settings) : Prop :=
  ∃ format text, Format.ofPath path = .ok format ∧ read path = .ok text ∧
    parse format text = .ok s

/-- Why a file holds no settings. -/
inductive Unusable (read : Reader) (path : Text) : Prop where
  | format {e : UnsupportedFormat} (h : Format.ofPath path = .error e)
  | file {e : FileError} (h : read path = .error e)
  | text {format : Format} {text : Text} {e : InvalidSettings}
    (hformat : Format.ofPath path = .ok format) (hread : read path = .ok text)
    (h : parse format text = .error e)

theorem unusable_iff : Unusable read path ↔ ∀ s, ¬ HeldBy read path s := by
  constructor
  · rintro h s ⟨format, text, hformat, hread, hparse⟩
    cases h with
    | format h => cases hformat.symm.trans h
    | file h => cases hread.symm.trans h
    | text hformat' hread' h =>
      cases hformat.symm.trans hformat'
      cases hread.symm.trans hread'
      cases hparse.symm.trans h
  · intro h
    cases hformat : Format.ofPath path with
    | error e => exact .format hformat
    | ok format =>
      cases hread : read path with
      | error e => exact .file hread
      | ok text =>
        cases hparse : parse format text with
        | error e => exact .text hformat hread hparse
        | ok s => exact absurd ⟨format, text, hformat, hread, hparse⟩ (h s)

/-- The settings are those of the file that is named, or the standard ones if none is. -/
theorem load_eq_ok_iff : load read named = .ok s ↔
    (named = none → s = .standard) ∧ ∀ path ∈ named, HeldBy read path s := by
  cases named with
  | none => simp [load, eq_comm]
  | some path => simp [load, bind_eq_ok_iff, mapError_eq_ok_iff, HeldBy]

end Settings

namespace Record

variable {read : Reader} {path : Text} {records : List Record}

/-- The file at a path holds the batch: its text stands for it. -/
def HeldBy (read : Reader) (path : Text) (records : List Record) : Prop :=
  ∃ text, read path = .ok text ∧ ofText? text = some records

/-- Why a file holds no batch. -/
inductive Unusable (read : Reader) (path : Text) : Prop where
  | file {e : FileError} (h : read path = .error e)
  | text {text : Text} (hread : read path = .ok text) (h : ofText? text = none)

theorem unusable_iff : Unusable read path ↔ ∀ records, ¬ HeldBy read path records := by
  constructor
  · rintro h records ⟨text, hread, htext⟩
    cases h with
    | file h => cases hread.symm.trans h
    | text hread' h =>
      cases hread.symm.trans hread'
      cases htext.symm.trans h
  · intro h
    cases hread : read path with
    | error e => exact .file hread
    | ok text =>
      cases htext : ofText? text with
      | none => exact .text hread htext
      | some records => exact absurd ⟨text, hread, htext⟩ (h records)

theorem load_eq_ok_iff : load read path = .ok records ↔ HeldBy read path records := by
  simp only [load, bind_eq_ok_iff, mapError_eq_ok_iff, HeldBy]
  refine exists_congr fun text => and_congr_right fun _ => ?_
  cases ofText? text <;> simp

end Record

namespace Command

variable {read : Reader} {files : PolicyFiles} {json : Bool} {request : CheckRequest}
  {settings : Settings} {records : List Record} {small : Text → Bool} {d : Directory}

/-- The settings and the batch that the files of a check hold. -/
structure Holds (read : Reader) (files : PolicyFiles) (batch : Text) (settings : Settings)
    (records : List Record) : Prop where
  standard : files.settings = none → settings = .standard
  settings : ∀ path ∈ files.settings, Settings.HeldBy read path settings
  batch : Record.HeldBy read batch records

/-- Why a check fails: the file that is named for its settings holds none, its batch is none, or its
    output cannot be written. -/
inductive Fails (d : Directory) (files : PolicyFiles) (batch : Text) (output : Option Text) :
    Prop where
  | settings {path : Text} (hpath : path ∈ files.settings) (h : Settings.Unusable d.read path)
  | batch (h : Record.Unusable d.read batch)
  | output {path : Text} (hpath : path ∈ output) (h : ¬ d.Writable path)

/-- What makes a check without output fail makes it fail with any output. -/
theorem Fails.of_none {batch : Text} (h : Fails d files batch none) (output : Option Text) :
    Fails d files batch output := by
  cases h with
  | settings hpath h => exact .settings hpath h
  | batch h => exact .batch h
  | output hpath h => cases hpath

theorem exists_holds_of_not_fails {batch : Text} {output : Option Text}
    (h : ¬ Fails d files batch output) :
    ∃ settings records, Holds d.read files batch settings records := by
  obtain ⟨records, hrecords⟩ : ∃ records, Record.HeldBy d.read batch records := by
    by_contra hnone
    exact h (.batch (Record.unusable_iff.mpr (not_exists.mp hnone)))
  cases hnamed : files.settings with
  | none => exact ⟨.standard, records, fun _ => rfl, by simp [hnamed], hrecords⟩
  | some path =>
    obtain ⟨settings, hsettings⟩ : ∃ settings, Settings.HeldBy d.read path settings := by
      by_contra hnone
      exact h (.settings hnamed (Settings.unusable_iff.mpr (not_exists.mp hnone)))
    exact ⟨settings, records, by simp [hnamed], by simp [hnamed, hsettings], hrecords⟩

/-- The policy of a command: a rulebook that cannot be read is left out. -/
def policyOf (read : Reader) (files : PolicyFiles) (settings : Settings) (small : Text → Bool) :
    Policy :=
  Policy.compile (read files.steps).toOption (read files.assertions).toOption settings small

/-- What a check comes to: the batch with its repaired texts, and the report on it. -/
def resultOf (policy : Policy) (skipGrammar : Bool) (records : List Record) :
    List Record × Report :=
  let options := { PipelineOptions.standard with grammar := !skipGrammar }
  (Pipeline.assemble policy [] (some options)).run records

theorem checked_eq (json : Bool) (request : CheckRequest) (policy : Policy)
    (records : List Record) :
    checked json request policy records =
      let result := resultOf policy request.skipGrammar records
      ⟨request.output.map fun path => (path, (Record.listValue result.1).pretty),
        if json then printed result.2.value else result.2.text, result.2.isClean⟩ := by
  let options := { PipelineOptions.standard with grammar := !request.skipGrammar }
  have hoptions : request.options = { options with parallel := !request.sequential } := rfl
  have hrun : (Pipeline.assemble policy [] (some request.options)).run records =
      resultOf policy request.skipGrammar records := by
    rw [hoptions, Pipeline.run_parallel]
    rfl
  rw [checked, hrun]

theorem file_checked (json : Bool) (request : CheckRequest) (policy : Policy)
    (records : List Record) : (checked json request policy records).file =
      request.output.map fun path =>
        (path, (Record.listValue (resultOf policy request.skipGrammar records).1).pretty) := by
  rw [checked_eq]

theorem run_check_eq_ok_iff {done : Completion} :
    run read ⟨files, json, .check request⟩ small = .ok done ↔
      ∃ settings records, Holds read files request.batch settings records ∧
        done = checked json request (policyOf read files settings small) records := by
  simp only [run, PolicyFiles.load, bind_eq_ok_iff, pure_eq_ok_iff, Settings.load_eq_ok_iff,
    Record.load_eq_ok_iff]
  constructor
  · rintro ⟨_, ⟨settings, ⟨hstandard, hsettings⟩, rfl⟩, records, hrecords, rfl⟩
    exact ⟨settings, records, ⟨hstandard, hsettings, hrecords⟩, rfl⟩
  · rintro ⟨settings, records, h, rfl⟩
    exact ⟨_, ⟨settings, ⟨h.standard, h.settings⟩, rfl⟩, records, h.batch, rfl⟩

theorem runIn_eq_ok_iff {c : Command} {after : Directory} {done : Completion} :
    c.runIn d small = .ok (after, done) ↔ c.run d.read small = .ok done ∧
      match done.file with
      | none => after = d
      | some (path, content) => d.write path content = .ok after := by
  simp only [runIn, bind_eq_ok_iff]
  constructor
  · rintro ⟨found, hrun, h⟩
    cases hfile : found.file with
    | none =>
      rw [hfile] at h
      cases h
      exact ⟨hrun, by rw [hfile]⟩
    | some file =>
      simp only [hfile, bind_eq_ok_iff, mapError_eq_ok_iff, pure_eq_ok_iff] at h
      obtain ⟨left, hwrite, heq⟩ := h
      cases heq
      exact ⟨hrun, by rw [hfile]; exact hwrite⟩
  · rintro ⟨hrun, h⟩
    refine ⟨done, hrun, ?_⟩
    cases hfile : done.file with
    | none =>
      rw [hfile] at h
      rw [h]
      rfl
    | some file =>
      rw [hfile] at h
      simp only [bind_eq_ok_iff, mapError_eq_ok_iff, pure_eq_ok_iff]
      exact ⟨after, h, rfl⟩

/-- A check that does not fail ends with its result, and its file is written if it has one. -/
theorem exists_runIn_check (json : Bool) (small : Text → Bool)
    (hfiles : Holds d.read files request.batch settings records)
    (hwritable : ∀ path ∈ request.output, d.Writable path) :
    ∃ left, runIn d ⟨files, json, .check request⟩ small =
        .ok (left, checked json request (policyOf d.read files settings small) records) ∧
      (request.output = none → left = d) ∧
      ∀ path ∈ request.output, left.read path = .ok (Record.listValue (resultOf
        (policyOf d.read files settings small) request.skipGrammar records).1).pretty := by
  have hrun : run d.read ⟨files, json, .check request⟩ small = _ :=
    run_check_eq_ok_iff.mpr ⟨settings, records, hfiles, rfl⟩
  simp only [runIn_eq_ok_iff, hrun, file_checked, true_and]
  cases houtput : request.output with
  | none => exact ⟨d, rfl, fun _ => rfl, nofun⟩
  | some path =>
    obtain ⟨left, hwrite⟩ := Directory.exists_write_iff.mpr (hwritable path houtput)
    refine ⟨left, hwrite, nofun, fun other hother => ?_⟩
    obtain rfl := Option.some.inj hother
    exact Directory.read_of_write hwrite

theorem exists_runIn_check_eq_error (h : Fails d files request.batch request.output) :
    ∃ e, runIn d ⟨files, json, .check request⟩ small = .error e := by
  rw [exists_eq_error_iff]
  rintro ⟨after, done⟩ hdone
  obtain ⟨hrun, hfile⟩ := runIn_eq_ok_iff.mp hdone
  obtain ⟨settings, records, hfiles, rfl⟩ := run_check_eq_ok_iff.mp hrun
  cases h with
  | settings hpath h => exact Settings.unusable_iff.mp h settings (hfiles.settings _ hpath)
  | batch h => exact Record.unusable_iff.mp h records hfiles.batch
  | output hpath h =>
    rw [file_checked, Option.mem_def.mp hpath] at hfile
    exact h (Directory.exists_write_iff.mp ⟨after, hfile⟩)

end Command

end ScenarioLint
