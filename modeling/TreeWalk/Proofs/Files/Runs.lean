import TreeWalk.CommandLine
import TreeWalk.Proofs.Files.System
import TreeWalk.Proofs.Tree.Resaving

/-! What a run of the command line does to a file system, and how it ends. A run first resolves its
settings, then loads its tree; until then it only reads. After that only a print with an output path writes,
once, and a check reads its source only if it has something to report. So a file is changed only by a run
that has settings and a tree and is asked to print them there, and the status says whether all that was asked
for was done. -/

namespace TreeWalk

/-- Where the settings of a run are looked for. -/
def Invocation.settingsPath (i : Invocation) : String :=
  i.settings.getD (Path.join (Path.directoryOf i.command.file) settingsName)

/-! ### Texts of files -/

theorem fromUTF8?_eq_some_iff {bytes : ByteArray} {text : String} :
    String.fromUTF8? bytes = some text ↔ bytes = text.toUTF8 := by
  unfold String.fromUTF8?
  split
  · rename_i hvalid
    constructor
    · intro h
      rw [← Option.some.inj h]
      rfl
    · rintro rfl
      rfl
  · rename_i hinvalid
    constructor
    · intro h
      cases h
    · rintro rfl
      exact absurd text.isValidUTF8 hinvalid

theorem textOfBytes_toUTF8 (path text : String) : textOfBytes path text.toUTF8 = .ok text := by
  rw [textOfBytes, fromUTF8?_eq_some_iff.2 rfl]

theorem textOfBytes_eq_error {bytes : ByteArray} (h : ∀ text, bytes ≠ String.toUTF8 text) (path : String) :
    textOfBytes path bytes = .error (.io path .notText) := by
  unfold textOfBytes
  split
  · rename_i text htext
    exact absurd (fromUTF8?_eq_some_iff.1 htext) (h text)
  · rfl

theorem textOfBytes_bind_eq_ok_iff {α : Type} {path : String} {bytes : ByteArray}
    {f : String → Except RunError α} {a : α} :
    textOfBytes path bytes >>= f = .ok a ↔ ∃ text : String, bytes = text.toUTF8 ∧ f text = .ok a := by
  constructor
  · intro h
    by_cases hbytes : ∃ text : String, bytes = text.toUTF8
    · obtain ⟨text, rfl⟩ := hbytes
      rw [textOfBytes_toUTF8] at h
      exact ⟨text, rfl, h⟩
    · rw [textOfBytes_eq_error (not_exists.1 hbytes)] at h
      cases h
  · rintro ⟨text, rfl, h⟩
    rw [textOfBytes_toUTF8]
    exact h

theorem settingsOfBytes_eq_ok_iff {path : String} {bytes : ByteArray} {settings : Settings} :
    settingsOfBytes path bytes = .ok settings ↔
      ∃ text : String, bytes = text.toUTF8 ∧ Settings.ofText text = .ok settings := by
  rw [settingsOfBytes, textOfBytes_bind_eq_ok_iff]
  refine exists_congr fun text => and_congr_right fun _ => ?_
  cases Settings.ofText text <;> simp

theorem programOfBytes_eq_ok_iff {path : String} {bytes : ByteArray} {program : Program} :
    programOfBytes path bytes = .ok program ↔
      ∃ text : String, bytes = text.toUTF8 ∧ Program.load text = .ok program := by
  rw [programOfBytes, textOfBytes_bind_eq_ok_iff]
  refine exists_congr fun text => and_congr_right fun _ => ?_
  cases Program.load text <;> simp

namespace FileSystem

variable {σ : Type} (fs : FileSystem σ)

/-! ### What the files hold -/

/-- The content of the file that a path leads to. -/
def content? (s : σ) (path : String) : Option ByteArray := (fs.read s path).toOption

def HoldsText (s : σ) (path text : String) : Prop := fs.content? s path = some text.toUTF8

def GivesSettings (s : σ) (path : String) (settings : Settings) : Prop :=
  ∃ text, fs.HoldsText s path text ∧ Settings.ofText text = .ok settings

/-- The settings of a run are those in the file that is given, or in the file next to the tree. If no file is
given and there is none next to the tree, they are the usual ones. -/
def Resolves (s : σ) (i : Invocation) (settings : Settings) : Prop :=
  (i.settings ≠ none ∨ fs.isFile s i.settingsPath) ∧ fs.GivesSettings s i.settingsPath settings ∨
    i.settings = none ∧ ¬ fs.isFile s i.settingsPath ∧ settings = {}

def Stores (s : σ) (path : String) (program : Program) : Prop :=
  ∃ text, fs.HoldsText s path text ∧ Program.load text = .ok program

/-! ### Reading -/

/-- An action goes on with what its first part gives, in the state that it leaves. -/
theorem run_then {α β : Type} {x : StateM σ α} {s t : σ} {a : α} (h : StateT.run x s = (a, t))
    (f : α → StateM σ β) : StateT.run (x >>= f) s = StateT.run (f a) t := by
  rw [StateT.run_bind, h]
  rfl

/-- The result of reading a file and understanding what it holds. -/
def readAs {α : Type} (s : σ) (path : String) (understand : ByteArray → Except RunError α) :
    Except RunError α :=
  ((fs.read s path).mapError (.io path)).bind understand

theorem run_bytes (s : σ) (path : String) :
    StateT.run (fs.disk.bytes path) s = ((fs.read s path).mapError (.io path), s) := by
  rw [Disk.bytes, run_then (fs.run_read s path)]
  cases fs.read s path <;> rfl

theorem run_text (s : σ) (path : String) :
    StateT.run (fs.disk.text path) s = (fs.readAs s path (textOfBytes path), s) := by
  rw [Disk.text, run_then (fs.run_bytes s path)]
  rfl

theorem run_loadSettings (s : σ) (path : String) :
    StateT.run (fs.disk.loadSettings path) s = (fs.readAs s path (settingsOfBytes path), s) := by
  rw [Disk.loadSettings, run_then (fs.run_bytes s path)]
  rfl

theorem run_loadProgram (s : σ) (path : String) :
    StateT.run (fs.disk.loadProgram path) s = (fs.readAs s path (programOfBytes path), s) := by
  rw [Disk.loadProgram, run_then (fs.run_bytes s path)]
  rfl

theorem readAs_eq_ok_iff {α : Type} {s : σ} {path : String} {understand : ByteArray → Except RunError α}
    {a : α} : fs.readAs s path understand = .ok a ↔
      ∃ bytes, fs.content? s path = some bytes ∧ understand bytes = .ok a := by
  unfold readAs content?
  cases fs.read s path with
  | error e => simp [Except.mapError, Except.bind, Except.toOption]
  | ok bytes => simp [Except.mapError, Except.bind, Except.toOption]

theorem readAs_congr {α : Type} {s t : σ} {path : String} (h : fs.read t path = fs.read s path)
    (understand : ByteArray → Except RunError α) :
    fs.readAs t path understand = fs.readAs s path understand := by
  rw [readAs, readAs, h]

theorem exists_content_iff {s : σ} {path : String} {p : String → Prop} :
    (∃ bytes, fs.content? s path = some bytes ∧ ∃ text : String, bytes = text.toUTF8 ∧ p text) ↔
      ∃ text, fs.HoldsText s path text ∧ p text := by
  constructor
  · rintro ⟨_, hbytes, text, rfl, htext⟩
    exact ⟨text, hbytes, htext⟩
  · rintro ⟨text, hbytes, htext⟩
    exact ⟨_, hbytes, text, rfl, htext⟩

theorem readAs_settingsOfBytes_eq_ok_iff {s : σ} {path : String} {settings : Settings} :
    fs.readAs s path (settingsOfBytes path) = .ok settings ↔ fs.GivesSettings s path settings := by
  simp only [readAs_eq_ok_iff, settingsOfBytes_eq_ok_iff, exists_content_iff, GivesSettings]

theorem readAs_programOfBytes_eq_ok_iff {s : σ} {path : String} {program : Program} :
    fs.readAs s path (programOfBytes path) = .ok program ↔ fs.Stores s path program := by
  simp only [readAs_eq_ok_iff, programOfBytes_eq_ok_iff, exists_content_iff, Stores]

theorem readAs_textOfBytes_eq_error {s : σ} {path : String} (h : ∀ text, ¬ fs.HoldsText s path text) :
    ∃ cause, fs.readAs s path (textOfBytes path) = .error (.io path cause) := by
  cases hread : fs.read s path with
  | error cause =>
    refine ⟨cause, ?_⟩
    rw [readAs, hread]
    rfl
  | ok bytes =>
    refine ⟨.notText, ?_⟩
    have hbytes (text : String) : bytes ≠ text.toUTF8 := by
      rintro rfl
      exact h text (toOption_eq_some_iff.2 hread)
    rw [readAs, hread]
    exact textOfBytes_eq_error hbytes path

theorem run_discoverSettings_of_noFile {s : σ} {directory : String}
    (h : ¬ fs.isFile s (Path.join directory settingsName)) :
    StateT.run (fs.disk.discoverSettings directory) s = (.ok ({}, none), s) := by
  rw [Disk.discoverSettings, run_then (fs.run_isFile s _), if_neg h]
  rfl

theorem run_discoverSettings_of_file {s : σ} {directory : String}
    (h : fs.isFile s (Path.join directory settingsName)) :
    StateT.run (fs.disk.discoverSettings directory) s =
      ((fs.readAs s (Path.join directory settingsName)
          (settingsOfBytes (Path.join directory settingsName))).map
        fun settings => (settings, some (Path.join directory settingsName)), s) := by
  rw [Disk.discoverSettings, run_then (fs.run_isFile s _), if_pos h, run_then (fs.run_loadSettings s _)]
  rfl

/-- Two states have the same at a path: a file with the same content, or none. -/
structure SameAt (s t : σ) (path : String) : Prop where
  isFile : fs.isFile t path = fs.isFile s path
  read : fs.read t path = fs.read s path

/-- Resolving the settings only reads, and only where they are looked for. -/
theorem run_resolveSettings (s : σ) (i : Invocation) :
    ∃ r, (∀ settings, r = .ok settings ↔ fs.Resolves s i settings) ∧
      ∀ t, fs.SameAt s t i.settingsPath →
        StateT.run (fs.disk.resolveSettings i.settings i.command.file) t = (r, t) := by
  cases hsettings : i.settings with
  | some path =>
    have hpath : i.settingsPath = path := by rw [Invocation.settingsPath, hsettings, Option.getD_some]
    refine ⟨fs.readAs s path (settingsOfBytes path), fun settings => ?_, fun t ht => ?_⟩
    · rw [readAs_settingsOfBytes_eq_ok_iff, Resolves, hpath, hsettings]
      simp
    · rw [hpath] at ht
      rw [← fs.readAs_congr ht.read]
      exact fs.run_loadSettings t path
  | none =>
    have hpath : i.settingsPath = Path.join (Path.directoryOf i.command.file) settingsName := by
      rw [Invocation.settingsPath, hsettings, Option.getD_none]
    by_cases hfile : fs.isFile s i.settingsPath
    · refine ⟨fs.readAs s i.settingsPath (settingsOfBytes i.settingsPath), fun settings => ?_,
        fun t ht => ?_⟩
      · rw [readAs_settingsOfBytes_eq_ok_iff]
        simp [Resolves, hfile]
      · have hthere : fs.isFile t (Path.join (Path.directoryOf i.command.file) settingsName) := by
          rwa [← hpath, ht.isFile]
        rw [Disk.resolveSettings, run_then (fs.run_discoverSettings_of_file hthere), ← hpath,
          fs.readAs_congr ht.read]
        cases fs.readAs s i.settingsPath (settingsOfBytes i.settingsPath) <;> rfl
    · refine ⟨.ok {}, fun settings => ?_, fun t ht => ?_⟩
      · simp [Resolves, hsettings, hfile, eq_comm]
      · have hnone : ¬ fs.isFile t (Path.join (Path.directoryOf i.command.file) settingsName) := by
          rwa [← hpath, ht.isFile]
        rw [Disk.resolveSettings, run_then (fs.run_discoverSettings_of_noFile hnone)]
        rfl

/-! ### Runs -/

/-- A run in another state, or of another command, that has the same settings and the same tree to read. -/
structure Alike (s : σ) (i : Invocation) (t : σ) (j : Invocation) : Prop where
  settings : j.settings = i.settings
  file : j.command.file = i.command.file
  readSettings : fs.SameAt s t i.settingsPath
  readFile : fs.read t i.command.file = fs.read s i.command.file

theorem Alike.refl (s : σ) (i : Invocation) : fs.Alike s i s i := ⟨rfl, rfl, ⟨rfl, rfl⟩, rfl⟩

/-- A check with another source. -/
theorem Alike.check {s t : σ} {i : Invocation} {file : String} {source : Option String}
    (hcommand : i.command = .check file source)
    (hsettings : fs.SameAt s t i.settingsPath)
    (hfile : fs.read t file = fs.read s file) (other : Option String) :
    fs.Alike s i t { i with command := .check file other } where
  settings := rfl
  file := by rw [hcommand, Command.file, Command.file]
  readSettings := hsettings
  readFile := by rwa [hcommand]

/-- A run either ends with an error and changes nothing, or it has its settings and its tree and does what
the command says. Which of the two it is, and with what, depends on the settings and the tree alone. -/
theorem run_cases (s : σ) (i : Invocation) :
    (∃ e, (∀ settings program, fs.Resolves s i settings → ¬ fs.Stores s i.command.file program) ∧
      ∀ t j, fs.Alike s i t j → StateT.run (j.run fs.disk) t = (.failure e, t)) ∨
    ∃ settings program, (∀ x, fs.Resolves s i x ↔ x = settings) ∧
      (∀ x, fs.Stores s i.command.file x ↔ x = program) ∧
      ∀ t j, fs.Alike s i t j → StateT.run (j.run fs.disk) t =
        StateT.run (runCommand fs.disk program settings j.command) t := by
  obtain ⟨r, hresolves, hr⟩ := fs.run_resolveSettings s i
  -- both steps before the command give the same in all runs that are alike
  have hresolve {t : σ} {j : Invocation} (h : fs.Alike s i t j) :
      StateT.run (fs.disk.resolveSettings j.settings j.command.file) t = (r, t) := by
    rw [h.settings, h.file]
    exact hr t h.readSettings
  have hload {t : σ} {j : Invocation} (h : fs.Alike s i t j) :
      StateT.run (fs.disk.loadProgram j.command.file) t =
        (fs.readAs s i.command.file (programOfBytes i.command.file), t) := by
    rw [run_loadProgram, h.file, fs.readAs_congr h.readFile]
  cases r with
  | error e =>
    refine .inl ⟨e, fun settings program hsettings => ?_, fun t j h => ?_⟩
    · cases (hresolves settings).2 hsettings
    · rw [Invocation.run, run_then (hresolve h)]
      rfl
  | ok settings =>
    cases hread : fs.readAs s i.command.file (programOfBytes i.command.file) with
    | error e =>
      refine .inl ⟨e, fun settings program _ hstores => ?_, fun t j h => ?_⟩
      · rw [← fs.readAs_programOfBytes_eq_ok_iff, hread] at hstores
        cases hstores
      · rw [Invocation.run, run_then (hresolve h), run_then (hload h), hread]
        rfl
    | ok program =>
      refine .inr ⟨settings, program, fun x => ?_, fun x => ?_, fun t j h => ?_⟩
      · rw [← hresolves, Except.ok.injEq, eq_comm]
      · rw [← fs.readAs_programOfBytes_eq_ok_iff, hread, Except.ok.injEq, eq_comm]
      · rw [Invocation.run, run_then (hresolve h), run_then (hload h), hread]

/-! ### Commands -/

/-- The text that diagnostics are shown in: that of the source, if one is given. -/
inductive Shows (s : σ) : Option String → Option String → Prop where
  | none : Shows s none none
  | text {path text : String} (h : fs.HoldsText s path text) : Shows s (some path) (some text)

theorem Shows.unique {fs : FileSystem σ} {s : σ} {source shown other : Option String}
    (h : fs.Shows s source shown) (hother : fs.Shows s source other) : shown = other := by
  cases h with
  | none =>
    cases hother
    rfl
  | text htext =>
    cases hother with
    | text hother =>
      have hbytes := Option.some.inj (htext.symm.trans hother)
      rw [String.toByteArray_inj.1 hbytes]

/-- How a command ends that has its settings and its tree, and in which state. -/
inductive Ends (s : σ) (program : Program) (settings : Settings) : Command → Outcome × σ → Prop where
  | printed {file : String} :
      Ends s program settings (.print file none) (.success (program.print settings.width), s)
  | written {file out : String} {after : σ}
      (h : fs.write s out (program.print settings.width).toUTF8 = .ok after) :
      Ends s program settings (.print file (some out)) (.success "", after)
  | unwritten {file out : String} {cause : IoError}
      (h : fs.write s out (program.print settings.width).toUTF8 = .error cause) :
      Ends s program settings (.print file (some out)) (.failure (.io out cause), s)
  | passed {file : String} {source : Option String}
      (h : (program.check settings.limit).diagnostics = []) :
      Ends s program settings (.check file source)
        (.success ("ok: " ++ toString (program.check settings.limit).functions.length ++
          " function(s) checked\n"), s)
  | reported {file : String} {source shown : Option String}
      (h : (program.check settings.limit).diagnostics ≠ []) (hshown : fs.Shows s source shown) :
      Ends s program settings (.check file source)
        (.failure (.check (program.check settings.limit).diagnostics.length)
          (complain shown (source.getD file) (program.check settings.limit).diagnostics), s)
  | unreadable {file path : String} {cause : IoError}
      (h : (program.check settings.limit).diagnostics ≠ [])
      (hsource : ∀ text, ¬ fs.HoldsText s path text) :
      Ends s program settings (.check file (some path)) (.failure (.io path cause), s)
  | counted {file : String} {json : Bool} :
      Ends s program settings (.census file json) (runCensus program json, s)
  | folded {file : String} : Ends s program settings (.fold file) (runFold program, s)

theorem runPrint_ends (s : σ) (program : Program) (settings : Settings) (file : String)
    (output : Option String) :
    fs.Ends s program settings (.print file output)
      (StateT.run (runPrint fs.disk program settings output) s) := by
  cases output with
  | none => exact .printed
  | some out =>
    cases hwrite : fs.write s out (program.print settings.width).toUTF8 with
    | ok after =>
      rw [runPrint, run_then (fs.run_write hwrite)]
      exact .written hwrite
    | error cause =>
      rw [runPrint, run_then (fs.run_write_error hwrite)]
      exact .unwritten hwrite

theorem runCheck_ends (s : σ) (program : Program) (settings : Settings) (file : String)
    (source : Option String) :
    fs.Ends s program settings (.check file source)
      (StateT.run (runCheck fs.disk program settings file source) s) := by
  by_cases hempty : (program.check settings.limit).diagnostics = []
  · have hok : (program.check settings.limit).isOk := by
      simpa [CheckReport.isOk, CheckReport.diagnostics] using hempty
    rw [runCheck, if_pos hok]
    exact .passed hempty
  · have hfail : ¬ (program.check settings.limit).isOk := by
      simpa [CheckReport.isOk, CheckReport.diagnostics] using hempty
    have hlength : (program.check settings.limit).faults.length =
        (program.check settings.limit).diagnostics.length := by
      rw [CheckReport.diagnostics, List.length_map]
    rw [runCheck, if_neg hfail, hlength]
    cases source with
    | none => exact .reported hempty .none
    | some path =>
      by_cases hsource : ∃ text, fs.HoldsText s path text
      · obtain ⟨text, htext⟩ := hsource
        have hread : StateT.run (fs.disk.text path) s = (.ok text, s) := by
          rw [run_text, fs.readAs_eq_ok_iff.2 ⟨_, htext, textOfBytes_toUTF8 path text⟩]
        simp only [run_then hread]
        exact .reported hempty (.text htext)
      · obtain ⟨cause, hcause⟩ := fs.readAs_textOfBytes_eq_error (not_exists.1 hsource)
        have hread : StateT.run (fs.disk.text path) s = (.error (.io path cause), s) := by
          rw [run_text, hcause]
        simp only [run_then hread]
        exact .unreadable hempty (not_exists.1 hsource)

theorem runCommand_ends (s : σ) (program : Program) (settings : Settings) (c : Command) :
    fs.Ends s program settings c (StateT.run (runCommand fs.disk program settings c) s) := by
  cases c with
  | print file output => exact fs.runPrint_ends s program settings file output
  | check file source => exact fs.runCheck_ends s program settings file source
  | census file json => exact .counted
  | fold file => exact .folded

namespace Ends

variable {fs} {s : σ} {program : Program} {settings : Settings} {c : Command} {r : Outcome × σ}

/-- Only a print with an output path changes the state, by one write. -/
theorem state (h : fs.Ends s program settings c r) :
    r.2 = s ∨ ∃ file out, c = .print file (some out) ∧
      fs.write s out (program.print settings.width).toUTF8 = .ok r.2 := by
  cases h with
  | written hwrite => exact .inr ⟨_, _, rfl, hwrite⟩
  | _ => exact .inl rfl

theorem kept (h : fs.Ends s program settings c r)
    (hprint : ∀ file out, c = .print file (some out) → r.1.status ≠ 0) : r.2 = s := by
  cases h with
  | written => exact absurd rfl (hprint _ _ rfl)
  | _ => rfl

theorem status (h : fs.Ends s program settings c r) :
    r.1.status = 0 ↔
      (∀ file out, c = .print file (some out) →
        ∃ after, fs.write s out (program.print settings.width).toUTF8 = .ok after) ∧
      ∀ file source, c = .check file source → (program.check settings.limit).diagnostics = [] := by
  cases h with
  | printed => simp [Outcome.success]
  | written hwrite => simp [Outcome.success, hwrite, -String.toUTF8_eq_toByteArray]
  | unwritten hwrite => simp [Outcome.failure, hwrite, -String.toUTF8_eq_toByteArray]
  | passed hempty => simp [Outcome.success, hempty]
  | reported hsome _ => simp [Outcome.failure, hsome]
  | unreadable hsome _ => simp [Outcome.failure, hsome]
  | counted => simp [runCensus, Outcome.success]
  | folded => simp [runFold, Outcome.success]

/-- A print that succeeds has written its output. -/
theorem write_of_status {file out : String} (h : fs.Ends s program settings (.print file (some out)) r)
    (hzero : r.1.status = 0) : fs.write s out (program.print settings.width).toUTF8 = .ok r.2 := by
  cases h with
  | written hwrite => exact hwrite
  | unwritten => cases hzero

section Check

variable {file : String} {source : Option String}

theorem of_check_passed (h : fs.Ends s program settings (.check file source) r)
    (hempty : (program.check settings.limit).diagnostics = []) :
    r.1 = .success ("ok: " ++ toString (program.check settings.limit).functions.length ++
      " function(s) checked\n") := by
  cases h with
  | passed => rfl
  | reported hsome => exact absurd hempty hsome
  | unreadable hsome => exact absurd hempty hsome

theorem of_check_reported (h : fs.Ends s program settings (.check file source) r)
    (hsome : (program.check settings.limit).diagnostics ≠ []) {shown : Option String}
    (hshown : fs.Shows s source shown) :
    r.1 = .failure (.check (program.check settings.limit).diagnostics.length)
      (complain shown (source.getD file) (program.check settings.limit).diagnostics) := by
  cases h with
  | passed hempty => exact absurd hempty hsome
  | reported _ hother => rw [hother.unique hshown]
  | unreadable _ hsource =>
    cases hshown with
    | text htext => exact absurd htext (hsource _)

theorem of_check_unreadable {path : String} (h : fs.Ends s program settings (.check file (some path)) r)
    (hsome : (program.check settings.limit).diagnostics ≠ [])
    (hsource : ∀ text, ¬ fs.HoldsText s path text) : ∃ cause, r.1 = .failure (.io path cause) := by
  cases h with
  | passed hempty => exact absurd hempty hsome
  | reported _ hshown =>
    cases hshown with
    | text htext => exact absurd htext (hsource _)
  | unreadable => exact ⟨_, rfl⟩

end Check

end Ends

/-! ### Whole runs -/

/-- What a run does to the files and how it ends. -/
structure RunEffect (s : σ) (i : Invocation) (outcome : Outcome) (after : σ) : Prop where
  /-- Only a print with an output path changes the state, and only if it succeeds. -/
  kept : (∀ file out, i.command = .print file (some out) → outcome.status ≠ 0) → after = s
  /-- It then changes no other file. -/
  unchanged : ∀ path, (∀ file out, i.command = .print file (some out) → ¬ fs.SameFile s out path) →
    fs.content? after path = fs.content? s path
  /-- The output of a print that succeeds is written once, and then holds the printed tree. -/
  written : ∀ file out settings program, i.command = .print file (some out) → fs.Resolves s i settings →
    fs.Stores s file program → outcome.status = 0 →
      fs.write s out (program.print settings.width).toUTF8 = .ok after ∧
      ∀ path, path = out ∨ fs.SameFile s out path → fs.HoldsText after path (program.print settings.width)
  /-- The status is zero if there are settings and a tree, the output, if any, can be written, and a check
  finds nothing. -/
  status : outcome.status = 0 ↔ ∃ settings program,
    fs.Resolves s i settings ∧ fs.Stores s i.command.file program ∧
    (∀ file out, i.command = .print file (some out) →
      ∃ written, fs.write s out (program.print settings.width).toUTF8 = .ok written) ∧
    ∀ file source, i.command = .check file source → (program.check settings.limit).diagnostics = []
  /-- A check that cannot read its source is compared with one of the same tree, in any state, that has
  another source or can read it. If there are diagnostics, the first ends with an input error and the second
  with the report; otherwise both end alike. -/
  source : ∀ file path, i.command = .check file (some path) → (∀ text, ¬ fs.HoldsText s path text) →
    ∀ t other, fs.SameAt s t i.settingsPath → fs.read t file = fs.read s file →
      let second := (StateT.run (Invocation.run fs.disk { i with command := .check file other }) t).1
      (∃ settings program cause, fs.Resolves s i settings ∧ fs.Stores s file program ∧
        (program.check settings.limit).diagnostics ≠ [] ∧ outcome = .failure (.io path cause) ∧
        ∀ shown, fs.Shows t other shown →
          second = .failure (.check (program.check settings.limit).diagnostics.length)
            (complain shown (other.getD file) (program.check settings.limit).diagnostics)) ∨
      (∀ settings program, fs.Resolves s i settings → fs.Stores s file program →
        (program.check settings.limit).diagnostics = []) ∧ second = outcome

/-- A run without settings or without a tree. -/
theorem runEffect_of_failure {s : σ} {i : Invocation} {e : RunError}
    (h : ∀ settings program, fs.Resolves s i settings → ¬ fs.Stores s i.command.file program)
    (hrun : ∀ t j, fs.Alike s i t j → StateT.run (j.run fs.disk) t = (.failure e, t)) :
    fs.RunEffect s i (.failure e) s where
  kept _ := rfl
  unchanged _ _ := rfl
  written _ _ _ _ _ _ _ hzero := by cases hzero
  status := by
    constructor
    · intro hzero
      cases hzero
    · rintro ⟨settings, program, hsettings, hprogram, -⟩
      exact absurd hprogram (h settings program hsettings)
  source file path hcommand hsource t other hsettings hfile := by
    rw [hcommand] at h
    refine .inr ⟨fun settings program hs hp => absurd hp (h settings program hs), ?_⟩
    rw [hrun t _ (.check fs hcommand hsettings hfile other)]

/-- A run with settings and a tree. -/
theorem runEffect_of_command {s : σ} {i : Invocation} {settings : Settings} {program : Program}
    (hsettings : ∀ x, fs.Resolves s i x ↔ x = settings)
    (hprogram : ∀ x, fs.Stores s i.command.file x ↔ x = program)
    (hrun : ∀ t j, fs.Alike s i t j → StateT.run (j.run fs.disk) t =
      StateT.run (runCommand fs.disk program settings j.command) t)
    {r : Outcome × σ} (hends : fs.Ends s program settings i.command r) : fs.RunEffect s i r.1 r.2 where
  kept := hends.kept
  unchanged path hpath := by
    rcases hends.state with hsame | ⟨file, out, hcommand, hwrite⟩
    · rw [hsame]
    · exact fs.content_other hwrite (hpath file out hcommand)
  written file out x y hcommand hx hy hzero := by
    rw [hcommand] at hends hprogram
    obtain rfl := (hsettings x).1 hx
    obtain rfl := (hprogram y).1 hy
    have hwrite := hends.write_of_status hzero
    refine ⟨hwrite, ?_⟩
    rintro path (rfl | hsame)
    · exact fs.content_same hwrite (fs.sameFile_self hwrite)
    · exact fs.content_same hwrite hsame
  status := by
    simp only [hends.status, hsettings, hprogram]
    constructor
    · rintro ⟨hwrite, hcheck⟩
      exact ⟨settings, program, rfl, rfl, hwrite, hcheck⟩
    · rintro ⟨_, _, rfl, rfl, hwrite, hcheck⟩
      exact ⟨hwrite, hcheck⟩
  source file path hcommand hsource t other hreadSettings hreadFile := by
    have hother := fs.runCommand_ends t program settings (.check file other)
    rw [hrun t _ (.check fs hcommand hreadSettings hreadFile other)]
    rw [hcommand] at hends hprogram
    -- both checks have the same report, so they part only where it is shown
    by_cases hempty : (program.check settings.limit).diagnostics = []
    · refine .inr ⟨fun x y hx hy => ?_, ?_⟩
      · rw [(hsettings x).1 hx, (hprogram y).1 hy, hempty]
      · rw [hends.of_check_passed hempty, hother.of_check_passed hempty]
    · obtain ⟨cause, hcause⟩ := hends.of_check_unreadable hempty hsource
      exact .inl ⟨settings, program, cause, (hsettings settings).2 rfl, (hprogram program).2 rfl, hempty,
        hcause, fun shown hshown => hother.of_check_reported hempty hshown⟩

end FileSystem

/-- For every file system and every run: only a print with an output path changes anything, and only if it
succeeds; it then changes only the file at that path, which holds the printed tree. The status is zero if and
only if the settings resolve, the tree loads, the output, if any, can be written and a check has nothing to
report. A source that cannot be read makes a check end with an input error in place of the report if there are
diagnostics, and makes no difference if there are none. -/
theorem Invocation.run_writes_only_output {σ : Type} (fs : FileSystem σ) (i : Invocation) (s : σ) :
    fs.RunEffect s i (StateT.run (i.run fs.disk) s).1 (StateT.run (i.run fs.disk) s).2 := by
  obtain ⟨e, hnone, hrun⟩ | ⟨settings, program, hsettings, hprogram, hrun⟩ := fs.run_cases s i
  · rw [hrun s i (.refl fs s i)]
    exact fs.runEffect_of_failure hnone hrun
  · rw [hrun s i (.refl fs s i)]
    exact fs.runEffect_of_command hsettings hprogram hrun (fs.runCommand_ends s program settings i.command)

/-- A tree below the working directory is printed next to it, with the usual settings. -/
theorem Invocation.run_writes_only_output_varied :
    let files : Files := ⟨[(["t"], (notedText 0).toUTF8)]⟩
    ∃ outcome after,
      StateT.run (Invocation.run Files.disk ⟨none, 0, .print "t" (some "./o")⟩) files = (outcome, after) ∧
      outcome.status = 0 ∧ Files.system.HoldsText after "o" (Program.print variedProgram defaultWidth) ∧
      Files.system.HoldsText after "t" (notedText 0) := by
  intro files
  -- the paths lead to their places whatever the tree holds
  have hread (bytes : ByteArray) : Files.read ⟨[(["t"], bytes)]⟩ "t" = .ok bytes := rfl
  have hnone (bytes : ByteArray) : ¬ Files.isFile ⟨[(["t"], bytes)]⟩ "./pulsar.toml" := Bool.false_ne_true
  have hwrite (bytes text : ByteArray) : ∃ after, Files.write ⟨[(["t"], bytes)]⟩ "./o" text = .ok after :=
    ⟨_, rfl⟩
  have hsame (bytes : ByteArray) : Files.SameFile ⟨[(["t"], bytes)]⟩ "./o" "o" := ⟨["o"], rfl, rfl⟩
  have hother (bytes : ByteArray) : ¬ Files.SameFile ⟨[(["t"], bytes)]⟩ "./o" "t" := by
    rintro ⟨names, ho, ht⟩
    cases ho
    cases ht
  have hpath : Invocation.settingsPath ⟨none, 0, .print "t" (some "./o")⟩ = "./pulsar.toml" := by decide
  have htext : Files.system.HoldsText files "t" (notedText 0) := toOption_eq_some_iff.2 (hread _)
  have hsettings : Files.system.Resolves files ⟨none, 0, .print "t" (some "./o")⟩ {} := by
    refine .inr ⟨rfl, ?_, rfl⟩
    rw [hpath]
    exact hnone (notedText 0).toUTF8
  have hstores : Files.system.Stores files "t" variedProgram := ⟨notedText 0, htext, Program.load_notedText 0⟩
  -- the outcome gets a name, so that no step has to evaluate the command
  have heffect := Invocation.run_writes_only_output Files.system ⟨none, 0, .print "t" (some "./o")⟩ files
  have hdisk : Files.system.disk = Files.disk := rfl
  rw [hdisk] at heffect
  rcases hrun : StateT.run (Invocation.run Files.disk ⟨none, 0, .print "t" (some "./o")⟩) files
    with ⟨outcome, after⟩
  rw [hrun] at heffect
  have hzero : outcome.status = 0 := by
    refine heffect.status.2 ⟨{}, variedProgram, hsettings, hstores, fun _ _ h => ?_, fun _ _ h => ?_⟩
    · cases h
      exact hwrite _ _
    · cases h
  have hwritten := heffect.written "t" "./o" {} variedProgram rfl hsettings hstores hzero
  refine ⟨outcome, after, rfl, hzero, hwritten.2 "o" (.inr (hsame _)), ?_⟩
  refine (heffect.unchanged "t" fun _ _ h => ?_).trans htext
  cases h
  exact hother _

end TreeWalk
