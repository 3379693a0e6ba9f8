import ClassBrowser.Proofs.CommandLine.Tasks
import ClassBrowser.Proofs.Engine.Footprint
import ClassBrowser.Proofs.Except
import ClassBrowser.Proofs.Package.Hierarchy
import ClassBrowser.Proofs.Task.Decompiling
import ClassBrowser.Proofs.Task.Exporting
import Mathlib.Data.List.Dedup

/-!
# From the decompiler's archive to the exported one

What `decompile --zip` makes of an archive that the external decompiler leaves: the exported archive
has the program texts that the decompiler has left, byte for byte, and nothing else
(`IsRoundTrip`), unless the decompiler's archive has an entry without a name.  Of such an entry it
cannot be told whether it is a file, and the command fails.
-/

namespace ClassBrowser.CommandLine

open Export (Writer)

/-- An exported archive has the program texts among the entries of another: of each name the last
one, in the order of the class names. -/
structure IsRoundTrip (entries : Entries) (written : List (String × ByteArray)) : Prop where
  mem_iff : ∀ e, e ∈ written ↔
    (∃ n, e.1 = n ++ ".java") ∧ Archive.IsLast entries (e.1, .ok e.2)
  ascending : written.Pairwise fun a b => ∀ m n, a.1 = m ++ ".java" → b.1 = n ++ ".java" → m < n

/-- The program text of a class can be exported: its name is accepted, its text can be read and
decoded, and an archive can keep the name of the entry. -/
structure IsExportable (name : String) (held : Except ZipFault ByteArray) : Prop where
  accepted : ∃ path, Export.entryPath "/" ".java" name = .ok path
  decodable : ∃ text : String, held = .ok text.toUTF8
  hasNoNull : Text.hasNull (name ++ ".java") = false
  isShort : (name ++ ".java").utf8ByteSize ≤ Export.maxEntryBytes

/-- What is said when an archive is opened. -/
def openingRecord (archive : Path) : Log.Record := ⟨.info, .session, s!"Opening {archive}"⟩

/-- A run of the external decompiler, in the course of a command and under the usual settings, that
ends well and leaves an archive in the place for what it makes. -/
structure ZipRun (choice : EngineChoice) (archive : Path) (w : World) where
  settings : Settings
  source : Path
  after : World
  completed : Engine.Completed
  entries : Entries
  loads : choice.settings w = .ok settings
  delimiter_eq : settings.delimiter = "/"
  extension_eq : settings.extension = ".java"
  isArchive : Archive.validate ((w.note (openingRecord archive)).note
    (decompilingRecord archive)).files w.env archive = .ok source
  runs : (Decompiler.given settings source).launch
    ((w.note (openingRecord archive)).asked archive) = (after, .ok completed)
  succeeds : completed.exitCode = 0
  leaves : after.files.openZip (Decompiler.outputOf source) = .ok (.ok entries)

namespace ZipRun

variable {choice : EngineChoice} {archive z : Path} {w : World} {quiet : Bool}

/-- The number of classes that a run has left. -/
def count (r : ZipRun choice archive w) : Nat :=
  ((r.entries.map Prod.fst).filter (Archive.hasSuffix ".java")).dedup.length

/-- Whether the archive `z` can be made when the export of what a run has left begins. -/
def CanCreate (r : ZipRun choice archive w) (z : Path) : Prop :=
  ∃ fs writer, (Writer.forArchive z "/" ".java").openTarget
    (r.after.note (exportingRecord r.count z)).files = (fs, .ok writer)

/-- Whether there is room for the archive `z` with all that a run has left. -/
def HasRoom (r : ZipRun choice archive w) (z : Path) : Prop :=
  ∀ written, IsRoundTrip r.entries written → r.after.files.device.HasRoomFor z.place written

/-- The session in which the run takes place. -/
def session (r : ZipRun choice archive w) : Session :=
  .new r.settings (some (.decompiler r.settings)) w

theorem perform_eq (r : ZipRun choice archive w) (target : Target) (quiet : Bool) :
    (Command.decompile choice archive target quiet).perform none w =
      decompileAll r.session archive target quiet :=
  perform_decompile_eq r.loads

/-! ## What is stored -/

variable {names : List String} {text : String → String}

/-- The acts that report classes with known texts. -/
def reportActs (names : List String) (text : String → String) : List Act :=
  .total names.length :: names.map fun n => .unit n (some (text n))

theorem isCalm_of_mem_reportActs {act : Act} (h : act ∈ reportActs names text) :
    act.isCalm = true := by
  rcases List.mem_cons.1 h with rfl | hunit
  · rfl
  · obtain ⟨n, -, rfl⟩ := List.mem_map.1 hunit
    rfl

theorem noted_reportActs (w : World) : w.noted (reportActs names text) = w := by
  show w.noted (names.map fun n => .unit n (some (text n))) = w
  induction names with
  | nil => rfl
  | cons n names ih => exact ih

theorem entries_reportActs (h : names.Nodup) :
    (Store.empty.reported (reportActs names text)).entries =
      names.map fun n => (n, some (text n)) := by
  have hacts : names.map (fun n => Act.unit n (some (text n))) =
      (names.map fun n => (n, some (text n))).map fun c => .unit c.1 c.2 := by
    rw [List.map_map]
    rfl
  show (Store.empty.reported (names.map fun n => Act.unit n (some (text n)))).entries = _
  rw [hacts, Store.entries_reported_units]
  have hkeys : Assoc.keys (names.map fun n => (n, some (text n))) = names := by
    rw [Assoc.keys, List.map_map]
    exact List.map_id names
  have hnodup : (Assoc.keys ((Store.empty.entries : Assoc String (Option String)) ++
      names.map fun n => (n, some (text n)))).Nodup := by
    show (Assoc.keys (names.map fun n => (n, some (text n)))).Nodup
    rw [hkeys]
    exact h
  exact Assoc.insertAll_of_nodup hnodup

/-! ## The two tasks of the command -/

/-- What the run reports: every class that has a program text in the archive, once. -/
theorem decompile_eq (r : ZipRun choice archive w) (hnamed : ∀ e ∈ r.entries, e.1 ≠ "")
    (hreadable : Decompiler.IsReadable r.entries)
    (hsome : ∃ n, n ++ ".java" ∈ r.entries.map Prod.fst) :
    ∃ names d, names.Nodup ∧ (∀ n, n ∈ names ↔ n ++ ".java" ∈ r.entries.map Prod.fst) ∧
      (Decompiler.given r.settings r.source).decompile
          ((w.note (openingRecord archive)).asked archive) =
        (r.after, d, .ok (reportActs names (Decompiler.classText r.entries))) := by
  obtain ⟨names, hnodup, hnames, d, hgather⟩ :=
    @Decompiler.gather_archive (Decompiler.given r.settings r.source).started r.after r.source
      r.completed r.entries rfl r.succeeds r.leaves hnamed hreadable hsome
  refine ⟨names, d, hnodup, hnames, ?_⟩
  rw [Decompiler.decompile_eq (by simp [Decompiler.given]), r.runs]
  dsimp only
  rw [hgather]
  rfl

/-- An entry without a name makes the whole run fail. -/
theorem decompile_eq_error (r : ZipRun choice archive w) {e : String × Except ZipFault ByteArray}
    (he : e ∈ r.entries) (hname : e.1 = "") :
    (Decompiler.given r.settings r.source).decompile
        ((w.note (openingRecord archive)).asked archive) =
      (r.after, (Decompiler.given r.settings r.source).started,
        .error (.archive .namelessEntry)) := by
  have hgather := @Decompiler.gather_nameless (Decompiler.given r.settings r.source).started
    r.after r.source r.completed r.entries rfl r.succeeds r.leaves e he hname
  rw [Decompiler.decompile_eq (by simp [Decompiler.given]), r.runs]
  dsimp only
  rw [hgather]

theorem decompileFirst_of_nameless (r : ZipRun choice archive w)
    {e : String × Except ZipFault ByteArray} (he : e ∈ r.entries) (hname : e.1 = "") (quiet : Bool)
    (next : Session → Report) :
    ∃ progress world, decompileFirst r.session archive quiet next =
      .ended (progress ++ [complaint "string index out of range"]) (.exit 1) world := by
  obtain ⟨workspace, sent, hcompletes, hfailure⟩ :=
    @completes_decompiler_failed archive r.source r.settings
      (r.session.opened archive).pipeline.workspace r.after _ rfl rfl r.isArchive _
      (r.decompile_eq_error he hname)
  obtain ⟨progress, hfirst⟩ := decompileFirst_of_failure rfl ⟨sent, hcompletes, hfailure⟩
  exact ⟨progress, _, hfirst⟩

/-- What the decompile task leaves to the export. -/
structure Stored (r : ZipRun choice archive w) (s : Session) : Prop where
  idle : s.isBusy = false
  delimiter : s.pipeline.workspace.delimiter = "/"
  extension : s.pipeline.workspace.extension = ".java"
  world : s.world = r.after
  entries : ∃ names : List String, names.Nodup ∧
    (∀ n, n ∈ names ↔ n ++ ".java" ∈ r.entries.map Prod.fst) ∧
    s.store.entries = names.map fun n => (n, some (Decompiler.classText r.entries n))

theorem decompileFirst_eq (r : ZipRun choice archive w) (hnamed : ∀ e ∈ r.entries, e.1 ≠ "")
    (hreadable : Decompiler.IsReadable r.entries)
    (hsome : ∃ n, n ++ ".java" ∈ r.entries.map Prod.fst)
    (hvalid : ∀ n, n ++ ".java" ∈ r.entries.map Prod.fst → QualifiedName.isValid "/" n = true)
    (quiet : Bool) (next : Session → Report) :
    ∃ s printed, r.Stored s ∧
      decompileFirst r.session archive quiet next = .after printed (next s) := by
  obtain ⟨names, d, hnodup, hnames, hdecompile⟩ := r.decompile_eq hnamed hreadable hsome
  let s : Workspace := (r.session.opened archive).pipeline.workspace
  let t : Workspace := { s with world := r.after, store := .empty }
  let e : Engine := s.engineFor d
  let acts := reportActs names (Decompiler.classText r.entries)
  obtain ⟨sent, hcompletes, hreport⟩ := @completes_decompiler archive r.source r.settings s acts
    r.after d rfl rfl r.isArchive hdecompile fun _ => isCalm_of_mem_reportActs
  let u : Workspace := { t with store := Store.empty.reported acts, engine := some e }
  have hentries : u.store.entries =
      names.map fun n => (n, some (Decompiler.classText r.entries n)) :=
    entries_reportActs hnodup
  have htree : (t.decompiled e acts).1 = u := by
    have hworld : t.decompiled e acts = u.tree := by
      rw [Workspace.decompiled, noted_reportActs]
    rw [hworld]
    apply Workspace.tree_of_valid
    intro n hn
    rw [hentries, Assoc.keys, List.map_map] at hn
    obtain ⟨m, hm, rfl⟩ := List.mem_map.1 hn
    show QualifiedName.isValid r.settings.delimiter m = true
    rw [r.delimiter_eq]
    exact hvalid m ((hnames m).1 hm)
  rw [htree] at hcompletes
  obtain ⟨s, progress, hworkspace, hidle, -, hfirst⟩ :=
    decompileFirst_of_success rfl ⟨sent, hcompletes, hreport⟩
  refine ⟨s, progress, ⟨hidle, ?_, ?_, ?_, names, hnodup, hnames, ?_⟩, hfirst⟩
  · rw [hworkspace]
    exact r.delimiter_eq
  · rw [hworkspace]
    exact r.extension_eq
  · show s.pipeline.workspace.world = r.after
    rw [hworkspace]
  · show s.pipeline.workspace.store.entries = _
    rw [hworkspace]
    exact hentries

variable {r : ZipRun choice archive w} {s : Session} {n : String}

/-- The entry that a class becomes. -/
def entryOf (u : ClassUnit) : String × ByteArray :=
  (u.name ++ ".java", (u.text.getD "").toUTF8)

/-- What is saved of a class whose text can be decoded is that text. -/
theorem toUTF8_classText {entries : Entries} {text : String}
    (hlast : Archive.IsLast entries (n ++ ".java", .ok text.toUTF8)) :
    (Decompiler.classText entries n).toUTF8 = text.toUTF8 := by
  have hentry : Archive.lastEntry? entries (n ++ Decompiler.sourceSuffix) =
      some (.ok text.toUTF8) := Archive.isLast_iff.2 hlast
  rw [Decompiler.classText, hentry]
  show (Text.Utf8.decodeLossy text.toUTF8).toUTF8 = _
  rw [Text.Utf8.decodeLossy_toUTF8]

theorem Stored.mem_units_iff (h : r.Stored s) {u : ClassUnit} :
    u ∈ s.store.units ↔ u.name ++ ".java" ∈ r.entries.map Prod.fst ∧
      u.text = some (Decompiler.classText r.entries u.name) := by
  obtain ⟨names, -, hnames, hentries⟩ := h.entries
  rw [Store.mem_units_iff, hentries, List.mem_map]
  constructor
  · rintro ⟨n, hn, heq⟩
    obtain ⟨hname, htext⟩ := Prod.mk.inj heq
    exact ⟨(hnames u.name).1 (hname ▸ hn), hname ▸ htext.symm⟩
  · rintro ⟨hname, htext⟩
    exact ⟨u.name, (hnames _).2 hname, by rw [htext]⟩

theorem Stored.length_units (h : r.Stored s) : s.store.units.length = r.count := by
  obtain ⟨names, hnodup, hnames, hentries⟩ := h.entries
  have hfiles : (names.map fun n => n ++ ".java").Nodup :=
    hnodup.map fun m n hmn => (String.append_left_inj ".java").1 hmn
  have hperm : (names.map fun n => n ++ ".java").Perm
      ((r.entries.map Prod.fst).filter (Archive.hasSuffix ".java")).dedup := by
    apply (List.perm_ext_iff_of_nodup hfiles (List.nodup_dedup _)).2
    intro file
    rw [List.mem_dedup, List.mem_filter, Archive.hasSuffix_iff, List.mem_map]
    constructor
    · rintro ⟨n, hn, rfl⟩
      exact ⟨(hnames n).1 hn, n, rfl⟩
    · rintro ⟨hfile, n, rfl⟩
      exact ⟨n, (hnames n).2 hfile, rfl⟩
  calc
    s.store.units.length = names.length := by
      rw [Store.length_units, Store.size, hentries, List.length_map]
    _ = (names.map fun n => n ++ ".java").length := (List.length_map _).symm
    _ = r.count := hperm.length_eq

/-- What is saved is what the run has left. -/
theorem Stored.isRoundTrip (h : r.Stored s)
    (hsources : ∀ n held, (n ++ ".java", held) ∈ r.entries → IsExportable n held) :
    IsRoundTrip r.entries (s.store.units.map entryOf) := by
  refine ⟨?_, ?_⟩
  · intro e
    rw [List.mem_map]
    constructor
    · rintro ⟨u, hu, rfl⟩
      obtain ⟨hname, htext⟩ := h.mem_units_iff.1 hu
      obtain ⟨held, hlast⟩ := Archive.exists_isLast hname
      obtain ⟨text, rfl⟩ := (hsources _ _ hlast.mem).decodable
      refine ⟨⟨u.name, rfl⟩, ?_⟩
      rw [entryOf, htext, Option.getD_some, toUTF8_classText hlast]
      exact hlast
    · obtain ⟨file, data⟩ := e
      rintro ⟨⟨n, rfl⟩, hlast⟩
      have hname : n ++ ".java" ∈ r.entries.map Prod.fst :=
        List.mem_map_of_mem (f := Prod.fst) hlast.mem
      obtain ⟨text, htext⟩ := (hsources _ _ hlast.mem).decodable
      obtain rfl := Except.ok.inj htext
      refine ⟨⟨n, some (Decompiler.classText r.entries n)⟩, h.mem_units_iff.2 ⟨hname, rfl⟩, ?_⟩
      rw [entryOf, Option.getD_some, toUTF8_classText hlast]
  · rw [List.pairwise_map]
    apply s.store.pairwise_units.imp
    intro u v huv m n hm hn
    rw [← (String.append_left_inj ".java").1 hm, ← (String.append_left_inj ".java").1 hn]
    exact huv

theorem Stored.saves (h : r.Stored s)
    (hsources : ∀ n held, (n ++ ".java", held) ∈ r.entries → IsExportable n held)
    {u : ClassUnit} (hu : u ∈ s.store.units) : Saves (.forArchive z "/" ".java") u (entryOf u) := by
  obtain ⟨hname, htext⟩ := h.mem_units_iff.1 hu
  obtain ⟨data, hlast⟩ := Archive.exists_isLast hname
  have hexportable := hsources _ _ hlast.mem
  obtain ⟨path, hpath⟩ := hexportable.accepted
  have hfile := Export.toLoose_entryPath_slash (by decide) hpath
  refine ⟨_, path, htext, hpath, ?_, ?_⟩
  · exact Export.storedName_eq_ok hfile hexportable.hasNoNull hexportable.isShort
  · rw [entryOf, htext, Option.getD_some]

/-- The export of what the run has left. -/
theorem Stored.exportAll_eq (h : r.Stored s)
    (hsources : ∀ n held, (n ++ ".java", held) ∈ r.entries → IsExportable n held)
    (hz : r.CanCreate z) (hroom : r.HasRoom z) (quiet : Bool) :
    ∃ printed world executable,
      exportAll s (.zip (.value z)) quiet = .ended printed .normal world ∧
      world.files.get z =
        .ok (.file (.archive (s.store.units.map entryOf)) executable) := by
  obtain ⟨fs, writer, hopen⟩ := hz
  have hroom : s.pipeline.workspace.world.files.device.HasRoomFor z.place
      (s.store.units.map entryOf) := by
    rw [show s.pipeline.workspace.world = r.after from h.world]
    exact hroom _ (h.isRoundTrip hsources)
  rw [← h.length_units, ← h.world, ← h.delimiter, ← h.extension] at hopen
  have hsaves : ∀ u ∈ s.store.units, Saves (.forArchive z s.pipeline.workspace.delimiter
      s.pipeline.workspace.extension) u (entryOf u) := by
    rw [h.delimiter, h.extension]
    exact fun u hu => h.saves hsources hu
  obtain ⟨workspace, sent, summary, executable, hcompletes, hreport, hget⟩ :=
    archives_of_saves hopen hsaves s.store.nodup_names_units hroom
  have hpath : (Target.zip (.value z)).path = .value z := rfl
  obtain ⟨progress, -, -, hsuccess⟩ := CommandLine.exportAll_eq h.idle hpath
    ⟨sent, hcompletes, hreport⟩
  exact ⟨_, _, executable, hsuccess summary rfl, hget⟩

/-- The texts of classes that can be exported can be read. -/
theorem isReadable_of_isExportable
    (hsources : ∀ n held, (n ++ ".java", held) ∈ r.entries → IsExportable n held) :
    Decompiler.IsReadable r.entries := by
  intro n held hlast
  obtain ⟨text, rfl⟩ := (hsources n held hlast.mem).decodable
  exact ⟨_, rfl⟩

/-- Classes that can be exported have valid names. -/
theorem isValid_of_isExportable
    (hsources : ∀ n held, (n ++ ".java", held) ∈ r.entries → IsExportable n held)
    (hn : n ++ ".java" ∈ r.entries.map Prod.fst) : QualifiedName.isValid "/" n = true := by
  obtain ⟨data, hlast⟩ := Archive.exists_isLast hn
  obtain ⟨path, hpath⟩ := (hsources n data hlast.mem).accepted
  exact Export.isValid_of_entryPath hpath

end ZipRun

/-- `decompile --zip` after a run of the decompiler that leaves an archive: the exported archive, if
it can be made and there is room for it, is the round trip of that archive if each of its entries
has a name, and otherwise the command fails. -/
theorem perform_decompile_zip {choice : EngineChoice} {archive z : Path} {w : World} (quiet : Bool)
    (r : ZipRun choice archive w) (hsome : ∃ n held, (n ++ ".java", held) ∈ r.entries)
    (hsources : ∀ n held, (n ++ ".java", held) ∈ r.entries → IsExportable n held)
    (hz : r.CanCreate z) (hroom : r.HasRoom z) :
    let report := (Command.decompile choice archive (.zip (.value z)) quiet).perform none w
    ((∀ e ∈ r.entries, e.1 ≠ "") → report.ending = .normal ∧ ∃ written executable,
      report.world.files.get z = .ok (.file (.archive written) executable) ∧
        IsRoundTrip r.entries written) ∧
    ((∃ e ∈ r.entries, e.1 = "") → report.ending = .exit 1 ∧
      report.printed.getLast? = some (complaint "string index out of range")) := by
  intro report
  have hreport : report = decompileAll r.session archive (.zip (.value z)) quiet := r.perform_eq _ _
  rw [hreport, decompileAll]
  constructor
  · intro hnamed
    obtain ⟨n, held, hentry⟩ := hsome
    obtain ⟨s, printed, hstored, hdecompile⟩ := r.decompileFirst_eq hnamed
      (ZipRun.isReadable_of_isExportable hsources) ⟨n, List.mem_map_of_mem hentry⟩
      (fun n => ZipRun.isValid_of_isExportable hsources) quiet fun s =>
        .after [.line s!"Decompiled {s.store.size} classes from {archive.name}"]
        (exportAll s (.zip (.value z)) quiet)
    obtain ⟨printed', world, executable, hexport, hget⟩ :=
      hstored.exportAll_eq hsources hz hroom quiet
    rw [hdecompile, hexport]
    exact ⟨rfl, _, executable, hget, hstored.isRoundTrip hsources⟩
  · rintro ⟨e, he, hname⟩
    obtain ⟨printed, world, hdecompile⟩ := r.decompileFirst_of_nameless he hname quiet fun s =>
      .after [.line s!"Decompiled {s.store.size} classes from {archive.name}"]
        (exportAll s (.zip (.value z)) quiet)
    rw [hdecompile]
    exact ⟨rfl, List.getLast?_concat⟩

/-! ## A run -/

namespace Sample

/-- What the decompiler leaves: two texts of one class, and a file that is none and cannot be
read. -/
def entries : Entries :=
  [("A.java", .ok "x".toUTF8), ("README", .error (.other "RuntimeError" "encrypted")),
    ("A.java", .ok "a".toUTF8)]

/-- Surroundings with an archive `app.jar` and a decompiler. -/
def world : World :=
  .start ⟨[([], .directory), (["W"], .directory), (["W", "app.jar"], .file (.zip []) false),
    (["W", "engine.jar"], .file (.bytes .empty) false),
    (["W", "java"], .program [⟨.empty, .empty, 0,
      [⟨["app.jar"], some (.zip entries)⟩], false⟩] 0)], .roomy⟩ {}

def choice : EngineChoice :=
  ⟨none, some (.value ⟨.relative, ["engine.jar"]⟩), some (.value ⟨.relative, ["java"]⟩), []⟩

def settings : Settings :=
  { Settings.default with engineJar := choice.jar, java := choice.java }

def source : Path := ⟨.root, ["W", "app.jar"]⟩

/-- What comes of the start of the decompiler. -/
def launched : World × Except EngineError Engine.Completed :=
  (Decompiler.given settings source).launch ((world.note (openingRecord input)).asked input)

def run : ZipRun choice input world where
  settings := settings
  source := source
  after := launched.1
  completed := ⟨0, "", ""⟩
  entries := entries
  loads := rfl
  delimiter_eq := rfl
  extension_eq := rfl
  isArchive := eq_ok_of_toOption (by decide +kernel)
  runs := Prod.ext rfl (eq_ok_of_toOption (by decide +kernel))
  succeeds := rfl
  leaves := eq_ok_of_toOption (by decide +kernel)

theorem canCreate : run.CanCreate output := by
  have hopen : ((Writer.forArchive output "/" ".java").openTarget
      (run.after.note (exportingRecord run.count output)).files).2.toOption.isSome := by
    decide +kernel
  obtain ⟨writer, hwriter⟩ := Option.isSome_iff_exists.1 hopen
  exact ⟨_, writer, Prod.ext rfl (eq_ok_of_toOption hwriter)⟩

theorem className : ("A" : String) ++ ".java" = "A.java" := by decide +kernel

theorem mem_entries : ("A" ++ ".java", .ok "a".toUTF8) ∈ run.entries := by
  rw [className]
  exact .tail _ (.tail _ (.head _))

theorem eq_of_mem_entries {n : String} {held : Except ZipFault ByteArray}
    (h : (n ++ ".java", held) ∈ entries) :
    n = "A" ∧ (held = .ok "x".toUTF8 ∨ held = .ok "a".toUTF8) := by
  have hfile : Archive.hasSuffix ".java" "README" = false := by decide +kernel
  rw [entries, List.mem_cons, List.mem_cons, List.mem_singleton] at h
  rcases h with hx | hr | ha
  · obtain ⟨hname, hdata⟩ := Prod.mk.inj hx
    exact ⟨(String.append_left_inj ".java").1 (hname.trans className.symm), .inl hdata⟩
  · obtain ⟨hname, -⟩ := Prod.mk.inj hr
    rw [Archive.hasSuffix_iff.2 ⟨n, hname.symm⟩] at hfile
    exact nomatch hfile
  · obtain ⟨hname, hdata⟩ := Prod.mk.inj ha
    exact ⟨(String.append_left_inj ".java").1 (hname.trans className.symm), .inr hdata⟩

theorem isExportable (n : String) (held : Except ZipFault ByteArray)
    (h : (n ++ ".java", held) ∈ run.entries) : IsExportable n held := by
  obtain ⟨rfl, hdata⟩ := eq_of_mem_entries h
  refine ⟨⟨⟨.relative, ["A.java"]⟩, eq_ok_of_toOption (by decide +kernel)⟩, ?_,
    by decide +kernel, by decide +kernel⟩
  rcases hdata with rfl | rfl
  · exact ⟨"x", rfl⟩
  · exact ⟨"a", rfl⟩

theorem hasRoom : run.HasRoom output := by
  intro written hwritten
  have hdevice : run.after.files.device = .roomy :=
    ((Decompiler.given settings source).keeps_launch _).device
  rw [hdevice]
  refine Device.hasRoomFor_roomy output.place fun e he => ?_
  obtain ⟨⟨n, hname⟩, hlast⟩ := (hwritten.mem_iff e).1 he
  obtain ⟨-, hdata⟩ := eq_of_mem_entries (n := n) (hname ▸ hlast.mem)
  rcases hdata with hx | ha
  · rw [Except.ok.inj hx]
    decide +kernel
  · rw [Except.ok.inj ha]
    decide +kernel

end Sample

theorem perform_decompile_zip_sample :
    let report := (Command.decompile Sample.choice Sample.input (.zip (.value Sample.output))
      false).perform none Sample.world
    report.ending = .normal ∧ ∃ written executable,
      report.world.files.get Sample.output = .ok (.file (.archive written) executable) ∧
        IsRoundTrip Sample.entries written :=
  (perform_decompile_zip false Sample.run
    ⟨"A", .ok "a".toUTF8, Sample.mem_entries⟩ Sample.isExportable Sample.canCreate
    Sample.hasRoom).1
    (by show ∀ e ∈ Sample.entries, e.1 ≠ ""; decide +kernel)

end ClassBrowser.CommandLine
