import ClassBrowser.Proofs.Export.Confinement
import ClassBrowser.Proofs.Session.Requests
import ClassBrowser.Proofs.Task.FailedExports

/-!
# Exports stay below their target

Whatever the classes are called and however an export to a directory ends, each step of its worker
leaves the files outside the target alone (`confined_advance`), and so does the whole export, as far
as it may have come (`confined_of_start`).  This takes an extension that stays below the target; the
settings accept others too, with which a class lands outside (`exists_export_outside`).
-/

namespace ClassBrowser

open Export (Stays)

/-- Whether all that has changed in the files is confined to a target, but for the log. -/
structure World.Confined (w : World) (target : Path) (w' : World) : Prop where
  logFile : w'.logFile = w.logFile
  files : w.files.Confined w.logPlace target w'.files

/-- Whether a stage is one of an export below a directory. -/
def Stage.Fills (target : Path) (extension : Text.Loose) : Stage → Prop
  | .exporting x | .rendering x _ _ _ => x.writer.Fills target extension
  | .adding _ _ | .decompiling _ _ _ _ => False
  | _ => True

@[simp] theorem Stage.fills_withActs (stage : Stage) (acts : List Act) (target : Path)
    (extension : Text.Loose) :
    (stage.withActs acts).Fills target extension ↔ stage.Fills target extension := by
  cases stage <;> rfl

theorem Stage.Fills.isDecompiling {stage : Stage} {target : Path} {extension : Text.Loose}
    (h : stage.Fills target extension) : stage.isDecompiling = false := by
  cases stage with
  | adding => cases h
  | decompiling => cases h
  | _ => rfl

/-- Whether a step of an export below a directory is confined to it. -/
structure Advance.Confined (a : Advance) (s : Workspace) (target : Path) : Prop where
  extension : a.workspace.extension = s.extension
  world : s.world.Confined target a.workspace.world
  stage : a.stage.Fills target s.extension

variable {w w₁ w₂ : World} {s : Workspace} {target : Path} {extension : Text.Loose}

namespace World.Confined

theorem of_logs (h : w.Logs w₁) (target : Path) : w.Confined target w₁ :=
  ⟨h.logFile, .of_logs h.files target⟩

theorem of_files {files : Files} (h : w.files.Confined w.logPlace target files) :
    w.Confined target { w with files } := ⟨rfl, h⟩

theorem trans (h₁ : w.Confined target w₁) (h₂ : w₁.Confined target w₂) : w.Confined target w₂ := by
  have hplace : w₁.logPlace = w.logPlace := by
    rw [logPlace, logPlace, h₁.logFile]
  have hfiles := h₂.files
  rw [hplace] at hfiles
  exact ⟨h₂.logFile.trans h₁.logFile, h₁.files.trans hfiles⟩

end World.Confined

/-! ## Steps -/

namespace Workspace

variable {x : Exporting} {stage : Stage}

theorem confined_silently (hw : s.world.Confined target w) (h : stage.Fills target s.extension) :
    ((s.withWorld w).silently stage).Confined s target := ⟨rfl, hw, h⟩

theorem confined_fail (hw : s.world.Confined target w) (kind : TaskKind) (f : TaskFailure) :
    ((s.withWorld w).fail kind f).Confined s target :=
  ⟨rfl, hw.trans (.of_logs (w.logs_note _) target), trivial⟩

/-- There is nothing to close below a directory. -/
theorem closeWriter_of_fills {writer : Export.Writer} (h : writer.Fills target extension)
    (s : Workspace) : s.closeWriter writer = s := by
  rw [closeWriter, Export.Writer.close_directory h.format]
  rfl

theorem confined_failExport {writer : Export.Writer} (hw : s.world.Confined target w)
    (hwriter : writer.Fills target extension) (kind : TaskKind) (f : TaskFailure) :
    ((s.withWorld w).failExport kind writer f).Confined s target := by
  rw [failExport, closeWriter_of_fills hwriter]
  exact confined_fail hw kind _

theorem Supplies.fills {name : String} {text : Option String}
    (hsupplies : s.Supplies stage x name text) (h : stage.Fills target extension) :
    x.writer.Fills target extension := by
  cases hsupplies <;> exact h

theorem confined_exporting (s : Workspace) (target : Path) :
    s.world.Confined target (s.exporting target).world :=
  .of_logs (s.world.logs_note _) target

/-- Each move of an export below a directory is confined to it. -/
theorem Moves.confined {a : Advance} (hmove : s.Moves .exportDirectory target stage a)
    (hstays : Stays s.extension) (h : stage.Fills target s.extension) : a.Confined s target := by
  have hidle : s.world.Confined target s.world := .of_logs (.refl _) target
  have hwriter : (s.writerFor .exportDirectory target).Fills target s.extension := ⟨rfl, rfl, rfl⟩
  cases hmove with
  | unopened _ hopen =>
    have hmade := hwriter.openTarget (s.exporting target).world.files
      (s.exporting target).world.logPlace
    rw [hopen] at hmade
    exact confined_fail ((s.confined_exporting target).trans (.of_files hmade)) _ _
  | opened _ hopen =>
    have hmade := hwriter.openTarget (s.exporting target).world.files
      (s.exporting target).world.logPlace
    rw [hopen] at hmade
    obtain rfl := Export.Writer.openTarget_directory rfl hopen
    exact confined_silently ((s.confined_exporting target).trans (.of_files hmade)) hwriter
  | asked => exact confined_silently (.of_logs (Engine.logs_render _ _ _) target) h
  | skipped hsupplies => exact ⟨rfl, .of_logs (s.world.logs_note _) target, hsupplies.fills h⟩
  | written hsupplies hwrite =>
    obtain ⟨hfiles, hwriter⟩ := (hsupplies.fills h).write hstays hwrite s.world.logPlace
    exact ⟨rfl, .of_files hfiles, hwriter⟩
  | unwritten hsupplies hwrite =>
    obtain ⟨hfiles, hwriter⟩ := (hsupplies.fills h).write hstays hwrite s.world.logPlace
    exact confined_failExport (.of_files hfiles) hwriter _ _
  | refused => exact confined_failExport hidle h _ _
  | @deserted x =>
    rw [closeWriter_of_fills (show x.writer.Fills target s.extension from h)]
    exact confined_silently hidle trivial
  | @exported x =>
    rw [closeWriter_of_fills (show x.writer.Fills target s.extension from h)]
    exact ⟨rfl, hidle, trivial⟩
  | @rescued x _ _ _ _ f | @unclosed x f =>
    rw [closeWriter_of_fills (show x.writer.Fills target s.extension from h)]
    exact confined_fail hidle _ f
  | noted => exact confined_silently (.of_logs (s.world.logs_note _) target) (by simpa using h)
  | passed => exact confined_silently hidle (by simpa using h)
  | ended => exact confined_silently hidle trivial
  | unconfigured hkind | unmade hkind | made hkind => cases hkind
  | threw hengine | lost hengine =>
    cases h.isDecompiling.symm.trans (Stage.isDecompiling_of_engine? hengine)
  | added | unit | total | decompiled => cases h

/-- Each step of an export below a directory is confined to it. -/
theorem confined_advance (hstays : Stays s.extension) (h : stage.Fills target s.extension) :
    (s.advance .exportDirectory target stage).Confined s target :=
  (s.moves_advance .exportDirectory target stage).confined hstays h

end Workspace

/-! ## Whole exports -/

namespace Pipeline

variable {p q : Pipeline} {t : Task}

theorem confined_work (hstays : Stays p.workspace.extension) (ht : p.tasks.head? = some t)
    (hkind : t.kind = .exportDirectory)
    (hstage : t.stage.Fills t.target p.workspace.extension) (n : Nat) :
    p.workspace.world.Confined t.target (p.work n).workspace.world := by
  induction n generalizing p t with
  | zero => exact .of_logs (.refl _) _
  | succ n ih =>
    obtain ⟨hworkspace, hlatest, -⟩ := head?_step ht
    have hstep := Workspace.confined_advance (s := p.workspace) hstays hstage
    rw [← hkind] at hstep
    have hextension : p.step.workspace.extension = p.workspace.extension := by
      rw [hworkspace]
      exact hstep.extension
    have hrest := ih (hextension ▸ hstays) hlatest hkind (hextension ▸ hstep.stage)
    rw [hworkspace] at hrest
    exact hstep.world.trans hrest

/-- An export to a directory, whatever its classes are called and as far as it may have come, has
changed nothing outside the directory, provided that the extension stays there: the log apart, there
may be new directories on the way to the target, where nothing stood before. -/
theorem confined_of_start (hstays : Stays p.workspace.extension)
    (hstart : p.start .exportDirectory target = .ok q) (n : Nat) {place : Place}
    (houtside : ¬ target.place <+: place) (hlog : p.workspace.world.logPlace ≠ some place) :
    let before := p.workspace.world.files
    let after := (q.work n).workspace.world.files
    after.node? place = before.node? place ∨
      (before.node? place = none ∧ after.node? place = some .directory ∧
        target.Passes place) := by
  intro before after
  unfold start at hstart
  split at hstart
  · cases hstart
  obtain rfl := Except.ok.inj hstart
  let t : Task := ⟨p.tasks.length, .exportDirectory, target, [], none, .ready⟩
  let started : Pipeline := { p with tasks := t :: p.tasks }
  have hlatest : started.tasks.head? = some t := rfl
  have hconfined : p.workspace.world.Confined target (started.work n).workspace.world :=
    confined_work (p := started) hstays hlatest rfl trivial n
  rcases hconfined.files place with hlogged | hmade | hbelow
  · exact .inl (hlogged.eq_of_ne hlog)
  · exact .inr hmade
  · exact absurd hbelow houtside

namespace Sample

/-- A class without a package, which is exported under some extension. -/
def loneClass (extension : Text.Loose) : Pipeline :=
  ⟨⟨.start .empty {}, Store.empty.put "A" (some "a"), none, none, "/", extension⟩, []⟩

/-- A file that does not belong to the folder. -/
def beside : Path := ⟨.relative, ["evil.txt"]⟩

def settingsFile : Path := ⟨.relative, ["c.json"]⟩

def settingsText : String := "\x7b\"extension\": \"/../../evil.txt\"\x7d"

def withSettings : Files :=
  Files.empty.set settingsFile.place (.file (.bytes settingsText.toUTF8) false)

end Sample

theorem confined_of_start_sample :
    ∃ q, (Sample.loneClass ".java").start .exportDirectory Sample.folder = .ok q ∧
      ∀ content executable, (q.work 2).workspace.world.files.node? Sample.beside.place ≠
        some (.file content executable) := by
  obtain ⟨q, hstart⟩ : ∃ q,
      (Sample.loneClass ".java").start .exportDirectory Sample.folder = .ok q := ⟨_, rfl⟩
  refine ⟨q, hstart, ?_⟩
  have hstays : Stays (Sample.loneClass ".java").workspace.extension := by decide +kernel
  have houtside : ¬ Sample.folder.place <+: Sample.beside.place := by decide
  rcases confined_of_start hstays hstart 2 houtside nofun with hsame | ⟨-, hmade, -⟩
  · rw [hsame]
    exact nofun
  · rw [hmade]
    exact nofun

/-- Settings that are accepted lead an export out of its target. -/
theorem exists_export_outside :
    ∃ settings q n, Settings.load Sample.withSettings {} (some Sample.settingsFile) =
        .ok settings ∧
      (Sample.loneClass settings.extension).start .exportDirectory Sample.folder = .ok q ∧
      ¬ Sample.folder.place <+: Sample.beside.place ∧
      ((Sample.loneClass settings.extension).workspace.world.files.isFile Sample.beside).toOption =
        some false ∧
      ((q.work n).workspace.world.files.isFile Sample.beside).toOption = some true := by
  have hextension : (Settings.load Sample.withSettings {} (some Sample.settingsFile)).toOption.map
      Settings.extension = some "/../../evil.txt" := by decide +kernel
  cases hload : Settings.load Sample.withSettings {} (some Sample.settingsFile) with
  | error e =>
    rw [hload] at hextension
    cases hextension
  | ok settings =>
    rw [hload] at hextension
    obtain hevil : settings.extension = "/../../evil.txt" := Option.some.inj hextension
    refine ⟨settings, _, 2, rfl, rfl, by decide, ?_, ?_⟩
    · rw [hevil]
      decide +kernel
    · rw [hevil]
      decide +kernel

end Pipeline

end ClassBrowser
