import ClassBrowser.Proofs.Task.ExportRun

/-!
# Failed exports

An export that fails has done what it was to do for the classes before the one where it fails, and
nothing for any other (`Pipeline.perform_export_of_failure`).  However it ends, the store and the
engine stay as they were, and the next task may start.

## What is left at the end

`ExportEnd` tells for each last step what was sent and what is left.  The target holds the classes
that were written before; it is clean where the class at which the export stops was not begun to be
written and the target can be closed (`Stopped`).  Otherwise a directory has a part of one more
file, and an archive is whatever the device has made of it.

Names that an archive would cut off and extensions that lead elsewhere are excluded here, since the
files of two classes may be one then.

## Targets that are not clean

Each of these exceptions does occur, and so may a log that is written into the target
(`exists_target_not_clean`).
-/

namespace ClassBrowser

open Export (Writer)

namespace Workspace

/-- Why a class cannot be exported: the engine throws when it is asked for a text, or the text
cannot be written. -/
inductive CannotExport (s : Workspace) (w : Writer) (u : ClassUnit) : TaskFailure → Prop
  | thrown {t : Thrown} (hask : (s.ask u).2 = .error t) : CannotExport s w u (.thrown t)
  | unwritten {text : String} {e : Export.ExportError} (hask : (s.ask u).2 = .ok (some text))
      (hwrite : (w.write (s.ask u).1.world.files u.name text).2.2 = .error e) :
      CannotExport s w u (.unwritten e)

/-- Whether in the course of an export it turns out that a class cannot be exported. -/
def StopsAt (s : Workspace) (kind : TaskKind) (target : Path) (u : ClassUnit) (f : TaskFailure) :
    Prop :=
  ∃ w x left sent, Leads kind target s .ready sent (s.withWorld w) (.exporting x) ∧
    x.left = u :: left ∧ (s.withWorld w).CannotExport x.writer u f

end Workspace

/-- Whether a failure may leave a part of a class at the target. -/
def TaskFailure.leavesPart : TaskFailure → Bool
  | .unwritten e => e.leavesPart
  | .noEngine | .thrown _ => false

/-- What an export leaves that stops at a class for some reason, and what it reports: a target with
the classes before that one, if nothing was written of it and the target can be closed; otherwise a
part of its file or an archive that is unfinished. -/
inductive Stopped (s : Workspace) (kind : TaskKind) (target : Path) (saved : List (String × String))
    (u : ClassUnit) (f : TaskFailure) (after : Files) : (reason : String) → Prop
  | clean (hwhole : f.leavesPart = false)
    (hcloses : (s.writerFor kind target).CanClose kind s.world.files.device saved)
    (hleaves : (s.writerFor kind target).Leaves kind s.world.logPlace s.world.files after saved
      (saved.map Prod.fst ++ [u.name])) : Stopped s kind target saved u f after f.reason
  | part {text : String} {reason : String} (hpart : f.leavesPart = true)
    (hfinds : s.Finds kind target u (some text))
    (hreason : reason = f.reason ∨ kind = .exportArchive ∧ ∃ obstacle : Obstacle,
      reason = obstacle.message)
    (hleaves : (s.writerFor kind target).LeavesPart kind s.world.logPlace s.world.files
      s.world.files.device after saved (saved.map Prod.fst) u.name text) :
    Stopped s kind target saved u f after reason
  | unclosed {obstacle : Obstacle} (hkind : kind = .exportArchive)
    (hcloses : ¬ (s.writerFor kind target).CanClose kind s.world.files.device saved)
    (hunfinished : (s.writerFor kind target).IsUnfinished s.world.logPlace s.world.files.device
      after) : Stopped s kind target saved u f after obstacle.message

/-- How an export ends: what it leaves of the surroundings, and what it has sent. -/
inductive ExportEnd (kind : TaskKind) (target : Path) (s : Workspace) (after : World) :
    List Message → Prop
  | unopened {e : Export.ExportError}
      (hopen : ((s.writerFor kind target).openTarget
        (s.world.note (exportingRecord s.store.units.length target)).files).2 = .error e)
      (hfiles : kind = .exportDirectory → (s.writerFor kind target).HoldsFiles s.world.logPlace
        s.world.files after.files [] []) :
      ExportEnd kind target s after [.finished (.failure e.message)]
  | stopped {done : List (ClassUnit × Option String)} {w : World} {x : Exporting} {u : ClassUnit}
      {behind : List ClassUnit} {f : TaskFailure} {reason : String}
      (hunderway : Underway kind target s done w x) (hleft : x.left = u :: behind)
      (hcannot : (s.withWorld w).CannotExport x.writer u f)
      (hstopped : Stopped s kind target (savedOf done) u f after.files reason) :
      ExportEnd kind target s after
        (savedMessages done.length s.store.units.length ++ [.finished (.failure reason)])
  | unclosed {done : List (ClassUnit × Option String)} {w : World} {x : Exporting}
      {obstacle : Obstacle} (hunderway : Underway kind target s done w x) (hleft : x.left = [])
      (hkind : kind = .exportArchive)
      (hcloses : ¬ (s.writerFor kind target).CanClose kind s.world.files.device (savedOf done))
      (hunfinished : (s.writerFor kind target).IsUnfinished s.world.logPlace s.world.files.device
        after.files) :
      ExportEnd kind target s after
        (savedMessages s.store.units.length s.store.units.length ++
          [.finished (.failure obstacle.message)])
  | completed {done : List (ClassUnit × Option String)} {w : World} {x : Exporting}
      (hunderway : Underway kind target s done w x) (hleft : x.left = [])
      (hleaves : (s.writerFor kind target).Leaves kind s.world.logPlace s.world.files after.files
        (savedOf done) ((savedOf done).map Prod.fst)) :
      ExportEnd kind target s after
        (savedMessages s.store.units.length s.store.units.length ++
          [.finished (.success (some (.exported
            ⟨target, (savedOf done).map Prod.fst, skippedOf done⟩)))])

variable {kind : TaskKind} {target : Path} {s : Workspace} {after : World} {sent : List Message}
  {p : Pipeline} {u : ClassUnit} {done : List (ClassUnit × Option String)} {w : World}
  {x : Exporting} {a : Advance}

theorem Stopped.logs {saved : List (String × String)} {f : TaskFailure} {fs fs' : Files}
    {reason : String} (h : Stopped s kind target saved u f fs reason)
    (hlogs : fs.Logs s.world.logPlace fs') : Stopped s kind target saved u f fs' reason := by
  cases h with
  | clean hwhole hcloses hleaves => exact .clean hwhole hcloses (hleaves.logs hlogs)
  | part hpart hfinds hreason hleaves => exact .part hpart hfinds hreason (hleaves.logs hlogs)
  | unclosed hkind hcloses hunfinished => exact .unclosed hkind hcloses (hunfinished.logs hlogs)

/-! ## Closing the target -/

/-- A target that holds what was written can be closed and leaves that, unless it is an archive that
does not take its end. -/
theorem closeFailure_cases {writer : Writer} {saved : List (String × String)} {tried : List String}
    (hdevice : w.files.device = s.world.files.device)
    (h : (s.writerFor kind target).Holds kind s.world.logPlace s.world.files writer w.files saved
      tried) :
    (s.withWorld w).closeFailure? writer = none ∧
        (s.writerFor kind target).CanClose kind s.world.files.device saved ∧
        (s.writerFor kind target).Leaves kind s.world.logPlace s.world.files
          (writer.close w.files).1 saved tried ∨
      ∃ obstacle, (s.withWorld w).closeFailure? writer = some (.unwritten (.unclosed obstacle)) ∧
        kind = .exportArchive ∧
        ¬ (s.writerFor kind target).CanClose kind s.world.files.device saved ∧
        (s.writerFor kind target).IsUnfinished s.world.logPlace s.world.files.device
          (writer.close w.files).1 := by
  have hfailure : (s.withWorld w).closeFailure? writer =
    (writer.close w.files).2.2.map TaskFailure.unwritten := rfl
  have hcan := h.close_error_iff
  rw [hdevice] at hcan
  by_cases hclose : (writer.close w.files).2.2 = none
  · exact .inl ⟨by rw [hfailure, hclose, Option.map_none], hcan.1 hclose, h.close hclose⟩
  · obtain ⟨hkind, hunfinished, obstacle, hobstacle⟩ := h.isUnfinished_close hclose
    exact .inr ⟨obstacle, by rw [hfailure, hobstacle, Option.map_some], hkind, hclose ∘ hcan.2,
      hdevice ▸ hunfinished⟩

/-- A failure is noted when the target was closed. -/
theorem logs_failExport (hlog : w.logPlace = s.world.logPlace) (writer : Writer) (f : TaskFailure) :
    (writer.close w.files).1.Logs s.world.logPlace
      ((s.withWorld w).failExport kind writer f).workspace.world.files := by
  have hnote := World.logs_note ((s.withWorld w).closeWriter writer).world
    ⟨.error, .tasks,
      s!"Task {kind.name} failed: {(((s.withWorld w).closeFailure? writer).getD f).message}"⟩
  rw [← hlog]
  exact hnote.files

namespace Stopped

/-- A class that was turned down leaves a clean target, if that can be closed. -/
theorem of_holds {f : TaskFailure} {writer : Writer} {saved : List (String × String)}
    (hwhole : f.leavesPart = false) (hdevice : w.files.device = s.world.files.device)
    (h : (s.writerFor kind target).Holds kind s.world.logPlace s.world.files writer w.files saved
      (saved.map Prod.fst ++ [u.name])) :
    Stopped s kind target saved u f (writer.close w.files).1
      (((s.withWorld w).closeFailure? writer).getD f).reason := by
  rcases closeFailure_cases hdevice h with
    ⟨hnone, hcan, hleaves⟩ | ⟨obstacle, hsome, hkind, hcannot, hunfinished⟩
  · rw [hnone]
    exact .clean hwhole hcan hleaves
  · rw [hsome]
    exact .unclosed hkind hcannot hunfinished

/-- A class that was broken off leaves a part of it. -/
theorem of_torn {f : TaskFailure} {writer : Writer} {saved : List (String × String)} {text : String}
    (hpart : f.leavesPart = true) (hfinds : s.Finds kind target u (some text))
    (hdevice : w.files.device = s.world.files.device)
    (h : (s.writerFor kind target).Torn kind s.world.logPlace s.world.files writer w.files saved
      (saved.map Prod.fst) u.name text) :
    Stopped s kind target saved u f (writer.close w.files).1
      (((s.withWorld w).closeFailure? writer).getD f).reason := by
  refine .part hpart hfinds ?_ (hdevice ▸ h.close)
  have hfailure : (s.withWorld w).closeFailure? writer =
    (writer.close w.files).2.2.map TaskFailure.unwritten := rfl
  rw [hfailure]
  rcases h.close_error with hnone | ⟨hkind, obstacle, hobstacle⟩
  · rw [hnone]
    exact .inl rfl
  · rw [hobstacle]
    exact .inr ⟨hkind, obstacle, rfl⟩

end Stopped

/-! ## The end of an export -/

/-- While an export is under way, its target holds the classes that were written. -/
theorem Underway.holds (h : Underway kind target s done w x) (hkind : kind ≠ .decompileArchive)
    (hslash : .char '/' ∉ s.extension.glyphs) (hext : .char '\x00' ∉ s.extension.glyphs)
    (hname : kind = .exportArchive → ∀ u ∈ s.store.units, ∀ text,
      s.Finds kind target u (some text) → Text.hasNull u.name = false) :
    (s.writerFor kind target).Holds kind s.world.logPlace s.world.files x.writer w.files
      (savedOf done) ((savedOf done).map Prod.fst) := by
  rw [← s.extension_writerFor kind target] at hslash hext
  refine h.written.holds (s.claimed_writerFor kind target) (Workspace.format_writerFor hkind)
    hslash hext fun harchive c hc => ?_
  obtain ⟨d, hd, hdname, htext⟩ := exists_of_mem_savedOf hc
  have hunit : d.1 ∈ s.store.units := by
    rw [h.units]
    exact List.mem_append_left _ (List.mem_map_of_mem hd)
  rw [← hdname]
  exact hname harchive d.1 hunit c.2 (htext ▸ h.found d hd)

/-- A target that cannot be opened holds nothing, but that directories were made. -/
theorem holdsFiles_of_unopened {files : Files} {result : Except Export.ExportError Writer}
    (hopen : (s.writerFor .exportDirectory target).openTarget (s.exporting target).world.files =
      (files, result)) :
    (s.writerFor .exportDirectory target).HoldsFiles s.world.logPlace s.world.files files [] [] :=
  by
  have hnoted := World.logs_note s.world (exportingRecord s.store.units.length target)
  have hgrows := @Writer.grows_openTarget (s.writerFor .exportDirectory target) rfl
    (s.exporting target).world.files
  rw [hopen] at hgrows
  exact ((Writer.HoldsBytes.refl _ _ _).logs hnoted.files).grows hgrows (fun _ => .inl)
    (List.Subset.refl _)

/-- What an export leaves follows from its last step. -/
theorem LastStep.exportEnd (h : LastStep kind target s sent a) (hkind : kind ≠ .decompileArchive)
    (hslash : .char '/' ∉ s.extension.glyphs) (hext : .char '\x00' ∉ s.extension.glyphs)
    (hname : kind = .exportArchive → ∀ u ∈ s.store.units, ∀ text,
      s.Finds kind target u (some text) → Text.hasNull u.name = false) :
    ExportEnd kind target s a.workspace.world (sent ++ a.sent) := by
  cases h with
  | @unopened files e hopen =>
    have hnote := World.logs_note ((s.exporting target).withFiles files).world
      ⟨.error, .tasks, s!"Task {kind.name} failed: {(TaskFailure.unwritten e).message}"⟩
    refine .unopened (congrArg Prod.snd hopen) ?_
    rintro rfl
    exact (holdsFiles_of_unopened hopen).logs hnote.files
  | @thrown done w w₁ x u behind t hunderway hleft hlogs hask =>
    have hholds := (hunderway.holds hkind hslash hext hname).logs (hunderway.logPlace ▸ hlogs.files)
    have hstopped := Stopped.of_holds (f := .thrown t) rfl
      (hlogs.files.device.trans hunderway.device) (hholds.trying u.name)
    exact .stopped hunderway hleft (.thrown (congrArg Prod.snd hask))
      (hstopped.logs (logs_failExport (hlogs.logPlace.trans hunderway.logPlace) x.writer _))
  | @unwritten done w w₁ x u behind text files writer e hunderway hleft hlogs hask hwrite =>
    have hholds := (hunderway.holds hkind hslash hext hname).logs (hunderway.logPlace ▸ hlogs.files)
    have hdevice : files.device = s.world.files.device :=
      (Writer.device_write hwrite).trans (hlogs.files.device.trans hunderway.device)
    have hfinds : s.Finds kind target u (some text) :=
      ⟨w, x, behind, _, hunderway.leads, hleft, congrArg Prod.snd hask⟩
    have hcannot : (s.withWorld w).CannotExport x.writer u (.unwritten e) := by
      refine .unwritten (congrArg Prod.snd hask) ?_
      rw [hask]
      exact congrArg (·.2.2) hwrite
    have hstopped : Stopped s kind target (savedOf done) u (.unwritten e) (writer.close files).1
        ((((s.withWorld w₁).withFiles files).closeFailure? writer).getD (.unwritten e)).reason := by
      rw [← s.extension_writerFor kind target] at hslash
      rcases hholds.write_error hslash (hunderway.new hleft) hwrite with
        ⟨hwhole, hnow⟩ | ⟨hpart, htorn⟩
      · exact @Stopped.of_holds kind target s u { w₁ with files } (.unwritten e) writer _ hwhole
          hdevice hnow
      · exact @Stopped.of_torn kind target s u { w₁ with files } (.unwritten e) writer _ text hpart
          hfinds hdevice htorn
    have hlog : { w₁ with files }.logPlace = s.world.logPlace :=
      hlogs.logPlace.trans hunderway.logPlace
    exact .stopped hunderway hleft hcannot (hstopped.logs (logs_failExport hlog writer _))
  | @ended done w x hunderway hleft =>
    rw [hunderway.length_eq hleft]
    rcases closeFailure_cases hunderway.device (hunderway.holds hkind hslash hext hname) with
      ⟨hnone, -, hleaves⟩ | ⟨obstacle, hsome, hkind, hcannot, hunfinished⟩
    · rw [Workspace.endExport, hnone, hunderway.summary]
      exact .completed hunderway hleft hleaves
    · rw [Workspace.endExport, hsome]
      have hnote := World.logs_note ((s.withWorld w).closeWriter x.writer).world
        ⟨.error, .tasks,
          s!"Task {kind.name} failed: {(TaskFailure.unwritten (.unclosed obstacle)).message}"⟩
      exact .unclosed hunderway hleft hkind hcannot
        (hunfinished.logs (hunderway.logPlace ▸ hnote.files))

/-- The outcome of a report is the only one in it. -/
theorem IsReport.eq_of_mem {o o' : Outcome} (h : IsReport sent o) (hmem : .finished o' ∈ sent) :
    o' = o := by
  obtain ⟨progress, rfl, hprogress⟩ := h
  rcases List.mem_append.1 hmem with hearly | hlast
  · exact nomatch hprogress _ hearly
  · exact Message.finished.inj (List.mem_singleton.1 hlast)

namespace Pipeline

/-- An export that is run to its end leaves the store and the engine as they are, and the next task
may start. -/
theorem perform_export (hidle : p.isBusy = false) (hkind : kind ≠ .decompileArchive)
    (hslash : .char '/' ∉ p.workspace.extension.glyphs)
    (hext : .char '\x00' ∉ p.workspace.extension.glyphs)
    (htame : p.workspace.IsTame)
    (hname : kind = .exportArchive → ∀ u ∈ p.workspace.store.units, ∀ text,
      p.workspace.Finds kind target u (some text) → Text.hasNull u.name = false) :
    ∃ q sent, p.perform kind target = .ok (q, sent) ∧
      q.workspace = p.workspace.withWorld q.workspace.world ∧
      (∀ kind target, ∃ r, q.start kind target = .ok r) ∧
      ExportEnd kind target p.workspace q.workspace.world sent := by
  obtain ⟨q, sent, a, hperform, hlast, hworkspace, hqidle⟩ := perform_lastStep hidle hkind htame
  refine ⟨q, _, hperform, ?_, fun kind target => ⟨_, start_of_idle hqidle kind target⟩, ?_⟩
  · rw [hworkspace]
    exact hlast.workspace_eq
  · rw [hworkspace]
    exact hlast.exportEnd hkind hslash hext hname

/-- An export that fails is cut off in front of a class, be it that the engine throws something
for it or that it cannot be written.  The classes before it were reported one by one, and the target
holds those for which a text was found: an archive has their entries, in a directory their files
were written and some directories made.  Only where the class was begun to be written and broken
off, there is a part of its file, or an archive that is unfinished, and so is an archive that does
not take its end (`Stopped`), which may also befall one that has all classes.  Nothing is reported
where the target cannot be opened.  What the log adds to its file is left aside. -/
theorem perform_export_of_failure (hidle : p.isBusy = false) (hkind : kind ≠ .decompileArchive)
    (hslash : .char '/' ∉ p.workspace.extension.glyphs)
    (hext : .char '\x00' ∉ p.workspace.extension.glyphs)
    (htame : p.workspace.IsTame)
    (hnames : ∀ name ∈ p.workspace.store.names, Text.hasNull name = false) :
    ∃ q sent, p.perform kind target = .ok (q, sent) ∧
      q.workspace = p.workspace.withWorld q.workspace.world ∧
      (∀ kind target, ∃ r, q.start kind target = .ok r) ∧
      ∀ reason, .finished (.failure reason) ∈ sent →
        let s := p.workspace
        let writer := s.writerFor kind target
        let units := s.store.units
        (sent = [.finished (.failure reason)] ∧
          (∃ e, (writer.openTarget (s.world.note (exportingRecord units.length target)).files).2 =
            .error e ∧ reason = e.message) ∧
          (kind = .exportDirectory → writer.HoldsFiles s.world.logPlace s.world.files
            q.workspace.world.files [] [])) ∨
        (∃ done u behind f, units = done.map Prod.fst ++ u :: behind ∧
          (∀ c ∈ done, s.Finds kind target c.1 c.2) ∧ s.StopsAt kind target u f ∧
          sent = savedMessages done.length units.length ++ [.finished (.failure reason)] ∧
          Stopped s kind target (savedOf done) u f q.workspace.world.files reason) ∨
        ∃ done obstacle, units = done.map Prod.fst ∧ (∀ c ∈ done, s.Finds kind target c.1 c.2) ∧
          reason = Obstacle.message obstacle ∧
          sent = savedMessages units.length units.length ++ [.finished (.failure reason)] ∧
          kind = .exportArchive ∧ ¬ writer.CanClose kind s.world.files.device (savedOf done) ∧
          writer.IsUnfinished s.world.logPlace s.world.files.device q.workspace.world.files := by
  obtain ⟨q, sent, hperform, hworkspace, haccepts, hend⟩ :=
    perform_export hidle hkind hslash hext htame
      fun _ u hu _ _ => hnames u.name (Store.name_mem_names hu)
  refine ⟨q, sent, hperform, hworkspace, haccepts, ?_⟩
  intro reason hreason
  cases hend with
  | @unopened e hopen hfiles =>
    obtain rfl := Outcome.failure.inj ((isReport_singleton _).eq_of_mem hreason)
    exact .inl ⟨rfl, ⟨e, hopen, rfl⟩, hfiles⟩
  | @stopped done w x u behind f reason' hunderway hleft hcannot hstopped =>
    obtain rfl := Outcome.failure.inj ((isReport_savedMessages _ _ _).eq_of_mem hreason)
    exact .inr (.inl ⟨done, u, behind, f, hleft ▸ hunderway.units, hunderway.found,
      ⟨w, x, behind, _, hunderway.leads, hleft, hcannot⟩, rfl, hstopped⟩)
  | @unclosed done w x obstacle hunderway hleft hkind hcloses hunfinished =>
    obtain rfl := Outcome.failure.inj ((isReport_savedMessages _ _ _).eq_of_mem hreason)
    have hunits := hunderway.units
    rw [hleft, List.append_nil] at hunits
    exact .inr (.inr ⟨done, obstacle, hunits, hunderway.found, rfl, rfl, hkind, hcloses,
      hunfinished⟩)
  | completed => exact nomatch (isReport_savedMessages _ _ _).eq_of_mem hreason

/-- An export fails if its first class cannot be written; then its target is closed. -/
theorem perform_export_of_first {u : ClassUnit} {behind : List ClassUnit} {text : String}
    {files files' : Files} {w writer : Export.Writer} {e : Export.ExportError}
    (hidle : p.isBusy = false) (hkind : kind ≠ .decompileArchive)
    (hunits : p.workspace.store.units = u :: behind) (htext : u.text = some text)
    (hopen : (p.workspace.writerFor kind target).openTarget
      (p.workspace.exporting target).world.files = (files, .ok w))
    (hwrite : w.write files u.name text = (files', writer, .error e))
    (hclose : (writer.close files').2.2 = none) :
    ∃ q, p.perform kind target = .ok (q, [.finished (.failure e.message)]) ∧
      q.workspace.world =
        ((p.workspace.exporting target).withFiles (writer.close files').1).world.note
          ⟨.error, .tasks, s!"Task {kind.name} failed: {e.message}"⟩ := by
  let s := p.workspace
  let t : Workspace := (s.exporting target).withFiles files
  let x : Exporting := ⟨w, 0, s.store.units.length, s.store.units, ⟨w.target, [], []⟩⟩
  have hbegin : s.Moves kind target .ready (t.silently (.exporting x)) := .opened hkind hopen
  have hfails : t.Moves kind target (.exporting x) _ := .unwritten (.own hunits htext) hwrite
  have hnone : (t.withFiles files').closeFailure? writer = none := by
    rw [Workspace.closeFailure?]
    exact Option.map_eq_none_iff.2 hclose
  have hcompletes := (LeadsTo.silently hbegin.eq_advance.symm
    (LeadsTo.of_advance hfails.eq_advance.symm)).completes (completes_reported _)
  rw [Workspace.failExport, hnone] at hcompletes
  obtain ⟨q, hperform, hworkspace, -⟩ :=
    @perform_eq kind target _ _ _ p hidle hcompletes (isReport_singleton _)
  refine ⟨q, hperform, ?_⟩
  rw [hworkspace]
  rfl

/-! ## A failure -/

namespace Sample

/-- An engine that throws when it is asked for one of the classes. -/
def throwing : Engine :=
  ⟨0, .script ⟨"e", [], [], [("p/B", ⟨[.throw (.other "Exception" "x")], none⟩)]⟩⟩

/-- Two classes with texts, and one between them for which the engine is asked. -/
def threeClasses : Workspace :=
  ⟨.start .empty {}, ((Store.empty.put "p/A" (some "a")).put "p/B" none).put "p/C" (some "c"),
    some throwing, none, "/", ".java"⟩

def archive : Path := ⟨.relative, ["o.zip"]⟩

theorem isTame_threeClasses : threeClasses.IsTame := by
  rintro _ ⟨rfl⟩ u - - w t
  show _ ∉ (throwing.render w u.name).2.1
  unfold Engine.render
  simp only [throwing, Assoc.get?]
  by_cases hname : "p/B" = u.name
  · simp [if_pos hname]
  · simp [if_neg hname]

theorem hasNull_names (name : String) (h : name ∈ threeClasses.store.names) :
    Text.hasNull name = false := by
  have hkeys : ∀ name ∈ threeClasses.store.entries.keys, Text.hasNull name = false := by
    decide +kernel
  exact hkeys name (Store.mem_names_iff.1 h)

/-- The export fails, because no text is found for the class that the engine throws for. -/
theorem fails : ∃ q sent reason,
    perform ⟨threeClasses, []⟩ .exportArchive archive = .ok (q, sent) ∧
      .finished (.failure reason) ∈ sent := by
  obtain ⟨q, sent, hperform, -, -, hend⟩ := @perform_export .exportArchive archive
    ⟨threeClasses, []⟩ rfl (by decide) (by decide) (by decide) isTame_threeClasses
    fun _ u hu _ _ => hasNull_names _ (Store.name_mem_names hu)
  refine ⟨q, sent, ?_⟩
  cases hend with
  | unopened => exact ⟨_, hperform, List.mem_singleton.2 rfl⟩
  | stopped => exact ⟨_, hperform, List.mem_append_right _ (List.mem_singleton.2 rfl)⟩
  | unclosed => exact ⟨_, hperform, List.mem_append_right _ (List.mem_singleton.2 rfl)⟩
  | completed hunderway hleft =>
    have hunits := hunderway.units
    rw [hleft, List.append_nil] at hunits
    have hmem : (⟨"p/B", none⟩ : ClassUnit) ∈ threeClasses.store.units :=
      Store.mem_units_iff.2 (by decide +kernel)
    obtain ⟨c, hc, hunit⟩ := List.mem_map.1 (hunits ▸ hmem)
    obtain ⟨w', x', left, _, -, -, hask⟩ := hunderway.found c hc
    rw [hunit] at hask
    exact nomatch hask

theorem opens : ((threeClasses.writerFor .exportArchive archive).openTarget
    (threeClasses.world.note (exportingRecord threeClasses.store.units.length
      archive)).files).2.toOption.isSome := by
  decide +kernel

end Sample

theorem perform_export_of_failure_sample :
    ∃ q reason done u f, perform ⟨Sample.threeClasses, []⟩ .exportArchive Sample.archive =
        .ok (q, savedMessages done.length 3 ++ [.finished (.failure reason)]) ∧
      Stopped Sample.threeClasses .exportArchive Sample.archive (savedOf done) u f
        q.workspace.world.files reason := by
  obtain ⟨q, sent, hperform, -, -, hfailure⟩ := @perform_export_of_failure .exportArchive
    Sample.archive ⟨Sample.threeClasses, []⟩ rfl (by decide) (by decide) (by decide)
    Sample.isTame_threeClasses Sample.hasNull_names
  obtain ⟨q', sent', reason, hperform', hreason⟩ := Sample.fails
  obtain ⟨rfl, rfl⟩ := Prod.mk.inj (Except.ok.inj (hperform.symm.trans hperform'))
  have hlength : Sample.threeClasses.store.units.length = 3 :=
    Sample.threeClasses.store.length_units
  rcases hfailure reason hreason with ⟨-, ⟨e, hopen, -⟩, -⟩ | ⟨done, u, behind, f, -, -, -, rfl,
    hstopped⟩ | ⟨done, obstacle, -, -, -, -, -, hcloses, -⟩
  · have hopens := Sample.opens
    rw [hopen] at hopens
    exact nomatch hopens
  · rw [hlength] at hperform
    exact ⟨q, reason, done, u, f, hperform, hstopped⟩
  · exact absurd (fun _ _ _ => rfl) hcloses

/-! ## Targets that are not clean -/

namespace Sample

/-- A device that is full when one byte was written. -/
def full : Device :=
  { Device.roomy with
    fileFault? := fun _ _ => some (.noSpace, 1)
    entryFault? := fun _ _ => some .noSpace }

/-- A class with a text, and no engine, on some files and with a log or without. -/
def single (files : Files) (logFile : Option Path) (name : String) : Workspace :=
  ⟨⟨files, {}, [], logFile, [], 0⟩, Store.empty.put name (some "abc"), none, none, "/", ".java"⟩

theorem units_single (files : Files) (logFile : Option Path) (name : String) :
    (single files logFile name).store.units = [⟨name, some "abc"⟩] :=
  List.mergeSort_singleton _

def folder : Path := ⟨.relative, ["out"]⟩

def classFile : Path := ⟨.relative, ["out", "A.java"]⟩

/-- A log in the directory that is the target. -/
def logFile : Path := ⟨.relative, ["out", "run.log"]⟩

def withDirectory : Files := Files.empty.set folder.place .directory

end Sample

/-- Exports that fail and leave more than the classes before the one where they do: the first bytes
of a file, a file that is no archive, and what a log in the target was given. -/
theorem exists_target_not_clean :
    (∃ q reason, perform ⟨Sample.single ⟨Files.empty.nodes, Sample.full⟩ none "A", []⟩
        .exportDirectory Sample.folder = .ok (q, [.finished (.failure reason)]) ∧
      (q.workspace.world.files.read Sample.classFile).toOption = some "a".toUTF8) ∧
    (∃ q reason, perform ⟨Sample.single ⟨Files.empty.nodes, Sample.full⟩ none "A", []⟩
        .exportArchive Sample.archive = .ok (q, [.finished (.failure reason)]) ∧
      (q.workspace.world.files.isFile Sample.archive).toOption = some true ∧
      (q.workspace.world.files.isZip Sample.archive).toOption = some false) ∧
    ∃ q reason, perform ⟨Sample.single Sample.withDirectory (some Sample.logFile) "..", []⟩
        .exportDirectory Sample.folder = .ok (q, [.finished (.failure reason)]) ∧
      (Sample.withDirectory.isFile Sample.logFile).toOption = some false ∧
      (q.workspace.world.files.isFile Sample.logFile).toOption = some true := by
  refine ⟨?_, ?_, ?_⟩
  · obtain ⟨q, hperform, hworld⟩ := @perform_export_of_first .exportDirectory Sample.folder
      ⟨Sample.single ⟨Files.empty.nodes, Sample.full⟩ none "A", []⟩ _ _ _ _ _ _ _
      (.unfinished Sample.classFile .noSpace) rfl nofun (Sample.units_single _ _ _) rfl rfl
      (Prod.ext rfl (Prod.ext rfl (by decide +kernel))) (by decide +kernel)
    refine ⟨q, _, hperform, ?_⟩
    rw [hworld]
    decide +kernel
  · obtain ⟨q, hperform, hworld⟩ := @perform_export_of_first .exportArchive Sample.archive
      ⟨Sample.single ⟨Files.empty.nodes, Sample.full⟩ none "A", []⟩ _ _ _ _ _ _ _
      (.unfinished ⟨.relative, ["A.java"]⟩ .noSpace) rfl nofun (Sample.units_single _ _ _) rfl rfl
      (Prod.ext rfl (Prod.ext rfl (by decide +kernel))) (by decide +kernel)
    refine ⟨q, _, hperform, ?_⟩
    rw [hworld]
    decide +kernel
  · obtain ⟨q, hperform, hworld⟩ := @perform_export_of_first .exportDirectory Sample.folder
      ⟨Sample.single Sample.withDirectory (some Sample.logFile) "..", []⟩ _ _ _ _ _ _ _
      (.entry (.invalidName "..")) rfl nofun (Sample.units_single _ _ _) rfl rfl
      (Prod.ext rfl (Prod.ext rfl (by decide +kernel))) (by decide +kernel)
    refine ⟨q, _, hperform, ?_⟩
    rw [hworld]
    decide +kernel

end Pipeline

end ClassBrowser
