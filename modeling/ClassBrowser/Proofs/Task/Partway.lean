import ClassBrowser.Proofs.Task.ExportRun

/-!
# Stages of an export

Wherever the worker of an export stands, the classes of the snapshot are those that it has handled
and those that it has not (`ExportStage`).  What it counts, reports and sums up are the former, and
it has written those of them for which there was a text (`Partway`).  Each step keeps this and
either goes on or ends (`ExportStage.advance`): with all classes handled and the target closed, or
with the reason why not (`Hindered`).

Nothing is asked here of the engine, which may give different texts at different times and throw
whatever it likes, nor of the names of the classes.
-/

namespace ClassBrowser

open Export (Writer)

/-- Why an export cannot handle all classes: its target cannot be opened, the engine throws
something, a text cannot be written, or the target cannot be closed. -/
inductive Hindered (s : Workspace) (kind : TaskKind) (target : Path) : Prop
  | unopened {fs : Files} {e : Export.ExportError} (hlogs : s.world.files.Logs s.world.logPlace fs)
    (hopen : ((s.writerFor kind target).openTarget fs).2 = .error e)
  | thrown {u : ClassUnit} {e : Engine} {w : World} {t : Thrown} (hunit : u ∈ s.store.units)
    (htext : u.text = none) (hengine : s.engine = some e)
    (hthrow : .throw t ∈ (e.render w u.name).2.1 ∨ .abort t ∈ (e.render w u.name).2.1)
  | unwritten {done : List (ClassUnit × Option String)} {u : ClassUnit} {behind : List ClassUnit}
    {x : Exporting} {w : World} {text : String} {e : Export.ExportError}
    (hpartway : Partway s kind target done x w)
    (hunits : s.store.units = done.map Prod.fst ++ u :: behind) (hgives : s.Gives u (some text))
    (hwrite : (x.writer.write w.files u.name text).2.2 = .error e)
  | unclosed {done : List (ClassUnit × Option String)} {x : Exporting} {w : World}
    {e : Export.ExportError} (hpartway : Partway s kind target done x w)
    (hunits : s.store.units = done.map Prod.fst) (hclose : (x.writer.close w.files).2.2 = some e)

/-- What an export that has started on a workspace has come to: the surroundings, the stage of its
worker, and all that was sent. -/
inductive ExportStage (s : Workspace) (kind : TaskKind) (target : Path) :
    World → Stage → List Message → Prop
  | ready : ExportStage s kind target s.world .ready []
  | exporting {done : List (ClassUnit × Option String)} {x : Exporting} {w : World}
    (hpartway : Partway s kind target done x w)
    (hunits : s.store.units = done.map Prod.fst ++ x.left) :
    ExportStage s kind target w (.exporting x) (savedMessages done.length s.store.units.length)
  | rendering {done : List (ClassUnit × Option String)} {x : Exporting} {w asked : World}
    {u : ClassUnit} {e : Engine} {acts : List Act} (hpartway : Partway s kind target done x w)
    (hunits : s.store.units = done.map Prod.fst ++ u :: x.left) (htext : u.text = none)
    (hengine : s.engine = some e) (hacts : acts ⊆ (e.render asked u.name).2.1) :
    ExportStage s kind target w (.rendering x u.name acts (e.render asked u.name).2.2)
      (savedMessages done.length s.store.units.length)
  | succeeded {done : List (ClassUnit × Option String)} {x : Exporting} {w : World} {stage : Stage}
    (hpartway : Partway s kind target done x w) (hunits : s.store.units = done.map Prod.fst)
    (hclose : (x.writer.close w.files).2.2 = none) (hover : stage.isOver = true) :
    ExportStage s kind target { w with files := (x.writer.close w.files).1 } stage
      (savedMessages s.store.units.length s.store.units.length ++
        [.finished (.success (some (.exported x.summary)))])
  | stopped {done : List (ClassUnit × Option String)} {behind : List ClassUnit} {w : World}
    {stage : Stage} {outcome : List Message}
    (hunits : s.store.units = done.map Prod.fst ++ behind) (hgives : ∀ c ∈ done, s.Gives c.1 c.2)
    (hhindered : Hindered s kind target) (hlogFile : w.logFile = s.world.logFile)
    (hover : stage.isOver = true)
    (houtcome : outcome = [] ∨ ∃ reason, outcome = [.finished (.failure reason)]) :
    ExportStage s kind target w stage
      (savedMessages done.length s.store.units.length ++ outcome)

variable {s : Workspace} {kind : TaskKind} {target : Path} {w : World} {stage : Stage}
  {done : List (ClassUnit × Option String)} {x : Exporting} {u : ClassUnit} {left : List ClassUnit}
  {sent : List Message}

/-- What a step comes to: nothing changes of the workspace but the surroundings, and the export is
at a stage again. -/
def Advance.ComesTo (a : Advance) (s : Workspace) (kind : TaskKind) (target : Path)
    (sent : List Message) : Prop :=
  ∃ w, a.workspace = s.withWorld w ∧ ExportStage s kind target w a.stage (sent ++ a.sent)

theorem comesTo_silently (h : ExportStage s kind target w stage sent) :
    ((s.withWorld w).silently stage).ComesTo s kind target sent :=
  ⟨w, rfl, by rwa [Workspace.silently, List.append_nil]⟩

/-- An export that cannot go on closes its target and ends. -/
theorem comesTo_failExport (hunits : s.store.units = done.map Prod.fst ++ left)
    (hgives : ∀ c ∈ done, s.Gives c.1 c.2) (hhindered : Hindered s kind target)
    (hlogFile : w.logFile = s.world.logFile) (writer : Writer) (f : TaskFailure) :
    ((s.withWorld w).failExport kind writer f).ComesTo s kind target
      (savedMessages done.length s.store.units.length) :=
  ⟨_, rfl, .stopped hunits hgives hhindered hlogFile rfl (.inr ⟨_, rfl⟩)⟩

namespace Partway

/-- With the text of a class, or without one, the export goes on, or it ends. -/
theorem comesTo_exportUnit (h : Partway s kind target done x w)
    (hunits : s.store.units = done.map Prod.fst ++ u :: x.left) {text : Option String}
    (hgives : s.Gives u text) :
    ((s.withWorld w).exportUnit kind x u.name text).ComesTo s kind target
      (savedMessages done.length s.store.units.length) := by
  rcases h.exportUnit hgives with
    ⟨w', writer, summary, hstep, hnext, -⟩ | ⟨own, files, writer, e, rfl, hwrite, hstep⟩
  · have hstage := ExportStage.exporting hnext (by rw [hunits]; simp)
    rw [List.length_append, List.length_singleton, savedMessages_succ, ← h.handled,
      ← h.total] at hstage
    rw [hstep, ← h.handled, ← h.total]
    exact ⟨w', rfl, hstage⟩
  · rw [hstep]
    exact comesTo_failExport (w := { w with files }) hunits h.gives
      (.unwritten h hunits hgives (by rw [hwrite])) h.logFile writer _

/-- When all classes are handled, the target is closed, or that fails. -/
theorem comesTo_endExport (h : Partway s kind target done x w)
    (hunits : s.store.units = done.map Prod.fst) :
    ((s.withWorld w).endExport kind x.writer (·.succeed (.exported x.summary))).ComesTo s kind
      target (savedMessages done.length s.store.units.length) := by
  have hlength : done.length = s.store.units.length := by rw [hunits, List.length_map]
  rcases (s.withWorld w).endExport_cases kind x.writer (·.succeed (.exported x.summary)) with
    ⟨hclose, hend⟩ | ⟨f, hclose, hend⟩
  · rw [hend, hlength]
    exact ⟨_, rfl, .succeeded h hunits (Option.map_eq_none_iff.1 hclose) rfl⟩
  · obtain ⟨e, he, -⟩ := Option.map_eq_some_iff.1 hclose
    have hnone : s.store.units = done.map Prod.fst ++ [] := by rw [hunits, List.append_nil]
    rw [hend]
    exact ⟨_, rfl, .stopped hnone h.gives (.unclosed h hunits he) h.logFile rfl (.inr ⟨_, rfl⟩)⟩

/-- When the engine has cost the worker, the target is closed, or that is the failure. -/
theorem comesTo_lost (h : Partway s kind target done x w)
    (hunits : s.store.units = done.map Prod.fst ++ left) (hhindered : Hindered s kind target) :
    ((s.withWorld w).endExport kind x.writer (·.silently .finished)).ComesTo s kind target
      (savedMessages done.length s.store.units.length) := by
  rcases (s.withWorld w).endExport_cases kind x.writer (·.silently .finished) with
    ⟨-, hend⟩ | ⟨f, -, hend⟩
  · rw [hend]
    exact ⟨_, rfl, .stopped hunits h.gives hhindered h.logFile rfl (.inl rfl)⟩
  · rw [hend]
    exact ⟨_, rfl, .stopped hunits h.gives hhindered h.logFile rfl (.inr ⟨_, rfl⟩)⟩

end Partway

namespace ExportStage

/-- An export begins with nothing handled, or with a target that cannot be opened. -/
theorem beginExport (s : Workspace) (kind : TaskKind) (target : Path) :
    (s.beginExport kind (s.writerFor kind target)).ComesTo s kind target [] := by
  have hlogs : s.world.Logs (s.exporting target).world := s.world.logs_note _
  have hunits : s.store.units =
    ([] : List (ClassUnit × Option String)).map Prod.fst ++ s.store.units := rfl
  rw [s.beginExport_eq, s.target_writerFor]
  split
  · next files e hopen =>
    exact ⟨_, rfl, .stopped hunits nofun (.unopened hlogs.files (by rw [hopen])) rfl rfl
      (.inr ⟨_, rfl⟩)⟩
  · next files writer hopen => exact ⟨_, rfl, .exporting (Partway.opened hopen) hunits⟩

/-- Each step of an export keeps what is said of its stages. -/
theorem advance (hkind : kind ≠ .decompileArchive) (h : ExportStage s kind target w stage sent) :
    ((s.withWorld w).advance kind target stage).ComesTo s kind target sent := by
  cases h with
  | ready =>
    rw [show (s.withWorld s.world) = s from rfl, Workspace.advance_ready_of_export hkind]
    exact beginExport s kind target
  | @exporting done x w hpartway hunits =>
    show ((s.withWorld w).advanceExporting kind x).ComesTo s kind target _
    unfold Workspace.advanceExporting
    split
    · next hleft =>
      rw [hleft, List.append_nil] at hunits
      exact hpartway.comesTo_endExport hunits
    · next u left hleft =>
      rw [hleft] at hunits
      have hpartway : Partway s kind target done { x with left } w := { hpartway with }
      dsimp only
      split
      · next e htext hengine =>
        exact comesTo_silently (.rendering (hpartway.logged (e.logs_render w u.name)) hunits htext
          hengine fun _ => id)
      · next hasks =>
        refine hpartway.comesTo_exportUnit hunits ?_
        unfold Workspace.Gives
        split
        · next e htext hengine => exact absurd hengine (hasks e htext)
        · rfl
  | @rendering done x w asked u e acts hpartway hunits htext hengine hacts =>
    show ((s.withWorld w).advanceRendering kind x u.name _ acts).ComesTo s kind target _
    unfold Workspace.advanceRendering
    have hunit : u ∈ s.store.units := by
      rw [hunits]
      simp
    have hgives : s.Gives u (e.render asked u.name).2.2 := by
      unfold Workspace.Gives
      rw [htext, hengine]
      exact ⟨asked, rfl⟩
    split
    · exact hpartway.comesTo_exportUnit hunits hgives
    · next t rest =>
      exact comesTo_failExport hunits hpartway.gives
        (.thrown hunit htext hengine (.inl (hacts List.mem_cons_self))) hpartway.logFile x.writer _
    · next t rest =>
      exact hpartway.comesTo_lost hunits
        (.thrown hunit htext hengine (.inr (hacts List.mem_cons_self)))
    · next record rest =>
      exact comesTo_silently (.rendering (hpartway.logged (w.logs_note record)) hunits htext hengine
        (List.subset_of_cons_subset hacts))
    · next act rest _ _ _ =>
      exact comesTo_silently (.rendering hpartway hunits htext hengine
        (List.subset_of_cons_subset hacts))
  | succeeded hpartway hunits hclose hover =>
    rw [Workspace.advance_of_isOver hover]
    exact comesTo_silently (.succeeded hpartway hunits hclose rfl)
  | stopped hunits hgives hhindered hlogFile hover houtcome =>
    rw [Workspace.advance_of_isOver hover]
    exact comesTo_silently (.stopped hunits hgives hhindered hlogFile rfl houtcome)

/-! ## What an export reports -/

theorem total_of_mem_savedMessages {handled total : Nat} {report : Progress}
    (h : .progress report ∈ savedMessages handled total) : report.total = some (total : Int) := by
  obtain ⟨i, -, hi⟩ := List.mem_map.1 h
  obtain rfl := Message.progress.inj hi
  rfl

/-- The total in each report is the number of classes in the snapshot. -/
theorem total_of_mem (h : ExportStage s kind target w stage sent) {report : Progress}
    (hreport : .progress report ∈ sent) : report.total = some (s.store.size : Int) := by
  rw [← s.store.length_units]
  cases h with
  | ready => cases hreport
  | exporting => exact total_of_mem_savedMessages hreport
  | rendering => exact total_of_mem_savedMessages hreport
  | succeeded =>
    rcases List.mem_append.1 hreport with hsaved | hlast
    · exact total_of_mem_savedMessages hsaved
    · cases List.mem_singleton.1 hlast
  | stopped _ _ _ _ _ houtcome =>
    rcases List.mem_append.1 hreport with hsaved | hlast
    · exact total_of_mem_savedMessages hsaved
    · rcases houtcome with rfl | ⟨reason, rfl⟩
      · cases hlast
      · cases List.mem_singleton.1 hlast

theorem not_finished_mem_savedMessages {handled total : Nat} {o : Outcome} :
    .finished o ∉ savedMessages handled total := by
  intro h
  obtain ⟨i, -, hi⟩ := List.mem_map.1 h
  cases hi

/-- An export that reports success has handled all classes. -/
theorem of_success_mem (h : ExportStage s kind target w stage sent) {summary : Summary}
    (hsuccess : .finished (.success (some (.exported summary))) ∈ sent) :
    ∃ done x w', Partway s kind target done x w' ∧ s.store.units = done.map Prod.fst ∧
      summary = ⟨target, (savedOf done).map Prod.fst, skippedOf done⟩ ∧
      (x.writer.close w'.files).2.2 = none ∧ w = { w' with files := (x.writer.close w'.files).1 } ∧
      sent = savedMessages s.store.units.length s.store.units.length ++
        [.finished (.success (some (.exported summary)))] := by
  cases h with
  | ready => cases hsuccess
  | exporting => exact absurd hsuccess not_finished_mem_savedMessages
  | rendering => exact absurd hsuccess not_finished_mem_savedMessages
  | @succeeded done x w _ hpartway hunits hclose =>
    rcases List.mem_append.1 hsuccess with hsaved | hlast
    · exact absurd hsaved not_finished_mem_savedMessages
    · cases List.mem_singleton.1 hlast
      exact ⟨done, x, w, hpartway, hunits, hpartway.summary, hclose, rfl, rfl⟩
  | stopped _ _ _ _ _ houtcome =>
    rcases List.mem_append.1 hsuccess with hsaved | hlast
    · exact absurd hsaved not_finished_mem_savedMessages
    · rcases houtcome with rfl | ⟨reason, rfl⟩
      · cases hlast
      · cases List.mem_singleton.1 hlast

end ExportStage

/-- Whether an export has filled its target with the classes of a snapshot: each one was written or
skipped, those that have a text were written with that, and the files are those that the closed
target leaves. -/
structure Workspace.HasExported (s : Workspace) (kind : TaskKind) (target : Path)
    (summary : Summary) (after : Files) : Prop where
  written : ∃ saved w fs,
    (s.writerFor kind target).HasWritten s.world.logPlace s.world.files saved w fs ∧
      (w.close fs).2.2 = none ∧ after = (w.close fs).1 ∧
      summary.written = saved.map Prod.fst ∧
      ∀ u ∈ s.store.units, ∀ text, u.text = some text → (u.name, text) ∈ saved
  all : (summary.written ++ summary.skipped).Perm s.store.names
  target : summary.target = target

theorem ExportStage.hasExported (h : ExportStage s kind target w stage sent) {summary : Summary}
    (hsuccess : .finished (.success (some (.exported summary))) ∈ sent) :
    s.HasExported kind target summary w.files := by
  obtain ⟨done, x, w', hpartway, hunits, rfl, hclose, rfl, -⟩ := h.of_success_mem hsuccess
  refine ⟨⟨savedOf done, x.writer, w'.files, hpartway.written, hclose, rfl, rfl, ?_⟩, ?_, rfl⟩
  · intro u hu own hown
    rw [hunits] at hu
    obtain ⟨c, hc, rfl⟩ := List.mem_map.1 hu
    exact mem_savedOf hc ((hpartway.gives c hc).eq_own hown)
  · rw [← Store.map_name_units, hunits, List.map_map]
    exact perm_savedOf_skippedOf done

end ClassBrowser
