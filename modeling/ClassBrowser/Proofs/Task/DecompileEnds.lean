import ClassBrowser.Proofs.Engine.Footprint
import ClassBrowser.Proofs.Task.Outcomes

/-!
# Ends of decompile tasks

A decompile task ends with the classes that are in the store then, or it fails and leaves no trace
but records of the log: what its engine has made was removed when that was closed
(`TaskEnds.decompiled`).  The invariant behind it says of every stage that the files are in order
where the engine was not run, and outside its directory in any case (`Workspace.Decompiles`).
-/

namespace ClassBrowser

/-- Whether the files are as before, but for records of the log and how often programs were run.
The directory for what the decompiler makes is meant to be a new one: of what stood there, if
anything did, nothing is said. -/
structure World.Untouched (w w' : World) : Prop where
  logFile : w'.logFile = w.logFile
  files : ∀ place : Place, (place.IsTemporary → w.files.node? place = none) →
    Files.Kept w.logPlace place (w.files.node? place) (w'.files.node? place)

/-- Whether the engine of a stage has run the decompiler. -/
def Stage.isRunning : Stage → Bool
  | .adding e _ | .decompiling e _ _ _ => e.isRunning
  | _ => false

@[simp] theorem Stage.isRunning_withActs (stage : Stage) (acts : List Act) :
    (stage.withActs acts).isRunning = stage.isRunning := by
  cases stage <;> rfl

theorem Stage.isRunning_of_engine? {stage : Stage} {e : Engine} (h : stage.engine? = some e) :
    stage.isRunning = e.isRunning := by
  cases stage with
  | adding => exact congrArg Engine.isRunning (Option.some.inj h)
  | decompiling => exact congrArg Engine.isRunning (Option.some.inj h)
  | _ => cases h

/-- What holds in the course of a decompile task that has begun on a workspace without an engine,
with the files of `start`. -/
structure Workspace.Decompiles (s : Workspace) (start : World) (stage : Stage) : Prop where
  keeps : start.Keeps s.world
  temporary : stage.isRunning = false → ∀ place : Place, place.IsTemporary →
    Files.Logged start.logPlace place (start.files.node? place) (s.world.files.node? place)
  engine : stage = .ready → s.engine = none
  fits : stage = .ready ∨ stage.isDecompiling = true

variable {w w₁ w₂ start : World} {e : Engine} {s s' u : Workspace} {stage : Stage} {target : Path}
  {o : Outcome}

namespace World

theorem Untouched.logs (h : w.Untouched w₁) (hlogs : w₁.Logs w₂) : w.Untouched w₂ := by
  have hlog : w₁.logPlace = w.logPlace := by
    rw [logPlace, logPlace, h.logFile]
  refine ⟨hlogs.logFile.trans h.logFile, fun place hplace => (h.files place hplace).trans ?_⟩
  exact .logged (hlog ▸ hlogs.files.node place)

end World

namespace Workspace

theorem Decompiles.logs (h : s.Decompiles start stage) (hlogs : s.world.Logs u.world)
    {next : Stage} (hrunning : next.isRunning = stage.isRunning)
    (hnext : next.isDecompiling = true) : u.Decompiles start next := by
  have hlog : s.world.logPlace = start.logPlace := by
    rw [World.logPlace, World.logPlace, h.keeps.logFile]
  refine ⟨h.keeps.trans (.of_logs hlogs), ?_, ?_, .inr hnext⟩
  · intro hidle place hplace
    exact (h.temporary (hrunning ▸ hidle) place hplace).trans (hlog ▸ hlogs.files.node place)
  · rintro rfl
    cases hnext

/-- Closing the engine of a stage puts the files in order. -/
theorem Decompiles.untouched_close (h : s.Decompiles start stage)
    (hrunning : stage.isRunning = e.isRunning) : start.Untouched (e.close s.world).1 := by
  have hclosed := h.keeps.trans (e.keeps_close s.world)
  refine ⟨hclosed.logFile, fun place hfree => ?_⟩
  by_cases hplace : place.IsTemporary
  · cases he : e.isRunning with
    | true =>
      rw [hfree hplace, Engine.node?_close_of_running he s.world hplace]
      exact .logged (.same _)
    | false =>
      rw [Engine.files_close_of_not_running he s.world]
      exact .logged (h.temporary (hrunning.trans he) place hplace)
  · exact hclosed.files place hplace

theorem Decompiles.untouched_failEngine (h : s.Decompiles start stage)
    (hrunning : stage.isRunning = e.isRunning) (t : Thrown) :
    start.Untouched (s.failEngine e t).workspace.world :=
  (h.untouched_close hrunning).logs (World.logs_note _ _)

theorem Decompiles.logs_cleared (h : s.Decompiles start .ready) (archive : Path) :
    s.world.Logs (s.cleared archive).world := by
  rw [cleared_eq, h.engine rfl]
  exact World.logs_note _ _

/-- An act of which nothing comes but a record of the log. -/
theorem Decompiles.withActs (h : s.Decompiles start stage) {act : Act} {rest : List Act}
    (hacts : stage.acts = act :: rest) (hlogs : s.world.Logs u.world) :
    u.Decompiles start (stage.withActs rest) := by
  refine h.logs hlogs (stage.isRunning_withActs rest) ?_
  rw [stage.isDecompiling_withActs]
  exact h.fits.resolve_left (Stage.ne_ready_of_acts hacts)

/-- A decompile task exports nothing. -/
theorem Decompiles.not_supplies (h : s.Decompiles start stage) {x : Exporting} {name : String}
    {text : Option String} : ¬ s.Supplies stage x name text := by
  intro hsupplies
  have hdecompiling := h.fits.resolve_left hsupplies.ne_ready
  cases hsupplies.isDecompiling.symm.trans hdecompiling

theorem Decompiles.untouched (h : s.Decompiles start stage) (hrunning : stage.isRunning = false) :
    start.Untouched s.world := by
  refine ⟨h.keeps.logFile, fun place _ => ?_⟩
  by_cases hplace : place.IsTemporary
  · exact .logged (h.temporary hrunning place hplace)
  · exact h.keeps.files place hplace

/-- What holds in the course of a decompile task is kept by its moves, up to the last one. -/
theorem Moves.decompiles {a : Advance} (hmove : s.Moves .decompileArchive target stage a)
    (h : s.Decompiles start stage) (hover : a.stage.isOver = false) :
    a.workspace.Decompiles start a.stage := by
  cases hmove with
  | made _ _ hmake =>
    obtain ⟨hlogs, hidle⟩ := Factory.make_keeps hmake
    obtain ⟨hadd, hrunning⟩ := Engine.addSource_keeps _ _ target
    have hbegun := (h.logs_cleared target).trans (hlogs.trans hadd)
    exact h.logs hbegun (hrunning.trans (hidle _ rfl)) rfl
  | added =>
    refine ⟨h.keeps.trans (Engine.keeps_decompile _ _), ?_, nofun, .inr rfl⟩
    intro hidle place hplace
    obtain ⟨hsame, hbefore⟩ := Engine.decompile_of_not_running hidle
    show Files.Logged _ place _ ((Engine.decompile _ s.world).1.files.node? place)
    rw [hsame]
    exact h.temporary hbefore place hplace
  | @unit _ name text =>
    have hlogs : s.world.Logs { s with store := s.store.put name text }.world := .refl _
    exact h.logs hlogs rfl rfl
  | total => exact h.logs (.refl _) rfl rfl
  | noted hacts => exact h.withActs hacts (World.logs_note _ _)
  | passed hacts => exact h.withActs hacts (.refl _)
  | unconfigured | unmade | decompiled | threw | lost | ended => cases hover
  | unopened hkind | opened hkind => exact absurd rfl hkind
  | asked | refused | deserted | rescued | exported | unclosed =>
    rcases h.fits with hfits | hfits <;> cases hfits
  | skipped hsupplies | written hsupplies | unwritten hsupplies =>
    exact absurd hsupplies h.not_supplies

/-- The last move of a decompile task. -/
theorem Moves.decompiled_last {a : Advance} (hmove : s.Moves .decompileArchive target stage a)
    (h : s.Decompiles start stage) (hsent : a.sent = [.finished o]) :
    (∃ reason, o = .failure reason ∧ start.Untouched a.workspace.world) ∨
      ∃ tree, o = .success (some (.decompiled target tree a.workspace.store.size)) ∧
        start.Keeps a.workspace.world := by
  cases hmove with
  | unconfigured =>
    cases hsent
    exact .inl ⟨_, rfl, (h.untouched rfl).logs (World.logs_note _ _)⟩
  | unmade _ _ hmake =>
    cases hsent
    have hcleared := (h.untouched rfl).logs (h.logs_cleared target)
    have hmade := hcleared.logs (Factory.make_keeps hmake).1
    exact .inl ⟨_, rfl, hmade.logs (World.logs_note _ _)⟩
  | threw hengine =>
    cases hsent
    exact .inl ⟨_, rfl, h.untouched_failEngine (Stage.isRunning_of_engine? hengine) _⟩
  | decompiled =>
    cases hsent
    exact .inr ⟨_, rfl, h.keeps.trans (.of_logs (World.logs_noteAll _ _))⟩
  | made | added | unit | total | noted | passed | lost | ended => cases hsent
  | unopened hkind | opened hkind => exact absurd rfl hkind
  | asked | refused | deserted | rescued | exported | unclosed =>
    rcases h.fits with hfits | hfits <;> cases hfits
  | skipped hsupplies | written hsupplies | unwritten hsupplies =>
    exact absurd hsupplies h.not_supplies

end Workspace

/-- A decompile task that begins without an engine, after records of the log, fails and leaves the
files as they were, or it succeeds, tells how many classes there are and keeps what stands outside
the directory for what the decompiler makes. -/
theorem TaskEnds.decompiled (h : TaskEnds .decompileArchive target s s' o)
    (hengine : s.engine = none) (hlogs : start.Logs s.world) :
    (∃ reason, o = .failure reason ∧ start.Untouched s'.world) ∨
      ∃ tree, o = .success (some (.decompiled target tree s'.store.size)) ∧
        start.Keeps s'.world := by
  have hbegin : s.Decompiles start .ready :=
    ⟨.of_logs hlogs, fun _ place _ => hlogs.files.node place, fun _ => hengine, .inl rfl⟩
  obtain ⟨s₁, stage₁, a, hmove, hdecompiles, rfl, hsent⟩ :=
    h.exists_last (P := fun s₁ stage => s₁.Decompiles start stage) hbegin Workspace.Moves.decompiles
  exact hmove.decompiled_last hdecompiles hsent

end ClassBrowser
