import ClassBrowser.Proofs.Assoc
import ClassBrowser.Proofs.Task.Moves

/-!
# Single steps of a worker

What one step of a worker changes of the workspace, and what it sends.  Only two kinds of steps
touch the store: the first one of a decompile task empties it, and an engine's report of a class
puts the class there.  An outcome is sent once, by the step that comes to the end of the task, and
the hierarchy in it is that of the store.
-/

namespace ClassBrowser

/-- Whether a hierarchy in an outcome is that of the store. -/
def Outcome.Shows (o : Outcome) (s : Workspace) : Prop :=
  ∀ archive tree count, o = .success (some (.decompiled archive tree count)) → tree = s.tree.2

/-- What a step may send: nothing, a progress report, or the outcome of the task, with which the
worker comes to its end. -/
inductive Advance.Sends (a : Advance) : Prop
  | nothing (hsent : a.sent = []) (hstage : a.stage ≠ .reported)
  | progress (p : Progress) (hsent : a.sent = [.progress p]) (hstage : a.stage.isOver = false)
  | outcome (o : Outcome) (hsent : a.sent = [.finished o]) (hstage : a.stage = .reported)
      (hshows : o.Shows a.workspace)

/-- What a step may do.  All that it changes, the first step of a decompile task apart, are the
surroundings, the classes that are reported, and the engine.  No task starts again, and an export
does not come to a stage of a decompile task. -/
structure Advance.IsStep (a : Advance) (s : Workspace) (kind : TaskKind) (stage : Stage) :
    Prop where
  changes : (kind = .decompileArchive → stage ≠ .ready) → ∃ world store engine,
    a.workspace = { s with world, store, engine } ∧
      store.entries = s.store.entries.insertAll stage.reports ∧
      (stage.isDecompiling = false → engine = s.engine)
  begun : a.stage ≠ .ready
  fits : kind ≠ .decompileArchive → stage.isDecompiling = false → a.stage.isDecompiling = false
  sends : a.Sends

namespace Workspace

variable {s s' : Workspace} {kind : TaskKind} {target : Path} {stage : Stage} {f : Factory}

/-- The hierarchy of the classes that are known depends on the names in the store only. -/
theorem tree_congr (hdelimiter : s'.delimiter = s.delimiter)
    (hentries : s'.store.entries = s.store.entries) : s'.tree.2 = s.tree.2 := by
  show (Package.ofValidNames s'.delimiter s'.store.names).1 =
    (Package.ofValidNames s.delimiter s.store.names).1
  rw [Store.names, Store.names, hdelimiter, hentries]

/-- An export that has no class left closes its target and succeeds, unless that fails. -/
theorem advance_exporting_of_nil {x : Exporting} (hleft : x.left = []) (s : Workspace)
    (kind : TaskKind) (target : Path) : s.advance kind target (.exporting x) =
      s.endExport kind x.writer (·.succeed (.exported x.summary)) := by
  show s.advanceExporting kind x = _
  unfold advanceExporting
  simp only [hleft]

/-- The target of an export can be closed, or that is its failure. -/
theorem endExport_cases (s : Workspace) (kind : TaskKind) (writer : Export.Writer)
    (next : Workspace → Advance) :
    s.closeFailure? writer = none ∧ s.endExport kind writer next = next (s.closeWriter writer) ∨
      ∃ f, s.closeFailure? writer = some f ∧
        s.endExport kind writer next = (s.closeWriter writer).fail kind f := by
  unfold endExport
  cases s.closeFailure? writer with
  | none => exact .inl ⟨rfl, rfl⟩
  | some f => exact .inr ⟨f, rfl, rfl⟩

theorem claimed_writerFor (s : Workspace) (kind : TaskKind) (target : Path) :
    (s.writerFor kind target).claimed = [] := by
  cases kind <;> rfl

theorem extension_writerFor (s : Workspace) (kind : TaskKind) (target : Path) :
    (s.writerFor kind target).extension = s.extension := by
  cases kind <;> rfl

/-- An export is to a directory or to an archive. -/
theorem format_writerFor (hkind : kind ≠ .decompileArchive) :
    (kind = .exportDirectory ∧ (s.writerFor kind target).format = .directory) ∨
      (kind = .exportArchive ∧ (s.writerFor kind target).format = .archive .closed) := by
  cases kind with
  | decompileArchive => exact absurd rfl hkind
  | exportDirectory => exact .inl ⟨rfl, rfl⟩
  | exportArchive => exact .inr ⟨rfl, rfl⟩

/-! ## Kinds of steps -/

theorem isStep_silently (s : Workspace) (w : World) {next : Stage} (hreports : stage.reports = [])
    (hready : next ≠ .ready) (hreported : next ≠ .reported)
    (hfits : stage.isDecompiling = false → next.isDecompiling = false) :
    ((s.withWorld w).silently next).IsStep s kind stage where
  changes _ := ⟨w, s.store, s.engine, rfl, by rw [hreports]; rfl, fun _ => rfl⟩
  begun := hready
  fits _ := hfits
  sends := .nothing rfl hreported

theorem isStep_fail (s : Workspace) (w : World) (named : TaskKind) (f : TaskFailure)
    (hreports : stage.reports = []) : ((s.withWorld w).fail named f).IsStep s kind stage where
  changes _ := ⟨_, s.store, s.engine, rfl, by rw [hreports]; rfl, fun _ => rfl⟩
  begun := nofun
  fits _ _ := rfl
  sends := .outcome (.failure f.reason) rfl rfl nofun

theorem isStep_handled (s : Workspace) (w : World) (x : Exporting) (hreports : stage.reports = []) :
    ((s.withWorld w).handled x).IsStep s kind stage where
  changes _ := ⟨w, s.store, s.engine, rfl, by rw [hreports]; rfl, fun _ => rfl⟩
  begun := nofun
  fits _ _ := rfl
  sends := .progress _ rfl rfl

/-- The first step of a decompile task may change anything. -/
theorem isStep_begun {a : Advance} (hkind : kind = .decompileArchive) (hready : a.stage ≠ .ready)
    (hsends : a.Sends) : a.IsStep s kind .ready where
  changes h := absurd rfl (h hkind)
  begun := hready
  fits h := absurd hkind h
  sends := hsends

/-- An act of which nothing comes but a record of the log. -/
theorem isStep_withActs {act : Act} {rest : List Act} (hacts : stage.acts = act :: rest)
    (hact : ∀ name text, act = .unit name text → stage.passes act = true) (s : Workspace)
    (w : World) : ((s.withWorld w).silently (stage.withActs rest)).IsStep s kind stage := by
  refine isStep_silently s w (Stage.reports_of_acts hacts hact) ?_ ?_ fun h => by simpa using h
  · simpa using Stage.ne_ready_of_acts hacts
  · exact (Stage.ne_of_isOver (by simpa using Stage.isOver_of_acts hacts)).1

theorem Supplies.reports {x : Exporting} {name : String} {text : Option String}
    (h : s.Supplies stage x name text) : stage.reports = [] := by
  cases h <;> rfl

theorem Moves.isStep {a : Advance} (h : s.Moves kind target stage a) : a.IsStep s kind stage := by
  cases h with
  | unconfigured hkind => exact isStep_begun hkind nofun (.outcome _ rfl rfl nofun)
  | unmade hkind => exact isStep_begun hkind nofun (.outcome _ rfl rfl nofun)
  | made hkind => exact isStep_begun hkind nofun (.nothing rfl nofun)
  | added => exact isStep_silently s _ rfl nofun nofun nofun
  | unit =>
    exact ⟨fun _ => ⟨_, _, s.engine, rfl, rfl, fun _ => rfl⟩, nofun, fun _ => nofun,
      .progress _ rfl rfl⟩
  | total => exact isStep_silently s s.world rfl nofun nofun nofun
  | @decompiled e =>
    refine ⟨fun _ => ⟨_, s.store, some e, rfl, rfl, nofun⟩, nofun, fun _ => nofun,
      .outcome _ rfl rfl ?_⟩
    intro archive tree count hresult
    cases hresult
    rfl
  | threw _ hacts => exact isStep_fail s _ _ _ (Stage.reports_of_acts hacts nofun)
  | lost _ hacts =>
    exact isStep_silently s s.world (Stage.reports_of_acts hacts nofun) nofun nofun fun _ => rfl
  | noted hacts => exact isStep_withActs hacts nofun s _
  | passed hacts hpasses => exact isStep_withActs hacts (fun _ _ _ => hpasses) s s.world
  | unopened => exact isStep_fail s _ _ _ rfl
  | opened => exact isStep_silently s _ rfl nofun nofun fun _ => rfl
  | asked => exact isStep_silently s _ rfl nofun nofun fun _ => rfl
  | skipped hsupplies => exact isStep_handled s _ _ hsupplies.reports
  | written hsupplies => exact isStep_handled s _ _ hsupplies.reports
  | unwritten hsupplies => exact isStep_fail s _ _ _ hsupplies.reports
  | refused | rescued | unclosed => exact isStep_fail s _ _ _ rfl
  | deserted => exact isStep_silently s _ rfl nofun nofun fun _ => rfl
  | exported =>
    exact ⟨fun _ => ⟨_, s.store, s.engine, rfl, rfl, fun _ => rfl⟩, nofun, fun _ _ => rfl,
      .outcome _ rfl rfl nofun⟩
  | ended hover =>
    have hreports : stage.reports = [] := by
      cases stage with
      | decompiling => cases hover
      | _ => rfl
    exact isStep_silently s s.world hreports nofun nofun fun _ => rfl

theorem isStep_advance (s : Workspace) (kind : TaskKind) (target : Path) (stage : Stage) :
    (s.advance kind target stage).IsStep s kind stage :=
  (s.moves_advance kind target stage).isStep

/-- The first step of a decompile task with an engine empties the store. -/
theorem beginDecompile_eq (hfactory : s.factory ≠ none) :
    ∃ world, (s.beginDecompile target).workspace =
      { s with world, store := .empty, engine := none } := by
  obtain ⟨f, hf⟩ := Option.ne_none_iff_exists'.1 hfactory
  rw [beginDecompile_of_factory hf, cleared_eq]
  split <;> exact ⟨_, rfl⟩

/-- A worker that has come to the end of its task does nothing more. -/
theorem advance_of_isOver (h : stage.isOver = true) (s : Workspace) :
    s.advance kind target stage = s.silently .finished :=
  (Moves.ended h).eq_advance.symm

/-- A step keeps where tasks come from and how names are cut. -/
theorem settings_advance (hfactory : s.factory ≠ none) (kind : TaskKind) (target : Path)
    (stage : Stage) :
    (s.advance kind target stage).workspace.factory = s.factory ∧
      (s.advance kind target stage).workspace.delimiter = s.delimiter := by
  by_cases hbegin : kind = .decompileArchive ∧ stage = .ready
  · obtain ⟨rfl, rfl⟩ := hbegin
    obtain ⟨world, hworkspace⟩ := @beginDecompile_eq s target hfactory
    show (s.beginDecompile target).workspace.factory = _ ∧
      (s.beginDecompile target).workspace.delimiter = _
    rw [hworkspace]
    exact ⟨rfl, rfl⟩
  · rw [not_and] at hbegin
    obtain ⟨world, store, engine, hworkspace, -, -⟩ :=
      (s.isStep_advance kind target stage).changes hbegin
    rw [hworkspace]
    exact ⟨rfl, rfl⟩

end Workspace

theorem Task.isRunning_eq_false {t : Task} : t.isRunning = false ↔ t.stage = .finished := by
  unfold isRunning
  cases t.stage <;> simp [Stage.isFinished]

namespace Pipeline

theorem isBusy_of_head? {p : Pipeline} {t : Task} (ht : p.tasks.head? = some t) :
    p.isBusy = t.isRunning := by
  obtain ⟨earlier, htasks⟩ := List.head?_eq_some_iff.1 ht
  rw [isBusy, htasks]

/-- What the next step of the latest worker sends. -/
def sends (p : Pipeline) : List Message :=
  match p.tasks with
  | [] => []
  | t :: _ => (p.workspace.advance t.kind t.target t.stage).sent

/-- A step of the latest worker puts what it sends behind the messages that are in the queue. -/
theorem head?_step {p : Pipeline} {t : Task} (ht : p.tasks.head? = some t) :
    let a := p.workspace.advance t.kind t.target t.stage
    p.step.workspace = a.workspace ∧
      p.step.tasks.head? = some { t with stage := a.stage, queue := t.queue ++ a.sent } ∧
      p.sends = a.sent := by
  obtain ⟨workspace, tasks⟩ := p
  cases tasks with
  | nil => cases ht
  | cons first earlier =>
    cases ht
    exact ⟨rfl, rfl, rfl⟩

end Pipeline

end ClassBrowser
