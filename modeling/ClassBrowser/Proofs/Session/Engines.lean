import ClassBrowser.Proofs.Engine.Surroundings
import ClassBrowser.Proofs.Session.Requests
import ClassBrowser.Proofs.Task.Steps

/-!
# The engines of a session

A session of given settings has the decompiler for its engine, and as long as no other engine is
supplied, all that changes of it are its sources and what it has made (`isOf_run`): it is told the
same at the last run as at the first.  The environment stays the same, too.
-/

namespace ClassBrowser

/-- Whether an engine is the decompiler that the settings describe, whatever it was given and has
made. -/
def Engine.IsOf (e : Engine) (settings : Settings) : Prop :=
  ∃ sources running locations,
    e.machine = .decompiler { Decompiler.ofSettings settings with sources, running, locations }

/-- The engines that are there: the one that is kept, and those of tasks under way. -/
def Pipeline.engines (p : Pipeline) : List Engine :=
  p.workspace.engine.toList ++ p.tasks.filterMap fun t => t.stage.engine?

variable {settings : Settings} {env : Environment} {e : Engine} {w w' : World}

/-! ## Requests to an engine -/

namespace Engine

theorem isOf_make (hmake : (Factory.decompiler settings).make w = (w', .ok e)) :
    w'.env = w.env ∧ e.IsOf settings := by
  cases hmake
  exact ⟨rfl, [], false, [], rfl⟩

theorem IsOf.addSource (h : e.IsOf settings) (w : World) (archive : Path) :
    (e.addSource w archive).2.1.IsOf settings := by
  obtain ⟨sources, running, locations, hmachine⟩ := h
  unfold Engine.addSource
  simp only [hmachine]
  split
  · next d hd =>
    obtain ⟨source, rfl⟩ := Decompiler.addSource_eq_ok hd
    exact ⟨sources ++ [source], running, locations, rfl⟩
  · exact ⟨sources, running, locations, hmachine⟩

theorem IsOf.decompile (h : e.IsOf settings) (w : World) :
    (e.decompile w).2.1.IsOf settings := by
  obtain ⟨sources, running, locations, hmachine⟩ := h
  unfold Engine.decompile
  simp only [hmachine]
  obtain ⟨running, locations, heq⟩ := Decompiler.decompile_keeps
    { Decompiler.ofSettings settings with sources, running, locations } (e.trace w .decompile)
  exact ⟨sources, running, locations, by rw [heq]⟩

end Engine

/-! ## Steps of a worker -/

/-- Whether a session of the settings in the environment is at work. -/
structure Workspace.IsOf (s : Workspace) (settings : Settings) (env : Environment) : Prop where
  env : s.world.env = env
  factory : s.factory = some (.decompiler settings)
  engine : ∀ e, s.engine = some e → e.IsOf settings

/-- Whether the engine of a stage is that of the settings. -/
def Stage.IsOf (stage : Stage) (settings : Settings) : Prop :=
  ∀ e, stage.engine? = some e → e.IsOf settings

theorem Stage.IsOf.withActs {stage : Stage} (h : stage.IsOf settings) (acts : List Act) :
    (stage.withActs acts).IsOf settings := by
  simpa [Stage.IsOf] using h

namespace Workspace

variable {s : Workspace} {stage : Stage} {kind : TaskKind} {target : Path}

theorem IsOf.withWorld (h : s.IsOf settings env) (henv : w.env = s.world.env) :
    (s.withWorld w).IsOf settings env :=
  ⟨henv.trans h.env, h.factory, h.engine⟩

theorem IsOf.cleared (h : s.IsOf settings env) (archive : Path) :
    (s.cleared archive).IsOf settings env := by
  rw [cleared_eq]
  refine ⟨?_, h.factory, nofun⟩
  cases s.engine with
  | none => exact h.env
  | some e => exact (e.alters_close s.world).env.trans h.env

/-- The engines of a session stay the decompiler of its settings. -/
theorem Moves.isOf {a : Advance} (hmove : s.Moves kind target stage a) (h : s.IsOf settings env)
    (hstage : stage.IsOf settings) : a.workspace.IsOf settings env ∧ a.stage.IsOf settings := by
  cases hmove with
  | unconfigured _ hfactory => cases h.factory.symm.trans hfactory
  | unmade _ hfactory hmake =>
    obtain rfl := Option.some.inj (h.factory.symm.trans hfactory)
    cases hmake
  | made _ hfactory hmake =>
    obtain rfl := Option.some.inj (h.factory.symm.trans hfactory)
    obtain ⟨henv, he⟩ := Engine.isOf_make hmake
    refine ⟨(h.cleared target).withWorld ((Engine.alters_addSource _ _ target).env.trans henv), ?_⟩
    rintro e' ⟨⟩
    exact he.addSource _ target
  | added =>
    refine ⟨h.withWorld (Engine.alters_decompile _ _).env, ?_⟩
    rintro e' ⟨⟩
    exact (hstage _ rfl).decompile s.world
  | unit => exact ⟨⟨h.env, h.factory, h.engine⟩, hstage⟩
  | total => exact ⟨h, hstage⟩
  | decompiled =>
    refine ⟨⟨(World.alters_noteAll _ _).env.trans h.env, h.factory, ?_⟩, nofun⟩
    rintro e' ⟨⟩
    exact hstage _ rfl
  | threw => exact ⟨h.withWorld (Engine.alters_close _ _).env, nofun⟩
  | asked => exact ⟨h.withWorld (Engine.alters_render _ _ _).env, nofun⟩
  | noted => exact ⟨h.withWorld rfl, hstage.withActs _⟩
  | passed => exact ⟨h, hstage.withActs _⟩
  | lost | ended => exact ⟨h, nofun⟩
  | unopened | opened | skipped | written | unwritten | refused | deserted | rescued | exported
  | unclosed =>
    exact ⟨h.withWorld rfl, nofun⟩

theorem IsOf.advance (h : s.IsOf settings env) (hstage : stage.IsOf settings) (kind : TaskKind)
    (target : Path) :
    (s.advance kind target stage).workspace.IsOf settings env ∧
      (s.advance kind target stage).stage.IsOf settings :=
  (s.moves_advance kind target stage).isOf h hstage

end Workspace

/-! ## Courses of events -/

variable {p q : Pipeline} {t : Task} {kind : TaskKind} {target : Path}

/-- Whether the pipeline of a session of the settings in the environment is at work. -/
structure Pipeline.IsOf (p : Pipeline) (settings : Settings) (env : Environment) : Prop where
  workspace : p.workspace.IsOf settings env
  tasks : ∀ t ∈ p.tasks, t.stage.IsOf settings

namespace Pipeline.IsOf

theorem engines (h : p.IsOf settings env) (he : e ∈ p.engines) : e.IsOf settings := by
  rcases List.mem_append.1 he with hkept | hworking
  · exact h.workspace.engine e (Option.mem_toList.1 hkept)
  · obtain ⟨t, ht, hstage⟩ := List.mem_filterMap.1 hworking
    exact h.tasks t ht e hstage

theorem start (h : p.IsOf settings env) (hstart : p.start kind target = .ok q) :
    q.IsOf settings env := by
  obtain ⟨-, rfl⟩ := start_eq_ok_iff.1 hstart
  exact ⟨h.workspace, List.forall_mem_cons.2 ⟨nofun, h.tasks⟩⟩

theorem step (h : p.IsOf settings env) : p.step.IsOf settings env := by
  obtain ⟨workspace, tasks⟩ := p
  cases tasks with
  | nil => exact h
  | cons t earlier =>
    obtain ⟨ht, hearlier⟩ := List.forall_mem_cons.1 h.tasks
    obtain ⟨hworkspace, hstage⟩ := h.workspace.advance ht t.kind t.target
    exact ⟨hworkspace, List.forall_mem_cons.2 ⟨hstage, hearlier⟩⟩

theorem work (h : p.IsOf settings env) (n : Nat) : (Pipeline.work n p).IsOf settings env := by
  induction n generalizing p with
  | zero => exact h
  | succ n ih => exact ih h.step

theorem setTask (h : p.IsOf settings env) (ht : t.stage.IsOf settings) :
    (p.setTask t).IsOf settings env := by
  refine ⟨h.workspace, ?_⟩
  intro u hu
  obtain ⟨v, hv, rfl⟩ := List.mem_map.1 hu
  split
  · exact ht
  · exact h.tasks v hv

theorem poll (h : p.IsOf settings env) (number : Nat) :
    (p.poll number).1.IsOf settings env := by
  unfold Pipeline.poll
  split
  · exact h
  · next t ht => exact h.setTask (h.tasks t (mem_of_task? ht))

theorem wait (h : p.IsOf settings env) (number : Nat) :
    (p.wait number).1.IsOf settings env := by
  unfold Pipeline.wait
  split
  · exact h
  · next t ht =>
    refine h.setTask ?_
    have hstage : t.wait.1.stage = t.stage := by
      rw [Task.wait]
      split <;> rfl
    rw [hstage]
    exact h.tasks t (mem_of_task? ht)

end Pipeline.IsOf

namespace Session

variable {s : Session}

theorem isOf_apply (h : s.pipeline.IsOf settings env) (outcome : Outcome) :
    (s.apply outcome).pipeline.IsOf settings env := by
  have hrecover : s.recoverTree.pipeline.IsOf settings env := by
    unfold recoverTree
    split
    · exact ⟨h.workspace.withWorld (World.alters_noteAll _ _).env, h.tasks⟩
    · exact h
  unfold apply
  split
  · exact h
  · exact hrecover

theorem isOf_startAhead {ahead : Nat} {t : Session} (h : s.pipeline.IsOf settings env)
    (hstart : s.startAhead kind target ahead = .ok t) : t.pipeline.IsOf settings env := by
  obtain ⟨p, hpipeline, hahead⟩ := exists_of_startAhead hstart
  have hp := (h.start hpipeline).work ahead
  rcases hahead with hahead | ⟨record, hahead⟩
  · rw [hahead]
    exact hp
  · rw [hahead]
    exact ⟨hp.workspace.withWorld rfl, hp.tasks⟩

/-- What happens to a session changes nothing of what its engine is told, unless another engine is
supplied. -/
theorem isOf_after (h : s.pipeline.IsOf settings env) (event : Event)
    (hsupply : ∀ f, event ≠ .supply f) : (s.after event).1.pipeline.IsOf settings env := by
  cases event with
  | request name target =>
    rw [after, Pipeline.request]
    cases TaskKind.ofName? name with
    | none => exact h
    | some kind =>
      dsimp only
      cases hstart : s.pipeline.start kind target with
      | error error => exact h
      | ok p => exact h.start hstart
  | start kind target ahead =>
    rw [after]
    cases hstart : s.startAhead kind target ahead with
    | error error => exact h
    | ok t => exact isOf_startAhead h hstart
  | work => exact h.step
  | poll task => exact h.poll task
  | wait task => exact h.wait task
  | apply outcome => exact isOf_apply h outcome
  | supply f => exact absurd rfl (hsupply f)

theorem isOf_run (h : s.pipeline.IsOf settings env) {events : List Event}
    (hsupply : ∀ f, .supply f ∉ events) : (s.run events).1.pipeline.IsOf settings env := by
  induction events generalizing s with
  | nil => exact h
  | cons event rest ih =>
    refine ih (isOf_after h event ?_) ?_
    · intro f hf
      exact hsupply f (hf ▸ List.mem_cons_self)
    · exact fun f hf => hsupply f (List.mem_cons_of_mem _ hf)

theorem isOf_new (settings : Settings) (w : World) :
    (new settings (some (.decompiler settings)) w).pipeline.IsOf settings w.env :=
  ⟨⟨rfl, rfl, nofun⟩, fun _ ht => absurd ht List.not_mem_nil⟩

end Session

end ClassBrowser
