import ClassBrowser.Proofs.Engine.Lives
import ClassBrowser.Proofs.Task.Receiving
import ClassBrowser.Proofs.Task.Survival
import ClassBrowser.Session
import Mathlib.Logic.Relation

/-!
# Engines in the course of tasks

A decompile task closes the engine of the one before, makes its own, and closes that again if it
fails; exports and whoever shows a class borrow the engine that is kept.  The invariant is an
account of all engines in every stage of a task (`Opening.Holds`), from which it follows that
between tasks the engine that is kept is that of the latest decompile task, and every other one is
closed for good (`accounts_of_reaches`).
-/

namespace ClassBrowser

variable {s s' : Workspace} {stage : Stage} {kind : TaskKind} {target : Path} {e : Engine}
  {w : World} {p q : Pipeline} {t u : Task}

/-! ## Opening an archive -/

/-- What is remembered of a decompile task: how many engines there were before it, which is the
number that its own engine gets, and the outcomes that its worker has sent. -/
structure Opening where
  engine : Nat
  ended : List Outcome
deriving DecidableEq

namespace Opening

variable {o : Opening}

/-- How a decompile task has left the engine that is kept: it is its own one after a success, and
there is none after a failure. -/
inductive Settled (o : Opening) (s : Workspace) : Prop
  | kept (result : Option TaskResult) (e : Engine) (hended : o.ended = [.success result])
      (hengine : s.engine = some e) (hnumber : e.number = o.engine)
      (hlatest : s.world.engines = o.engine + 1)
  | closed (reason : String) (hended : o.ended = [.failure reason]) (hengine : s.engine = none)

/-- What holds while the engine of a decompile task is at work. -/
structure AtWork (o : Opening) (s : Workspace) (e : Engine) : Prop where
  ended : o.ended = []
  number : e.number = o.engine
  latest : s.world.engines = o.engine + 1
  engine : s.engine = none
  accounts : s.world.Accounts (some e.number)

/-- What holds in the stages of a decompile task. -/
inductive Holds (o : Opening) (s : Workspace) : Stage → Prop
  | ready (hended : o.ended = []) (hengines : s.world.engines = o.engine)
      (haccounts : s.world.Accounts (s.engine.map Engine.number)) : Holds o s .ready
  | adding {e : Engine} {acts : List Act} (h : o.AtWork s e) : Holds o s (.adding e acts)
  | decompiling {e : Engine} {acts : List Act} {completed : Nat} {total : Option Int}
      (h : o.AtWork s e) : Holds o s (.decompiling e acts completed total)
  | ended {stage : Stage} (hover : stage.isOver = true) (h : o.Settled s)
      (haccounts : s.world.Accounts (s.engine.map Engine.number)) : Holds o s stage

/-- The task after a step that has sent some messages. -/
def sent (o : Opening) (messages : List Message) : Opening :=
  { o with ended := o.ended ++ messages.filterMap Message.outcome? }

theorem sent_eq {messages : List Message} (h : messages.filterMap Message.outcome? = []) :
    o.sent messages = o := by
  rw [sent, h, List.append_nil]

theorem Settled.congr (h : o.Settled s) (hengine : s'.engine = s.engine)
    (hengines : s'.world.engines = s.world.engines) : o.Settled s' := by
  cases h with
  | kept result e hended hkept hnumber hlatest =>
    exact .kept result e hended (hengine.trans hkept) hnumber (hengines.trans hlatest)
  | closed reason hended hnone => exact .closed reason hended (hengine.trans hnone)

namespace AtWork

theorem of_traces (h : o.AtWork s e) (htraces : s.world.Traces s'.world [])
    (hengine : s'.engine = s.engine) : o.AtWork s' e :=
  ⟨h.ended, h.number, htraces.engines.trans h.latest, hengine.trans h.engine,
    h.accounts.of_traces htraces⟩

theorem goes {messages : List Message} (h : o.AtWork s e) (htraces : s.world.Traces s'.world [])
    (hengine : s'.engine = s.engine) (hsent : messages.filterMap Message.outcome? = []) :
    (o.sent messages).AtWork s' e := by
  rw [sent_eq hsent]
  exact h.of_traces htraces hengine

theorem decompile (h : o.AtWork s e) :
    o.AtWork (s.withWorld (e.decompile s.world).1) (e.decompile s.world).2.1 := by
  have htraces := e.traces_decompile s.world
  have hnumber := e.number_decompile s.world
  refine ⟨h.ended, hnumber.trans h.number, htraces.engines.trans h.latest, h.engine, ?_⟩
  rw [hnumber]
  exact h.accounts.use htraces rfl

/-- An engine that throws is closed. -/
theorem failEngine (h : o.AtWork s e) (thrown : Thrown) :
    (o.sent (s.failEngine e thrown).sent).Holds (s.failEngine e thrown).workspace
      (s.failEngine e thrown).stage := by
  have hengine : (s.failEngine e thrown).workspace.engine = none := h.engine
  refine .ended rfl (.closed (TaskFailure.thrown thrown).reason ?_ hengine) ?_
  · rw [sent, h.ended]
    rfl
  · rw [hengine]
    exact (h.accounts.close (e.traces_close s.world) rfl).of_traces (World.alters_note _ _).traces

/-- An engine that comes to its end is kept. -/
theorem finishDecompile (h : o.AtWork s e) (archive : Path) :
    (o.sent (s.finishDecompile archive e).sent).Holds (s.finishDecompile archive e).workspace
      (s.finishDecompile archive e).stage := by
  have htraces : s.world.Traces (s.finishDecompile archive e).workspace.world [] :=
    (World.alters_noteAll _ _).traces
  refine .ended rfl (.kept _ e (by rw [sent, h.ended]; rfl) rfl h.number
    (htraces.engines.trans h.latest)) ?_
  exact h.accounts.of_traces htraces

end AtWork

end Opening

/-! ## Steps of a decompile task -/

/-- The engine of the task before is closed. -/
theorem Workspace.accounts_cleared (h : s.world.Accounts (s.engine.map Engine.number))
    (archive : Path) : (s.cleared archive).engine = none ∧
      (s.cleared archive).world.Accounts none ∧
      (s.cleared archive).world.engines = s.world.engines := by
  rw [cleared_eq]
  refine ⟨rfl, ?_⟩
  cases hengine : s.engine with
  | none =>
    rw [hengine] at h
    exact ⟨h.of_traces (World.alters_note _ _).traces, rfl⟩
  | some e =>
    rw [hengine] at h
    have htraces := e.traces_close s.world
    exact ⟨(World.Accounts.close h htraces rfl).of_traces (World.alters_note _ _).traces,
      htraces.engines⟩

namespace Opening

variable {o : Opening}

theorem Holds.of_traces (h : o.Holds s stage) (htraces : s.world.Traces s'.world [])
    (hengine : s'.engine = s.engine) : o.Holds s' stage := by
  cases h with
  | ready hended hengines haccounts =>
    refine .ready hended (htraces.engines.trans hengines) ?_
    rw [hengine]
    exact haccounts.of_traces htraces
  | adding h => exact .adding (h.of_traces htraces hengine)
  | decompiling h => exact .decompiling (h.of_traces htraces hengine)
  | ended hover h haccounts =>
    refine .ended hover (h.congr hengine htraces.engines) ?_
    rw [hengine]
    exact haccounts.of_traces htraces

theorem Holds.of_ready (h : o.Holds s .ready) : o.ended = [] ∧ s.world.engines = o.engine ∧
    s.world.Accounts (s.engine.map Engine.number) := by
  cases h with
  | ready hended hengines haccounts => exact ⟨hended, hengines, haccounts⟩
  | ended hover => cases hover

theorem Holds.atWork (h : o.Holds s stage) (hengine : stage.engine? = some e) : o.AtWork s e := by
  cases h with
  | ready => cases hengine
  | adding h => exact Option.some.inj hengine ▸ h
  | decompiling h => exact Option.some.inj hengine ▸ h
  | ended hover =>
    cases stage with
    | adding => cases hover
    | decompiling => cases hover
    | _ => cases hengine

theorem Holds.withActs (h : o.Holds s stage) (acts : List Act) :
    o.Holds s (stage.withActs acts) := by
  cases h with
  | ready hended hengines haccounts => exact .ready hended hengines haccounts
  | adding h => exact .adding h
  | decompiling h => exact .decompiling h
  | ended hover h haccounts => exact .ended ((stage.isOver_withActs acts).trans hover) h haccounts

theorem Holds.gone (h : o.Holds s stage) (hover : stage.isOver = true) : o.Holds s .finished := by
  cases h with
  | ended _ h haccounts => exact .ended rfl h haccounts
  | _ => cases hover

theorem Holds.not_supplies (h : o.Holds s stage) {x : Exporting} {name : String}
    {text : Option String} : ¬ s.Supplies stage x name text := by
  intro hsupplies
  cases hsupplies with
  | known => cases h with | ended hover => cases hover
  | rendered => cases h with | ended hover => cases hover

/-- Each move of a decompile task keeps the account of the engines. -/
theorem Holds.moves {a : Advance} (h : o.Holds s stage) (hspares : stage.Spares)
    (hfactory : s.factory ≠ none) (hmove : s.Moves .decompileArchive target stage a) :
    (o.sent a.sent).Holds a.workspace a.stage := by
  cases hmove with
  | unconfigured _ hnone => exact absurd hnone hfactory
  | @unmade _ w t _ _ hmake =>
    obtain ⟨hended, -, haccounts⟩ := h.of_ready
    obtain ⟨hnone, hclosed, -⟩ := Workspace.accounts_cleared haccounts target
    obtain rfl := Factory.eq_of_make_error hmake
    refine .ended rfl (.closed (TaskFailure.thrown t).reason ?_ hnone) ?_
    · rw [sent, hended]
      rfl
    · show World.Accounts _ ((s.cleared target).engine.map Engine.number)
      rw [hnone]
      exact hclosed.of_traces (World.alters_note _ _).traces
  | @made _ w e _ _ hmake =>
    obtain ⟨hended, hengines, haccounts⟩ := h.of_ready
    obtain ⟨hnone, hclosed, hsame⟩ := Workspace.accounts_cleared haccounts target
    obtain ⟨hmade, hnumber, hnext⟩ := Factory.accounts_make hclosed hmake
    have htraces := e.traces_addSource w target
    have hkept := e.number_addSource w target
    refine .adding ⟨?_, ?_, htraces.engines.trans ?_, hnone, ?_⟩
    · rw [sent, hended]
      rfl
    · rw [hkept, hnumber, hsame, hengines]
      rfl
    · rw [hnext, hsame, hengines, sent]
    · rw [hkept]
      exact hmade.use htraces rfl
  | added => exact .decompiling ((h.atWork rfl).decompile.goes (.refl _) rfl rfl)
  | unit | total => exact .decompiling ((h.atWork rfl).goes (.refl _) rfl rfl)
  | decompiled => exact (h.atWork rfl).finishDecompile target
  | threw hengine => exact (h.atWork hengine).failEngine _
  | lost _ hacts => exact absurd (hacts ▸ List.mem_cons_self) (hspares.sparesWorker _)
  | @noted _ record =>
    have hnoted : o.Holds (s.withWorld (s.world.note record)) stage :=
      h.of_traces (World.alters_note _ _).traces rfl
    rw [sent_eq rfl]
    exact hnoted.withActs _
  | passed =>
    rw [sent_eq rfl]
    exact h.withActs _
  | ended hover =>
    rw [sent_eq rfl]
    exact h.gone hover
  | unopened hkind | opened hkind => exact absurd rfl hkind
  | asked | refused | deserted | rescued | exported | unclosed =>
    cases h with | ended hover => cases hover
  | skipped hsupplies | written hsupplies | unwritten hsupplies =>
    exact absurd hsupplies h.not_supplies

/-- Each step of a decompile task keeps the account of the engines. -/
theorem Holds.advance (h : o.Holds s stage) (hspares : stage.Spares) (hfactory : s.factory ≠ none)
    (target : Path) :
    let a := s.advance .decompileArchive target stage
    (o.sent a.sent).Holds a.workspace a.stage :=
  h.moves hspares hfactory (s.moves_advance .decompileArchive target stage)

theorem Holds.accounts (h : o.Holds s stage) : ∃ opened, s.world.Accounts opened := by
  cases h with
  | ready _ _ haccounts => exact ⟨_, haccounts⟩
  | adding h => exact ⟨_, h.accounts⟩
  | decompiling h => exact ⟨_, h.accounts⟩
  | ended _ _ haccounts => exact ⟨_, haccounts⟩

end Opening

/-! ## Steps of an export -/

namespace Workspace

/-- An export asks the engine that is kept for texts, and nothing else of any engine. -/
def Borrows (s : Workspace) (w : World) : Prop :=
  s.world.Traces w [] ∨
    ∃ e name, s.engine = some e ∧ s.world.Traces w [⟨e.number, e.label, .render name⟩]

theorem Borrows.accounts (h : s.Borrows w)
    (haccounts : s.world.Accounts (s.engine.map Engine.number)) :
    w.Accounts (s.engine.map Engine.number) := by
  rcases h with hnothing | ⟨e, name, hengine, hrender⟩
  · exact haccounts.of_traces hnothing
  · rw [hengine] at haccounts ⊢
    exact World.Accounts.use haccounts hrender rfl

theorem Borrows.engines (h : s.Borrows w) : w.engines = s.world.engines := by
  rcases h with hnothing | ⟨e, name, -, hrender⟩
  · exact hnothing.engines
  · exact hrender.engines

/-- A move of an export only borrows the engine. -/
theorem Moves.borrows {a : Advance} (hmove : s.Moves kind target stage a)
    (hkind : kind ≠ .decompileArchive) (hstage : stage.isDecompiling = false) :
    s.Borrows a.workspace.world := by
  cases hmove with
  | unopened | opened | unwritten | written | refused | deserted | rescued | exported | unclosed =>
    exact .inl (World.traces_of_eq rfl rfl)
  | asked _ _ hengine => exact .inr ⟨_, _, hengine, Engine.traces_render _ _ _⟩
  | skipped | noted => exact .inl (World.alters_note _ _).traces
  | passed | lost | ended => exact .inl (.refl _)
  | unconfigured hdecompiles | unmade hdecompiles | made hdecompiles =>
    exact absurd hdecompiles hkind
  | threw hengine => cases hstage.symm.trans (Stage.isDecompiling_of_engine? hengine)
  | added | unit | total | decompiled => cases hstage

theorem borrows_advance (s : Workspace) (hkind : kind ≠ .decompileArchive)
    (hstage : stage.isDecompiling = false) (target : Path) :
    s.Borrows (s.advance kind target stage).workspace.world :=
  (s.moves_advance kind target stage).borrows hkind hstage

end Workspace

/-! ## The course of tasks -/

/-- A pipeline with what is remembered of the latest decompile task. -/
structure Lifetime where
  pipeline : Pipeline
  opening : Option Opening

namespace Lifetime

variable {l l' : Lifetime}

/-- The course in which a task was accepted. -/
def accepted (l : Lifetime) (kind : TaskKind) (p : Pipeline) : Lifetime where
  pipeline := p
  opening :=
    if kind = .decompileArchive then some ⟨l.pipeline.workspace.world.engines, []⟩ else l.opening

/-- The course after a step of the latest worker. -/
def worked (l : Lifetime) : Lifetime where
  pipeline := l.pipeline.step
  opening :=
    if l.pipeline.tasks.head?.map Task.kind = some .decompileArchive
    then l.opening.map fun o => o.sent l.pipeline.sends
    else l.opening

/-- What may happen in the course of tasks.  The surroundings, with which the engines have nothing
to do, may change at any time; classes are shown between the tasks, whatever session they are shown
by. -/
inductive Step : Lifetime → Lifetime → Prop
  | accept {l : Lifetime} {kind : TaskKind} {target : Path} {p : Pipeline}
      (hstart : l.pipeline.start kind target = .ok p) : Step l (l.accepted kind p)
  | work {l : Lifetime} : Step l l.worked
  | poll {l : Lifetime} {number : Nat} :
      Step l { l with pipeline := (l.pipeline.poll number).1 }
  | wait {l : Lifetime} {number : Nat} :
      Step l { l with pipeline := (l.pipeline.wait number).1 }
  | supply {l : Lifetime} {factory : Factory} (hspares : factory.Spares) :
      Step l { l with pipeline := { l.pipeline with
        workspace := { l.pipeline.workspace with factory := some factory } } }
  | surround {l : Lifetime} {w : World} (htraces : l.pipeline.workspace.world.Traces w []) :
      Step l { l with pipeline := { l.pipeline with
        workspace := l.pipeline.workspace.withWorld w } }
  | content {l : Lifetime} {s : Session} {name : String} (hs : s.pipeline = l.pipeline)
      (hidle : l.pipeline.isBusy = false) :
      Step l { l with pipeline := (s.content name).1.pipeline }

/-- Whether the engine that is kept is that of the latest decompile task. -/
def Settled (l : Lifetime) : Prop :=
  match l.opening with
  | none => l.pipeline.workspace.engine = none
  | some o => o.Settled l.pipeline.workspace

/-- Whether every engine has its account, and the one that is kept is that of the latest decompile
task. -/
structure Rests (l : Lifetime) : Prop where
  settled : l.Settled
  accounts : l.pipeline.workspace.world.Accounts
    (l.pipeline.workspace.engine.map Engine.number)

/-- What holds of the latest task. -/
inductive Latest (l : Lifetime) : Prop
  | opens (t : Task) (o : Opening) (ht : l.pipeline.tasks.head? = some t)
      (hkind : t.kind = .decompileArchive) (ho : l.opening = some o)
      (h : o.Holds l.pipeline.workspace t.stage)
  | exports (hexports : ∀ t, l.pipeline.tasks.head? = some t →
      t.kind ≠ .decompileArchive ∧ t.stage.isDecompiling = false) (h : l.Rests)

/-- What holds all along the course of tasks. -/
structure Sound (l : Lifetime) : Prop where
  factory : l.pipeline.workspace.factory ≠ none
  spares : l.pipeline.workspace.Spares
  stage : ∀ t, l.pipeline.tasks.head? = some t → t.stage.Spares
  latest : l.Latest

theorem Rests.congr (h : l.Rests) (hengine : p.workspace.engine = l.pipeline.workspace.engine)
    (hborrows : l.pipeline.workspace.Borrows p.workspace.world) :
    Rests { l with pipeline := p } := by
  obtain ⟨hsettled, haccounts⟩ := h
  refine ⟨?_, ?_⟩
  · unfold Settled at hsettled ⊢
    cases hopening : l.opening with
    | none =>
      rw [hopening] at hsettled
      exact hengine.trans hsettled
    | some o =>
      rw [hopening] at hsettled
      exact hsettled.congr hengine hborrows.engines
  · rw [hengine]
    exact hborrows.accounts haccounts

namespace Sound

/-- Between the tasks all engines but the one that is kept are closed. -/
theorem rests (h : l.Sound) (hidle : l.pipeline.isBusy = false) : l.Rests := by
  cases h.latest with
  | opens t o ht hkind ho hholds =>
    rw [Pipeline.isBusy_of_head? ht, Task.isRunning_eq_false] at hidle
    rw [hidle] at hholds
    cases hholds with
    | ended hover hsettled haccounts =>
      refine ⟨?_, haccounts⟩
      rw [Settled, ho]
      exact hsettled
  | exports _ hrests => exact hrests

theorem accounts (h : l.Sound) : ∃ opened, l.pipeline.workspace.world.Accounts opened := by
  cases h.latest with
  | opens t o ht hkind ho hholds => exact hholds.accounts
  | exports _ hrests => exact ⟨_, hrests.accounts⟩

theorem accept (h : l.Sound) (hstart : l.pipeline.start kind target = .ok p) :
    (l.accepted kind p).Sound := by
  obtain ⟨hidle, rfl⟩ := Pipeline.start_eq_ok_iff.1 hstart
  obtain ⟨hsettled, haccounts⟩ := h.rests hidle
  refine ⟨h.factory, h.spares, ?_, ?_⟩
  · intro t ht
    cases ht
    trivial
  · by_cases hkind : kind = .decompileArchive
    · exact .opens _ _ rfl hkind (if_pos hkind) (.ready rfl rfl haccounts)
    · refine .exports ?_ ⟨?_, haccounts⟩
      · intro t ht
        cases ht
        exact ⟨hkind, rfl⟩
      · rw [Settled, accepted, if_neg hkind]
        exact hsettled

theorem work (h : l.Sound) : l.worked.Sound := by
  cases hhead : l.pipeline.tasks.head? with
  | none =>
    have htasks : l.pipeline.tasks = [] := List.head?_eq_none_iff.1 hhead
    have hsame : l.worked = l := by
      rw [worked, if_neg (by rw [hhead]; nofun), Pipeline.step, htasks]
    rw [hsame]
    exact h
  | some t =>
    obtain ⟨hworkspace, hnext, hsends⟩ := Pipeline.head?_step hhead
    have hspares : (l.pipeline.workspace.advance t.kind t.target t.stage).workspace.Spares ∧
        (l.pipeline.workspace.advance t.kind t.target t.stage).stage.Spares :=
      h.spares.advance_both (h.stage t hhead) t.kind t.target
    refine ⟨?_, hworkspace ▸ hspares.1, ?_, ?_⟩
    · rw [worked, hworkspace, (Workspace.settings_advance h.factory _ _ _).1]
      exact h.factory
    · intro u hu
      obtain rfl := Option.some.inj (hnext.symm.trans hu)
      exact hspares.2
    · cases h.latest with
      | opens t' o ht hkind ho hholds =>
        obtain rfl : t = t' := Option.some.inj (hhead.symm.trans ht)
        have hadvance := hholds.advance (h.stage t hhead) h.factory t.target
        rw [← hkind] at hadvance
        refine .opens _ (o.sent l.pipeline.sends) hnext hkind ?_ ?_
        · rw [worked, hhead, Option.map_some, if_pos (congrArg some hkind), ho, Option.map_some]
        · show Opening.Holds _ l.pipeline.step.workspace _
          rw [hworkspace, hsends]
          exact hadvance
      | exports hexports hrests =>
        obtain ⟨hkind, hstage⟩ := hexports t hhead
        have hstep := l.pipeline.workspace.isStep_advance t.kind t.target t.stage
        have hengine : l.pipeline.step.workspace.engine = l.pipeline.workspace.engine := by
          obtain ⟨world, store, engine, heq, -, hengine⟩ := hstep.changes fun h => absurd h hkind
          rw [hworkspace, heq]
          exact hengine hstage
        have hborrows : l.pipeline.workspace.Borrows l.pipeline.step.workspace.world := by
          rw [hworkspace]
          exact Workspace.borrows_advance _ hkind hstage t.target
        have hopening : l.worked = ⟨l.pipeline.step, l.opening⟩ := by
          rw [worked, hhead, Option.map_some, if_neg fun h => hkind (Option.some.inj h)]
        rw [hopening]
        refine .exports ?_ (hrests.congr hengine hborrows)
        intro u hu
        obtain rfl := Option.some.inj (hnext.symm.trans hu)
        exact ⟨hkind, hstep.fits hkind hstage⟩

/-- Receiving messages concerns no engine. -/
theorem receives {q : Pipeline} (h : l.Sound) (hq : l.pipeline.Receives q) :
    Sound { l with pipeline := q } := by
  have hold : ∀ u, q.tasks.head? = some u →
      ∃ t, l.pipeline.tasks.head? = some t ∧ u.kind = t.kind ∧ u.stage = t.stage := by
    intro u hu
    rcases hq.latest with hsame | ⟨t, u', ht, hu', hreceives⟩
    · exact ⟨u, hsame ▸ hu, rfl, rfl⟩
    · obtain rfl := Option.some.inj (hu.symm.trans hu')
      exact ⟨t, ht, hreceives.kind, hreceives.stage⟩
  refine ⟨?_, ?_, ?_, ?_⟩
  · show q.workspace.factory ≠ none
    rw [hq.workspace]
    exact h.factory
  · show q.workspace.Spares
    rw [hq.workspace]
    exact h.spares
  · intro u hu
    obtain ⟨t, ht, -, hstage⟩ := hold u hu
    rw [hstage]
    exact h.stage t ht
  · cases h.latest with
    | opens t o ht hkind ho hholds =>
      obtain ⟨u, hu⟩ : ∃ u, q.tasks.head? = some u := by
        rcases hq.latest with hsame | ⟨-, u, -, hu, -⟩
        · exact ⟨t, hsame.trans ht⟩
        · exact ⟨u, hu⟩
      obtain ⟨t', ht', hkind', hstage⟩ := hold u hu
      obtain rfl : t = t' := Option.some.inj (ht.symm.trans ht')
      refine .opens u o hu (hkind'.trans hkind) ho ?_
      show o.Holds q.workspace u.stage
      rw [hq.workspace, hstage]
      exact hholds
    | exports hexports hrests =>
      have hborrows : l.pipeline.workspace.Borrows q.workspace.world := by
        rw [hq.workspace]
        exact .inl (.refl _)
      refine .exports ?_ (hrests.congr (congrArg Workspace.engine hq.workspace) hborrows)
      intro u hu
      obtain ⟨t, ht, hkind, hstage⟩ := hold u hu
      rw [hkind, hstage]
      exact hexports t ht

/-- Nor does anything else that only changes the surroundings, or what engines are made of. -/
theorem of_traces {workspace : Workspace} (h : l.Sound) (hspares : workspace.Spares)
    (hfactory : workspace.factory ≠ none)
    (hengine : workspace.engine = l.pipeline.workspace.engine)
    (htraces : l.pipeline.workspace.world.Traces workspace.world []) :
    Sound { l with pipeline := { l.pipeline with workspace } } := by
  refine ⟨hfactory, hspares, h.stage, ?_⟩
  cases h.latest with
  | opens t o ht hkind ho hholds =>
    exact .opens t o ht hkind ho (hholds.of_traces htraces hengine)
  | exports hexports hrests => exact .exports hexports (hrests.congr hengine (.inl htraces))

end Sound

end Lifetime

/-- To show a class, the engine that is kept is asked for its text at most. -/
theorem Session.content_borrows (s : Session) (name : String) :
    ∃ w, (s.content name).1.pipeline =
        { s.pipeline with workspace := s.pipeline.workspace.withWorld w } ∧
      s.pipeline.workspace.Borrows w := by
  have hsame : ∃ w, s.pipeline = { s.pipeline with workspace := s.pipeline.workspace.withWorld w } ∧
      s.pipeline.workspace.Borrows w := ⟨s.world, rfl, .inl (.refl _)⟩
  unfold content
  split
  · exact hsame
  split
  · exact hsame
  split
  · exact hsame
  · next e hengine =>
    exact ⟨_, rfl, .inr ⟨e, name, hengine, e.traces_renderNow _ _⟩⟩

namespace Lifetime

variable {l l' : Lifetime}

namespace Sound

theorem content {s : Session} {name : String} (h : l.Sound) (hs : s.pipeline = l.pipeline)
    (hidle : l.pipeline.isBusy = false) :
    Sound { l with pipeline := (s.content name).1.pipeline } := by
  obtain ⟨w, hcontent, hborrows⟩ := s.content_borrows name
  rw [hs] at hcontent hborrows
  rw [hcontent]
  have hrests : Rests { l with pipeline := { l.pipeline with
      workspace := l.pipeline.workspace.withWorld w } } := (h.rests hidle).congr rfl hborrows
  refine ⟨h.factory, ⟨h.spares.engine, h.spares.factory⟩, h.stage, ?_⟩
  cases h.latest with
  | opens t o ht hkind ho _ =>
    rw [Pipeline.isBusy_of_head? ht, Task.isRunning_eq_false] at hidle
    obtain ⟨hsettled, haccounts⟩ := hrests
    rw [Settled, ho] at hsettled
    refine .opens t o ht hkind ho (.ended ?_ hsettled haccounts)
    rw [hidle]
    rfl
  | exports hexports _ => exact .exports hexports hrests

theorem step (h : l.Sound) (hstep : l.Step l') : l'.Sound := by
  cases hstep with
  | accept hstart => exact h.accept hstart
  | work => exact h.work
  | poll => exact h.receives (l.pipeline.receives_poll _)
  | wait => exact h.receives (l.pipeline.receives_wait _)
  | supply hspares =>
    refine h.of_traces ⟨h.spares.engine, ?_⟩ nofun rfl (.refl _)
    intro f hf
    exact Option.some.inj hf ▸ hspares
  | surround htraces => exact h.of_traces ⟨h.spares.engine, h.spares.factory⟩ h.factory rfl htraces
  | content hs hidle => exact h.content hs hidle

theorem reaches (h : l.Sound) (hl : Relation.ReflTransGen Step l l') : l'.Sound := by
  induction hl with
  | refl => exact h
  | tail _ hstep ih => exact ih.step hstep

end Sound

/-- The course of tasks of a new pipeline, with some classes in its store. -/
def start (world : World) (store : Store) (factory : Factory) (delimiter extension : Text.Loose) :
    Lifetime :=
  ⟨⟨⟨world, store, none, some factory, delimiter, extension⟩, []⟩, none⟩

theorem sound_start {world : World} {factory : Factory} (hspares : factory.Spares)
    (hcalls : world.calls = []) (hengines : world.engines = 0) (store : Store)
    (delimiter extension : Text.Loose) :
    (start world store factory delimiter extension).Sound := by
  have hworkspace : (start world store factory delimiter extension).pipeline.workspace.Spares := by
    refine ⟨nofun, ?_⟩
    intro f hf
    exact Option.some.inj hf ▸ hspares
  refine ⟨Option.some_ne_none factory, hworkspace, ?_, .exports ?_ ⟨rfl, .start hcalls hengines⟩⟩
  · intro t ht
    cases ht
  · intro t ht
    cases ht

/-- Whatever tasks are run one after the other and whatever their engines throw, every engine is at
all times made first, only used then, and at last closed at most once.  Whenever no task is running,
all are closed but the one that is kept.  That one was made by the latest decompile task, if it has
succeeded; if it has failed, or there was none, no engine is kept. -/
theorem accounts_of_reaches {world : World} {factory : Factory} (hspares : factory.Spares)
    (hcalls : world.calls = []) (hengines : world.engines = 0) (store : Store)
    (delimiter extension : Text.Loose)
    (hl : Relation.ReflTransGen Step (start world store factory delimiter extension) l) :
    let s := l.pipeline.workspace
    (∀ n < s.world.engines, ∃ isOpen, IsLife (s.world.history n) isOpen) ∧
      (∀ n, s.world.engines ≤ n → s.world.history n = []) ∧
      (l.pipeline.isBusy = false →
        (∀ n < s.world.engines,
          IsLife (s.world.history n) (s.engine.map Engine.number = some n)) ∧
        match l.opening with
        | none => s.engine = none
        | some o =>
          (∃ result e, o.ended = [.success result] ∧ s.engine = some e ∧ e.number = o.engine ∧
              s.world.engines = o.engine + 1) ∨
            ∃ reason, o.ended = [.failure reason] ∧ s.engine = none) := by
  intro s
  have hsound := (sound_start hspares hcalls hengines store delimiter extension).reaches hl
  obtain ⟨opened, haccounts⟩ := hsound.accounts
  refine ⟨fun n hn => ⟨_, haccounts.lives n hn⟩, haccounts.unmade, ?_⟩
  intro hidle
  obtain ⟨hsettled, hrests⟩ := hsound.rests hidle
  refine ⟨hrests.lives, ?_⟩
  unfold Settled at hsettled
  split
  · next hopening =>
    rw [hopening] at hsettled
    exact hsettled
  · next o hopening =>
    rw [hopening] at hsettled
    cases hsettled with
    | kept result e hended hengine hnumber hlatest =>
      exact .inl ⟨result, e, hended, hengine, hnumber, hlatest⟩
    | closed reason hended hengine => exact .inr ⟨reason, hended, hengine⟩

/-! ## A course -/

/-- The course after a number of steps of the worker. -/
def works : Nat → Lifetime → Lifetime
  | 0, l => l
  | n + 1, l => works n l.worked

theorem reaches_works (n : Nat) (l : Lifetime) : Relation.ReflTransGen Step l (l.works n) := by
  induction n generalizing l with
  | zero => exact .refl
  | succ n ih => exact .head .work (ih _)

/-- The course in which a task was accepted when none was running. -/
def begun (l : Lifetime) (kind : TaskKind) (target : Path) : Lifetime :=
  l.accepted kind { l.pipeline with
    tasks := ⟨l.pipeline.tasks.length, kind, target, [], none, .ready⟩ :: l.pipeline.tasks }

theorem step_begun (hidle : l.pipeline.isBusy = false) (kind : TaskKind) (target : Path) :
    l.Step (l.begun kind target) :=
  .accept (Pipeline.start_of_idle hidle kind target)

namespace Sample

/-- An engine that reports a class without a text and then performs some more acts. -/
def engine (acts : List Act) : Factory := .script ⟨"", [], .unit "p/A" none :: acts, []⟩

theorem spares_engine {acts : List Act} (h : SparesWorker acts) : (engine acts).Spares := by
  refine ⟨sparesWorker_nil, ?_, nofun⟩
  intro t ht
  rcases List.mem_cons.1 ht with hunit | hacts
  · cases hunit
  · exact h t hacts

/-- An archive was opened. -/
def opened : Lifetime :=
  ((start (.start .empty {}) .empty (engine []) "/" ".java").begun .decompileArchive
    ⟨.relative, ["a.jar"]⟩).works 5

/-- The class in it was shown. -/
def shown : Lifetime :=
  let s : Session := ⟨.default, opened.pipeline, none, .empty⟩
  { opened with pipeline := (s.content "p/A").1.pipeline }

/-- The engine of the archive that was opened then has failed. -/
def failed : Lifetime :=
  let l : Lifetime := { shown with pipeline := { shown.pipeline with
    workspace := { shown.pipeline.workspace with
      factory := some (engine [.throw (.other "Exception" "x")]) } } }
  (l.begun .decompileArchive ⟨.relative, ["b.jar"]⟩).works 5

theorem reaches_failed : Relation.ReflTransGen Step
    (start (.start .empty {}) .empty (engine []) "/" ".java") failed := by
  refine .head (step_begun rfl .decompileArchive ⟨.relative, ["a.jar"]⟩) ?_
  refine (reaches_works 5 _).trans ?_
  refine .head (b := shown) (.content rfl rfl) ?_
  refine .head (.supply (spares_engine (sparesWorker_throw (.other "Exception" "x")))) ?_
  exact .head (step_begun rfl .decompileArchive ⟨.relative, ["b.jar"]⟩) (reaches_works 5 _)

end Sample

/-- Both engines are closed, the first one when it had been asked for a text. -/
theorem accounts_of_reaches_sample :
    let s := Sample.failed.pipeline.workspace
    s.engine = none ∧ ∀ n < 2, IsLife (s.world.history n) false := by
  intro s
  have hengines : s.world.engines = 2 := by decide +kernel
  have hopening : Sample.failed.opening = some ⟨1, [.failure "x"]⟩ := by decide +kernel
  obtain ⟨-, -, hidle⟩ := accounts_of_reaches (Sample.spares_engine sparesWorker_nil) rfl rfl
    .empty "/" ".java" Sample.reaches_failed
  obtain ⟨hlives, hkept⟩ := hidle rfl
  rw [hopening] at hkept
  have hengine : s.engine = none := by
    rcases hkept with ⟨result, e, hended, -⟩ | ⟨reason, -, hengine⟩
    · cases hended
    · exact hengine
  refine ⟨hengine, ?_⟩
  intro n hn
  have hlife : IsLife (s.world.history n) (s.engine.map Engine.number = some n) :=
    hlives n (hengines ▸ hn)
  rw [hengine] at hlife
  exact hlife

end Lifetime

end ClassBrowser
