import ClassBrowser.Proofs.Engine.Reports
import ClassBrowser.Proofs.Task.Completion
import ClassBrowser.Proofs.Task.Steps

/-!
# Workers that survive

Whatever an engine throws becomes the outcome of its task, an abort apart, which costs the worker.
Where nothing aborts, a worker is not gone before it has sent the outcome: from every stage on it
sends progress reports and then one outcome (`Completes.isReport`), and as its steps come to an end
(`exists_completes`), it does send it.
-/

namespace ClassBrowser

/-! ## What costs a worker -/

/-- Whether none of some acts costs the worker. -/
def SparesWorker (acts : List Act) : Prop := ∀ t, .abort t ∉ acts

/-- Whether a script never costs the worker. -/
structure Script.Spares (s : Script) : Prop where
  source : SparesWorker s.source
  steps : SparesWorker s.steps
  rendered : ∀ name r, s.rendered.get? name = some r → SparesWorker r.acts

/-- Whether an engine of a kind never costs the worker. -/
def Machine.Spares : Machine → Prop
  | .script s => s.Spares
  | .decompiler _ => True

/-- Whether an engine that is made never costs the worker. -/
def Factory.Spares : Factory → Prop
  | .script s => s.Spares
  | .decompiler _ | .broken _ => True

/-- Whether no engine that is there or is made later costs the worker. -/
structure Workspace.Spares (s : Workspace) : Prop where
  engine : ∀ e, s.engine = some e → e.machine.Spares
  factory : ∀ f, s.factory = some f → f.Spares

/-- Whether neither the acts that are left nor the engine that is at work cost the worker. -/
def Stage.Spares : Stage → Prop
  | .adding e acts | .decompiling e acts _ _ => e.machine.Spares ∧ SparesWorker acts
  | .rendering _ _ acts _ => SparesWorker acts
  | _ => True

/-! ## Engines -/

variable {w w' : World} {e : Engine} {d d' : Decompiler} {act : Act} {acts : List Act}

theorem SparesWorker.tail (h : SparesWorker (act :: acts)) : SparesWorker acts := fun t ht =>
  h t (List.mem_cons_of_mem _ ht)

theorem sparesWorker_nil : SparesWorker [] := fun _ => List.not_mem_nil

theorem sparesWorker_throw (t : Thrown) : SparesWorker [.throw t] := by
  intro u hu
  exact nomatch List.mem_singleton.1 hu

namespace Decompiler

theorem sparesWorker_reports (d : Decompiler) (fs : Files) : SparesWorker (d.reports fs) := by
  intro t ht
  rw [reports, List.mem_cons] at ht
  obtain htotal | hreport := ht
  · cases htotal
  · obtain ⟨name, -, hname⟩ := List.mem_flatMap.1 (Act.mem_of_mem_performed hreport)
    obtain ⟨e, -, -, h⟩ | ⟨-, ⟨text, -, h⟩ | ⟨-, h | ⟨record, h⟩⟩⟩ := d.report_cases fs name
    all_goals simp [h] at hname

end Decompiler

namespace Engine

theorem spares_of_script {s : Script} (h : e.machine.Spares) (hs : e.machine = .script s) :
    s.Spares := by
  rw [hs] at h
  exact h

theorem spares_addSource (h : e.machine.Spares) (w : World) (archive : Path) :
    (e.addSource w archive).2.1.machine.Spares ∧ SparesWorker (e.addSource w archive).2.2 := by
  unfold addSource
  dsimp only
  split
  · next s hs =>
    exact ⟨h, (spares_of_script h hs).source⟩
  · split
    · exact ⟨trivial, sparesWorker_nil⟩
    · exact ⟨h, sparesWorker_throw _⟩

theorem spares_decompile (h : e.machine.Spares) (w : World) :
    (e.decompile w).2.1.machine.Spares ∧ SparesWorker (e.decompile w).2.2 := by
  unfold decompile
  dsimp only
  split
  · next s hs =>
    exact ⟨h, (spares_of_script h hs).steps⟩
  · next d _ =>
    refine ⟨trivial, ?_⟩
    rcases hrun : d.decompile (e.trace w .decompile) with ⟨w', d', outcome⟩
    cases outcome with
    | error t => exact sparesWorker_throw _
    | ok acts =>
      obtain ⟨-, -, -, -, -, rfl⟩ := Decompiler.exists_of_decompile hrun
      exact d'.sparesWorker_reports w'.files

theorem spares_render (h : e.machine.Spares) (w : World) (name : String) :
    SparesWorker (e.render w name).2.1 := by
  unfold render
  dsimp only
  split
  · next s hs =>
    split
    · exact sparesWorker_nil
    · next r hget => exact (spares_of_script h hs).rendered name r hget
  · split
    · exact sparesWorker_nil
    · exact sparesWorker_throw _

end Engine

namespace Stage.Spares

variable {stage : Stage}

theorem sparesWorker (h : stage.Spares) : SparesWorker stage.acts := by
  cases stage with
  | adding => exact h.2
  | decompiling => exact h.2
  | rendering => exact h
  | _ => exact sparesWorker_nil

theorem withActs (h : stage.Spares) (hacts : stage.acts = act :: acts) :
    (stage.withActs acts).Spares := by
  have hrest : SparesWorker acts := SparesWorker.tail (hacts ▸ h.sparesWorker)
  cases stage with
  | adding => exact ⟨h.1, hrest⟩
  | decompiling => exact ⟨h.1, hrest⟩
  | rendering => exact hrest
  | _ => trivial

end Stage.Spares

theorem Factory.spares_make {f : Factory} (h : f.Spares) (hmake : f.make w = (w', .ok e)) :
    e.machine.Spares := by
  cases f with
  | script s =>
    cases hmake
    exact h
  | decompiler s =>
    cases hmake
    trivial
  | broken t => cases hmake

/-! ## Steps -/

variable {s s' : Workspace} {kind : TaskKind} {target : Path} {stage : Stage} {sent : List Message}

/-- Whether a step has left the worker there, and nothing is to come that costs it. -/
structure Advance.Spares (a : Advance) : Prop where
  workspace : a.workspace.Spares
  stage : a.stage.Spares
  left : a.stage ≠ .finished

namespace Workspace

theorem Spares.withWorld (h : s.Spares) (w : World) : (s.withWorld w).Spares :=
  ⟨h.engine, h.factory⟩

theorem Spares.cleared (h : s.Spares) (archive : Path) : (s.cleared archive).Spares := by
  rw [cleared_eq]
  exact ⟨nofun, h.factory⟩

/-- A worker that nothing costs is still there after a move, unless it has come to its end. -/
theorem Moves.spares {a : Advance} (hmove : s.Moves kind target stage a) (h : s.Spares)
    (hstage : stage.Spares) (hover : stage.isOver = false) : a.Spares := by
  have hgoes (acts : List Act) : stage.withActs acts ≠ .finished :=
    (Stage.ne_of_isOver ((stage.isOver_withActs acts).trans hover)).2
  cases hmove with
  | unmade => exact ⟨(h.cleared target).withWorld _, trivial, nofun⟩
  | made _ hfactory hmake =>
    have hmade := Factory.spares_make (h.factory _ hfactory) hmake
    exact ⟨(h.cleared target).withWorld _, Engine.spares_addSource hmade _ target, nofun⟩
  | added => exact ⟨h.withWorld _, Engine.spares_decompile hstage.1 _, nofun⟩
  | unit => exact ⟨⟨h.engine, h.factory⟩, ⟨hstage.1, hstage.2.tail⟩, nofun⟩
  | total => exact ⟨h, ⟨hstage.1, hstage.2.tail⟩, nofun⟩
  | decompiled =>
    refine ⟨⟨?_, h.factory⟩, trivial, nofun⟩
    rintro e' ⟨⟩
    exact hstage.1
  | lost _ hacts => exact absurd (hacts ▸ List.mem_cons_self) (hstage.sparesWorker _)
  | noted hacts => exact ⟨h.withWorld _, hstage.withActs hacts, hgoes _⟩
  | passed hacts => exact ⟨h, hstage.withActs hacts, hgoes _⟩
  | asked _ _ hengine =>
    exact ⟨h.withWorld _, Engine.spares_render (h.engine _ hengine) _ _, nofun⟩
  | deserted | rescued => exact absurd List.mem_cons_self (hstage _)
  | ended hends => cases hends.symm.trans hover
  | unconfigured | threw | unopened | opened | skipped | written | unwritten | refused | exported
  | unclosed =>
    exact ⟨h.withWorld _, trivial, nofun⟩

/-- A worker that nothing costs is still there after a step, unless it has come to its end. -/
theorem Spares.advance (h : s.Spares) (hstage : stage.Spares) (hover : stage.isOver = false)
    (kind : TaskKind) (target : Path) : (s.advance kind target stage).Spares :=
  (s.moves_advance kind target stage).spares h hstage hover

/-- A worker that nothing costs goes on to be one, up to its end. -/
theorem Spares.advance_both (h : s.Spares) (hstage : stage.Spares) (kind : TaskKind)
    (target : Path) :
    (s.advance kind target stage).workspace.Spares ∧
      (s.advance kind target stage).stage.Spares := by
  cases hover : stage.isOver with
  | true =>
    rw [advance_of_isOver hover]
    exact ⟨h, trivial⟩
  | false =>
    have hadvance := h.advance hstage hover kind target
    exact ⟨hadvance.workspace, hadvance.stage⟩

end Workspace

/-! ## Whole tasks -/

/-- The steps of a worker come to an end. -/
theorem exists_completes (kind : TaskKind) (target : Path) (s : Workspace) (stage : Stage) :
    ∃ s' sent, Completes kind target s stage s' sent := by
  by_cases hstage : stage = .finished
  · exact ⟨s, [], hstage ▸ .finished s⟩
  · obtain ⟨s', sent, hrest⟩ := exists_completes kind target
      (s.advance kind target stage).workspace (s.advance kind target stage).stage
    exact ⟨s', _, .step hstage hrest⟩
termination_by stage.rank
decreasing_by exact s.rank_advance_lt kind target stage hstage

/-- A worker that has come to the end of its task sends nothing more. -/
theorem Completes.eq_nil (h : Completes kind target s stage s' sent) (hover : stage.isOver = true) :
    sent = [] := by
  induction h with
  | finished => rfl
  | @step s s' stage sent hstage rest ih =>
    rw [Workspace.advance_of_isOver hover] at ih ⊢
    exact ih rfl

/-- A worker that nothing costs sends progress reports and then one outcome. -/
theorem Completes.isReport (h : Completes kind target s stage s' sent) (hs : s.Spares)
    (hstage : stage.Spares) (hover : stage.isOver = false) : ∃ o, IsReport sent o := by
  induction h with
  | finished => cases hover
  | @step s s' stage sent _ rest ih =>
    have hspares := hs.advance hstage hover kind target
    rcases (s.isStep_advance kind target stage).sends with
      ⟨hsent, hnext⟩ | ⟨p, hsent, hnext⟩ | ⟨o, hsent, hnext, -⟩
    · have hgoes : (s.advance kind target stage).stage.isOver = false := by
        cases hst : (s.advance kind target stage).stage with
        | reported => exact absurd hst hnext
        | finished => exact absurd hst hspares.left
        | _ => rfl
      rw [hsent]
      exact ih hspares.workspace hspares.stage hgoes
    · obtain ⟨o, ho⟩ := ih hspares.workspace hspares.stage hnext
      rw [hsent]
      exact ⟨o, ho.cons p⟩
    · obtain rfl := rest.eq_nil (by rw [hnext]; rfl)
      rw [hsent]
      exact ⟨o, isReport_singleton o⟩

end ClassBrowser
