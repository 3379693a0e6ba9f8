import ClassBrowser.Task.Run

/-!
# Tasks that run to their end

`Completes` follows a worker from a stage to its end: what it leaves of the workspace and all that
it sends.  Letting the pipeline finish gives just that (`Pipeline.finish_eq`), so what a task does
is shown stage by stage, by deriving `Completes` for each of them.
-/

namespace ClassBrowser

/-- From a stage on, the worker of a task leaves the workspace `s'` and sends `sent`. -/
inductive Completes (kind : TaskKind) (target : Path) :
    Workspace → Stage → Workspace → List Message → Prop
  | finished (s : Workspace) : Completes kind target s .finished s []
  | step {s s' : Workspace} {stage : Stage} {sent : List Message} (hstage : stage ≠ .finished)
      (rest : Completes kind target (s.advance kind target stage).workspace
        (s.advance kind target stage).stage s' sent) :
      Completes kind target s stage s' ((s.advance kind target stage).sent ++ sent)

/-- Messages that are progress reports with one outcome behind them. -/
def IsReport (sent : List Message) (outcome : Outcome) : Prop :=
  ∃ progress, sent = progress ++ [.finished outcome] ∧ ∀ m ∈ progress, m.outcome? = none

variable {kind : TaskKind} {target : Path} {s s' : Workspace} {stage : Stage}
  {sent : List Message} {outcome : Outcome} {a : Advance}

/-! ## Steps -/

/-- What a worker does from the end of a step on, with what the step has sent. -/
def Advance.Ends (a : Advance) (kind : TaskKind) (target : Path) (s' : Workspace)
    (sent : List Message) : Prop :=
  ∃ rest, Completes kind target a.workspace a.stage s' rest ∧ sent = a.sent ++ rest

theorem Completes.of_ends (hstage : stage ≠ .finished)
    (h : (s.advance kind target stage).Ends kind target s' sent) :
    Completes kind target s stage s' sent := by
  obtain ⟨rest, hrest, rfl⟩ := h
  exact .step hstage hrest

theorem completes_reported (s : Workspace) : Completes kind target s .reported s [] :=
  @Completes.step kind target s s .reported [] (by simp) (.finished s)

theorem ends_silently (h : Completes kind target s stage s' sent) :
    (s.silently stage).Ends kind target s' sent :=
  ⟨sent, h, rfl⟩

theorem ends_fail (s : Workspace) (kind : TaskKind) (target : Path) (f : TaskFailure) :
    (s.fail kind f).Ends kind target (s.fail kind f).workspace [.finished (.failure f.reason)] :=
  ⟨[], completes_reported _, rfl⟩

theorem ends_succeed (s : Workspace) (kind : TaskKind) (target : Path) (r : TaskResult) :
    (s.succeed r).Ends kind target s [.finished (.success (some r))] :=
  ⟨[], completes_reported _, rfl⟩

theorem isReport_singleton (outcome : Outcome) : IsReport [.finished outcome] outcome :=
  ⟨[], rfl, by simp⟩

theorem IsReport.cons (h : IsReport sent outcome) (p : Progress) :
    IsReport (.progress p :: sent) outcome := by
  obtain ⟨progress, rfl, hprogress⟩ := h
  exact ⟨.progress p :: progress, rfl, List.forall_mem_cons.2 ⟨rfl, hprogress⟩⟩

/-! ## Stretches of a task -/

/-- From one stage on, the worker of a task comes to another one and sends `sent` on the way. -/
inductive Leads (kind : TaskKind) (target : Path) :
    Workspace → Stage → List Message → Workspace → Stage → Prop
  | refl (s : Workspace) (stage : Stage) : Leads kind target s stage [] s stage
  | step {s s' : Workspace} {stage stage' : Stage} {sent : List Message}
      (rest : Leads kind target (s.advance kind target stage).workspace
        (s.advance kind target stage).stage sent s' stage') :
      Leads kind target s stage ((s.advance kind target stage).sent ++ sent) s' stage'

namespace Leads

variable {s₁ s₂ : Workspace} {stage₁ stage₂ : Stage} {sent₁ sent₂ : List Message}

theorem trans (h₁ : Leads kind target s stage sent₁ s₁ stage₁)
    (h₂ : Leads kind target s₁ stage₁ sent₂ s₂ stage₂) :
    Leads kind target s stage (sent₁ ++ sent₂) s₂ stage₂ := by
  induction h₁ with
  | refl => exact h₂
  | step rest ih =>
    rw [List.append_assoc]
    exact .step (ih h₂)

/-- A task goes on from where a stretch of it has led. -/
theorem completes (h : Leads kind target s stage sent₁ s₁ stage₁)
    (hrest : Completes kind target s₁ stage₁ s' sent₂) :
    Completes kind target s stage s' (sent₁ ++ sent₂) := by
  induction h with
  | refl => exact hrest
  | @step s _ stage _ sent _ ih =>
    rw [List.append_assoc]
    by_cases hstage : stage = .finished
    · subst hstage
      exact ih hrest
    · exact .step hstage (ih hrest)

end Leads

/-- From one stage on, the worker of a task comes to the end of a step, which has sent all that was
sent on the way. -/
def LeadsTo (kind : TaskKind) (target : Path) (s : Workspace) (stage : Stage) (a : Advance) :
    Prop :=
  Leads kind target s stage a.sent a.workspace a.stage

theorem leadsTo_advance (s : Workspace) (kind : TaskKind) (target : Path) (stage : Stage) :
    LeadsTo kind target s stage (s.advance kind target stage) := by
  have hstep : Leads kind target s stage ((s.advance kind target stage).sent ++ []) _ _ :=
    .step (.refl _ _)
  rwa [List.append_nil] at hstep

theorem LeadsTo.of_advance (h : s.advance kind target stage = a) : LeadsTo kind target s stage a :=
  h ▸ leadsTo_advance s kind target stage

/-- A step that sends nothing leads on to wherever the next stage leads. -/
theorem LeadsTo.silently {next : Stage} (h : s.advance kind target stage = s'.silently next)
    (hnext : LeadsTo kind target s' next a) : LeadsTo kind target s stage a :=
  Leads.trans (of_advance h) hnext

/-! ## The pipeline -/

namespace Pipeline

variable {workspace : Workspace} {t : Task} {earlier : List Task}

/-- The pipeline has finished when its latest worker has run to its end. -/
theorem finish_eq (h : Completes t.kind t.target workspace t.stage s' sent) :
    finish ⟨workspace, t :: earlier⟩ =
      ⟨s', { t with stage := .finished, queue := t.queue ++ sent } :: earlier⟩ := by
  obtain ⟨number, kind, target, queue, received, stage⟩ := t
  dsimp only at h
  induction h generalizing queue with
  | finished s =>
    rw [finish, if_neg (by simp [isBusy, Task.isRunning, Stage.isFinished])]
    simp
  | @step s s' stage sent hstage rest ih =>
    have hbusy : (⟨s, ⟨number, kind, target, queue, received, stage⟩ :: earlier⟩ :
        Pipeline).isBusy = true := by
      cases stage <;> first | rfl | exact absurd rfl hstage
    rw [finish, if_pos hbusy, step, ih, List.append_assoc]

theorem throughOutcome_eq (h : IsReport sent outcome) : Task.throughOutcome sent = sent := by
  obtain ⟨progress, rfl, hprogress⟩ := h
  induction progress with
  | nil => rfl
  | cons m progress ih =>
    obtain ⟨hm, hrest⟩ := List.forall_mem_cons.1 hprogress
    rw [List.cons_append, Task.throughOutcome, hm, ih hrest]
    rfl

theorem findSome?_outcome? (h : IsReport sent outcome) :
    sent.findSome? Message.outcome? = some outcome := by
  obtain ⟨progress, rfl, hprogress⟩ := h
  have hnone : progress.findSome? Message.outcome? = none := List.findSome?_eq_none_iff.2 hprogress
  rw [List.findSome?_append, hnone]
  rfl

/-- The messages of a task that has run to its end are all received, and the next task may start. -/
theorem receiveLatest_eq (hqueue : IsReport t.queue outcome) (houtcome : t.outcome = none)
    (hstage : t.stage = .finished) :
    ∃ p : Pipeline, p.workspace = workspace ∧ p.isBusy = false ∧
      receiveLatest ⟨workspace, t :: earlier⟩ = (p, t.queue) := by
  have hfind : task? ⟨workspace, t :: earlier⟩ t.number = some t := by
    simp [task?]
  have hwait : t.wait.2 = t.queue := by
    rw [Task.wait, Task.isDone, houtcome]
    exact throughOutcome_eq hqueue
  have hnumber : t.wait.1.number = t.number := by
    rw [Task.wait]
    split <;> rfl
  have hrunning : t.wait.1.isRunning = false := by
    rw [Task.wait]
    split <;> simp [Task.isRunning, hstage, Stage.isFinished]
  refine ⟨setTask ⟨workspace, t :: earlier⟩ t.wait.1, rfl, ?_, ?_⟩
  · rw [setTask, List.map_cons, isBusy]
    simp [hnumber, hrunning]
  · show wait ⟨workspace, t :: earlier⟩ t.number = _
    unfold wait
    simp only [hfind, hwait]

theorem start_of_idle {p : Pipeline} (h : p.isBusy = false) (kind : TaskKind) (target : Path) :
    p.start kind target =
      .ok { p with tasks := ⟨p.tasks.length, kind, target, [], none, .ready⟩ :: p.tasks } := by
  rw [start, h]
  rfl

/-- A task is started if and only if no worker is there; then it is the latest one. -/
theorem start_eq_ok_iff {p q : Pipeline} : p.start kind target = .ok q ↔ p.isBusy = false ∧
    q = { p with tasks := ⟨p.tasks.length, kind, target, [], none, .ready⟩ :: p.tasks } := by
  unfold start
  cases p.isBusy <;> simp [eq_comm]

/-- Runs a task: starts it, lets its worker come to its end, and receives what was sent. -/
def perform (p : Pipeline) (kind : TaskKind) (target : Path) :
    Except RequestError (Pipeline × List Message) := do
  return (← p.start kind target).finish.receiveLatest

/-- A task that is run leaves what its worker leaves, and all its messages are received. -/
theorem perform_eq {p : Pipeline} (hidle : p.isBusy = false)
    (hcompletes : Completes kind target p.workspace .ready s' sent)
    (hreport : IsReport sent outcome) :
    ∃ q, p.perform kind target = .ok (q, sent) ∧ q.workspace = s' ∧ q.isBusy = false := by
  let t : Task := ⟨p.tasks.length, kind, target, [], none, .ready⟩
  have hfinish : finish { p with tasks := t :: p.tasks } =
      ⟨s', { t with stage := .finished, queue := sent } :: p.tasks⟩ :=
    @finish_eq s' sent p.workspace t p.tasks hcompletes
  obtain ⟨q, hq, hqidle, hreceive⟩ := @receiveLatest_eq outcome s'
    { t with stage := .finished, queue := sent } p.tasks hreport rfl rfl
  refine ⟨q, ?_, hq, hqidle⟩
  rw [perform, start_of_idle hidle]
  show (Except.ok (receiveLatest (finish { p with tasks := t :: p.tasks })) :
    Except RequestError _) = _
  rw [hfinish, hreceive]

end Pipeline

end ClassBrowser
