import ClassBrowser.Proofs.Task.Completion
import ClassBrowser.Proofs.Task.Moves
import ClassBrowser.Session
import Mathlib.Data.List.Nodup
import Mathlib.Data.List.Range

/-!
# Requests to a session

What may happen to a session, in any order: requests for tasks, also while a worker is there, steps
of the latest worker, messages that are received, outcomes that are taken over.

A request of a valid kind is refused exactly while a worker is there, and there is never more than
one (`Pipeline.Orderly`).  A refused request leaves no trace: the session and all that is received
later are as they would be without it (`run_accepted`).
-/

namespace ClassBrowser

/-! ## The course of events -/

/-- A number of steps of the latest worker. -/
def Pipeline.work : Nat → Pipeline → Pipeline
  | 0, p => p
  | n + 1, p => work n p.step

namespace Session

/-- Starts a task whose worker is some steps ahead when the session takes note of it. -/
def startAhead (s : Session) (kind : TaskKind) (target : Path) (ahead : Nat) :
    Except RequestError Session := do
  let pipeline := (← s.pipeline.start kind target).work ahead
  match kind with
  | .decompileArchive =>
    let s : Session := { s with pipeline, archive := some target, tree := .empty }
    return s.withWorld (s.world.note ⟨.info, .session, s!"Opening {target}"⟩)
  | _ => return { s with pipeline }

/-- A task is usually started before its worker makes a step. -/
theorem startAhead_zero (s : Session) (kind : TaskKind) (target : Path) :
    s.startAhead kind target 0 = s.start kind target := by
  cases kind <;> rfl

/-- What may happen to a session.  A request by the name of its kind goes straight to the pipeline,
where the session does not take note of it. -/
inductive Event
  | request (kind : String) (target : Path)
  | start (kind : TaskKind) (target : Path) (ahead : Nat)
  | work
  | poll (task : Nat)
  | wait (task : Nat)
  | apply (outcome : Outcome)
  | supply (factory : Factory)

/-- What comes back of an event. -/
inductive Reply
  | done
  | refused (e : RequestError)
  | received (messages : List Message)
deriving DecidableEq

/-- Whether an event was a request that is refused. -/
def Reply.isRefusal : Reply → Bool
  | .refused _ => true
  | _ => false

/-- The session after a request, which raises an error where it is refused. -/
def requested (s : Session) : Except RequestError Session → Session × Reply
  | .ok t => (t, .done)
  | .error e => (s, .refused e)

/-- The session after an event, and what comes back. -/
def after (s : Session) : Event → Session × Reply
  | .request kind target => s.requested do
    let pipeline ← s.pipeline.request kind target
    return { s with pipeline }
  | .start kind target ahead => s.requested (s.startAhead kind target ahead)
  | .work => ({ s with pipeline := s.pipeline.step }, .done)
  | .poll task =>
    let (pipeline, messages) := s.pipeline.poll task
    ({ s with pipeline }, .received messages)
  | .wait task =>
    let (pipeline, messages) := s.pipeline.wait task
    ({ s with pipeline }, .received messages)
  | .apply outcome => (s.apply outcome, .done)
  | .supply factory =>
    let workspace := { s.pipeline.workspace with factory := some factory }
    ({ s with pipeline := { s.pipeline with workspace } }, .done)

/-- The session after a course of events, and all that comes back. -/
def run (s : Session) : List Event → Session × List Reply
  | [] => (s, [])
  | e :: rest =>
    let last := (s.after e).1.run rest
    (last.1, (s.after e).2 :: last.2)

/-- A course of events without the requests that are refused in it. -/
def accepted (s : Session) : List Event → List Event
  | [] => []
  | e :: rest =>
    let behind := (s.after e).1.accepted rest
    if (s.after e).2.isRefusal then behind else e :: behind

end Session

/-! ## One worker at a time -/

variable {p q : Pipeline} {t u : Task} {s : Session} {kind : TaskKind} {target : Path}

/-- Whether tasks are numbered as they came and the workers of all but the latest are gone. -/
structure Pipeline.Orderly (p : Pipeline) : Prop where
  numbers : p.tasks.map Task.number = (List.range p.tasks.length).reverse
  gone : ∀ t ∈ p.tasks.tail, t.isRunning = false

namespace Pipeline

theorem isBusy_eq_any (h : p.Orderly) : p.isBusy = p.tasks.any Task.isRunning := by
  obtain ⟨workspace, tasks⟩ := p
  cases tasks with
  | nil => rfl
  | cons t earlier =>
    have hgone : earlier.any Task.isRunning = false := by
      rw [List.any_eq_false]
      intro u hu
      rw [h.gone u hu]
      decide
    rw [List.any_cons, hgone, Bool.or_false]
    rfl

theorem Orderly.length_running_le (h : p.Orderly) :
    (p.tasks.filter Task.isRunning).length ≤ 1 := by
  obtain ⟨workspace, tasks⟩ := p
  cases tasks with
  | nil => simp
  | cons t earlier =>
    have hgone : earlier.filter Task.isRunning = [] := by
      rw [List.filter_eq_nil_iff]
      intro u hu
      rw [h.gone u hu]
      decide
    rw [List.filter_cons, hgone]
    split <;> simp

theorem orderly_nil (workspace : Workspace) : Orderly ⟨workspace, []⟩ :=
  ⟨rfl, by simp⟩

theorem Orderly.of_workspace (h : p.Orderly) (workspace : Workspace) :
    Orderly { p with workspace } :=
  ⟨h.numbers, h.gone⟩

theorem Orderly.start (h : p.Orderly) (hstart : p.start kind target = .ok q) : q.Orderly := by
  obtain ⟨hidle, rfl⟩ := start_eq_ok_iff.1 hstart
  refine ⟨?_, ?_⟩
  · rw [List.map_cons, h.numbers, List.length_cons, List.range_succ, List.reverse_append]
    rfl
  · intro t ht
    rw [isBusy_eq_any h, List.any_eq_false] at hidle
    exact Bool.not_eq_true _ ▸ hidle t ht

theorem Orderly.step (h : p.Orderly) : p.step.Orderly := by
  obtain ⟨workspace, tasks⟩ := p
  cases tasks with
  | nil => exact h
  | cons t earlier => exact ⟨h.numbers, h.gone⟩

theorem Orderly.work (h : p.Orderly) (n : Nat) : (work n p).Orderly := by
  induction n generalizing p with
  | zero => exact h
  | succ n ih => exact ih h.step

/-- What is received from a task changes nothing about the workers. -/
theorem Orderly.setTask (h : p.Orderly) (ht : t ∈ p.tasks) (hnumber : u.number = t.number)
    (hstage : u.stage = t.stage) : (p.setTask u).Orderly := by
  have hnodup : (p.tasks.map Task.number).Nodup := by
    rw [h.numbers]
    exact List.nodup_reverse.2 List.nodup_range
  refine ⟨?_, ?_⟩
  · rw [Pipeline.setTask, List.map_map, List.length_map, ← h.numbers]
    apply List.map_congr_left
    intro v hv
    by_cases hsame : v.number = u.number <;> simp [hsame]
  · intro v hv
    rw [Pipeline.setTask, ← List.map_tail, List.mem_map] at hv
    obtain ⟨w, hw, rfl⟩ := hv
    have hgone := h.gone w hw
    by_cases hsame : w.number = u.number
    · -- numbers differ, so the task that is replaced is the one that was read
      obtain rfl : w = t := List.inj_on_of_nodup_map hnodup (List.mem_of_mem_tail hw) ht
        (hsame.trans hnumber)
      rw [if_pos (by simpa using hsame), Task.isRunning, hstage]
      exact hgone
    · rw [if_neg (by simpa using hsame)]
      exact hgone

theorem mem_of_task? {number : Nat} (h : p.task? number = some t) : t ∈ p.tasks :=
  List.mem_of_find?_eq_some h

theorem Orderly.poll (h : p.Orderly) (number : Nat) : (p.poll number).1.Orderly := by
  unfold Pipeline.poll
  split
  · exact h
  · next t ht => exact h.setTask (mem_of_task? ht) rfl rfl

theorem Orderly.wait (h : p.Orderly) (number : Nat) : (p.wait number).1.Orderly := by
  unfold Pipeline.wait
  split
  · exact h
  · next t ht =>
    refine h.setTask (mem_of_task? ht) ?_ ?_
    · rw [Task.wait]
      split <;> rfl
    · rw [Task.wait]
      split <;> rfl

end Pipeline

namespace Session

/-- A task that was started has its worker ahead; where an archive is opened, that is logged. -/
theorem exists_of_startAhead {ahead : Nat} {t : Session}
    (hstart : s.startAhead kind target ahead = .ok t) :
    ∃ p, s.pipeline.start kind target = .ok p ∧ (t.pipeline = p.work ahead ∨
      ∃ record, t.pipeline = { p.work ahead with
        workspace := (p.work ahead).workspace.withWorld
          ((p.work ahead).workspace.world.note record) }) := by
  unfold startAhead at hstart
  cases hpipeline : s.pipeline.start kind target with
  | error e =>
    rw [hpipeline] at hstart
    cases hstart
  | ok p =>
    rw [hpipeline] at hstart
    refine ⟨p, rfl, ?_⟩
    cases kind <;> cases hstart
    · exact .inr ⟨_, rfl⟩
    · exact .inl rfl
    · exact .inl rfl

theorem orderly_of_startAhead {ahead : Nat} {t : Session} (h : s.pipeline.Orderly)
    (hstart : s.startAhead kind target ahead = .ok t) : t.pipeline.Orderly := by
  obtain ⟨p, hpipeline, hahead | ⟨record, hahead⟩⟩ := exists_of_startAhead hstart
  · rw [hahead]
    exact (h.start hpipeline).work ahead
  · rw [hahead]
    exact ((h.start hpipeline).work ahead).of_workspace _

theorem orderly_of_request {name : String} (h : s.pipeline.Orderly)
    (hrequest : s.pipeline.request name target = .ok p) : p.Orderly := by
  unfold Pipeline.request at hrequest
  split at hrequest
  · cases hrequest
  · exact h.start hrequest

theorem orderly_apply (h : s.pipeline.Orderly) (outcome : Outcome) :
    (s.apply outcome).pipeline.Orderly := by
  have hrecover : s.recoverTree.pipeline.Orderly := by
    unfold recoverTree
    split
    · exact h.of_workspace _
    · exact h
  unfold Session.apply
  split
  · exact h
  · exact hrecover

/-- No event brings a second worker. -/
theorem orderly_after (h : s.pipeline.Orderly) (e : Event) : (s.after e).1.pipeline.Orderly := by
  cases e with
  | request name target =>
    rw [after]
    cases hrequest : s.pipeline.request name target with
    | error e => exact h
    | ok p => exact orderly_of_request h hrequest
  | start kind target ahead =>
    rw [after]
    cases hstart : s.startAhead kind target ahead with
    | error e => exact h
    | ok t => exact orderly_of_startAhead h hstart
  | work => exact h.step
  | poll task => exact h.poll task
  | wait task => exact h.wait task
  | apply outcome => exact orderly_apply h outcome
  | supply factory => exact h.of_workspace _

theorem orderly_run (h : s.pipeline.Orderly) (events : List Event) :
    (s.run events).1.pipeline.Orderly := by
  induction events generalizing s with
  | nil => exact h
  | cons e rest ih => exact ih (orderly_after h e)

/-! ## Refused requests -/

/-- The reply to a request for a task. -/
theorem after_start (h : s.pipeline.Orderly) (kind : TaskKind) (target : Path) (ahead : Nat) :
    (s.after (.start kind target ahead)).2 =
      if s.pipeline.tasks.any Task.isRunning then .refused .busy else .done := by
  rw [after, startAhead, Pipeline.start, ← Pipeline.isBusy_eq_any h]
  split
  · rfl
  · cases kind <;> rfl

/-- The reply to a request by the name of its kind. -/
theorem after_request (h : s.pipeline.Orderly) (name : String) (target : Path) :
    (s.after (.request name target)).2 =
      match TaskKind.ofName? name with
      | none => .refused (.unknownKind name)
      | some _ => if s.pipeline.tasks.any Task.isRunning then .refused .busy else .done := by
  rw [after, Pipeline.request]
  cases TaskKind.ofName? name with
  | none => rfl
  | some kind =>
    dsimp only
    rw [Pipeline.start, ← Pipeline.isBusy_eq_any h]
    split <;> rfl

theorem fst_requested_of_refused {r : Except RequestError Session} {e : RequestError}
    (h : (s.requested r).2 = .refused e) : (s.requested r).1 = s := by
  cases r with
  | error e => rfl
  | ok t => cases h

/-- A refused request changes nothing. -/
theorem fst_after_of_refused {ev : Event} {e : RequestError} (h : (s.after ev).2 = .refused e) :
    (s.after ev).1 = s := by
  cases ev with
  | request => exact fst_requested_of_refused h
  | start => exact fst_requested_of_refused h
  | _ => cases h

/-- Without the refused requests, a course of events leads to the same session, and all else that
comes back is the same. -/
theorem run_accepted (s : Session) (events : List Event) :
    s.run (s.accepted events) =
      ((s.run events).1, (s.run events).2.filter fun reply => !reply.isRefusal) := by
  induction events generalizing s with
  | nil => rfl
  | cons e rest ih =>
    rw [accepted, run]
    dsimp only
    by_cases hrefusal : (s.after e).2.isRefusal = true
    · have hsame : (s.after e).1 = s := by
        cases hreply : (s.after e).2 with
        | refused error => exact fst_after_of_refused hreply
        | done => simp [hreply, Reply.isRefusal] at hrefusal
        | received messages => simp [hreply, Reply.isRefusal] at hrefusal
      rw [if_pos hrefusal, List.filter_cons_of_neg (by simp [hrefusal]), hsame, ih s]
    · rw [if_neg hrefusal, List.filter_cons_of_pos (by simpa using hrefusal), run, ih]

end Session

/-! ## Workers that die -/

/-- Whether the next act of an engine kills the worker.  In an export the target is closed first,
and if that fails, the worker lives to report it. -/
def Stage.isDying (s : Workspace) : Stage → Bool
  | .adding _ (.abort _ :: _) | .decompiling _ (.abort _ :: _) _ _ => true
  | .rendering x _ (.abort _ :: _) _ => (s.closeFailure? x.writer).isNone
  | _ => false

/-- A worker that dies is gone and sends nothing. -/
theorem Workspace.advance_of_isDying {s : Workspace} {stage : Stage} (h : stage.isDying s = true) :
    (s.advance kind target stage).stage = .finished ∧ (s.advance kind target stage).sent = [] := by
  unfold Stage.isDying at h
  split at h
  · exact ⟨rfl, rfl⟩
  · exact ⟨rfl, rfl⟩
  · next x name t rest text =>
    have hmove : s.Moves kind target (.rendering x name (.abort t :: rest) text) _ :=
      .deserted (Option.isNone_iff_eq_none.1 h)
    rw [← hmove.eq_advance]
    exact ⟨rfl, rfl⟩
  · cases h

namespace Session

theorem any_isRunning_of_isDying (h : s.pipeline.Orderly) {earlier : List Task}
    (htasks : s.pipeline.tasks = t :: earlier)
    (hdying : t.stage.isDying s.pipeline.workspace = true) :
    (s.after .work).1.pipeline.tasks.any Task.isRunning = false := by
  obtain ⟨hstage, -⟩ := @Workspace.advance_of_isDying t.kind t.target _ _ hdying
  rw [← Pipeline.isBusy_eq_any (orderly_after h .work)]
  have hstep : s.pipeline.step.isBusy =
      !(s.pipeline.workspace.advance t.kind t.target t.stage).stage.isFinished := by
    rw [Pipeline.step, htasks]
    rfl
  show s.pipeline.step.isBusy = false
  rw [hstep, hstage]
  rfl

/-- In every course of events of a session there is at most one worker at a time.  A request of a
valid kind is refused exactly while there is one; a worker that dies without an outcome is gone.
Any refused request leaves the session as it was, and without the refused requests all that comes
after them is the same. -/
theorem run_new_exclusive (settings : Settings) (factory : Option Factory) (world : World)
    (events : List Event) :
    let start := Session.new settings factory world
    let s := (start.run events).1
    (s.pipeline.tasks.filter Task.isRunning).length ≤ 1 ∧
      (∀ kind target ahead, (s.after (.start kind target ahead)).2 =
        if s.pipeline.tasks.any Task.isRunning then .refused .busy else .done) ∧
      (∀ name target, (s.after (.request name target)).2 =
        match TaskKind.ofName? name with
        | none => .refused (.unknownKind name)
        | some _ => if s.pipeline.tasks.any Task.isRunning then .refused .busy else .done) ∧
      (∀ t earlier, s.pipeline.tasks = t :: earlier →
        t.stage.isDying s.pipeline.workspace = true →
        (s.pipeline.workspace.advance t.kind t.target t.stage).sent = [] ∧
        (s.after .work).1.pipeline.tasks.any Task.isRunning = false) ∧
      (∀ e error, (s.after e).2 = .refused error → (s.after e).1 = s) ∧
      start.run (start.accepted events) =
        (s, (start.run events).2.filter fun reply => !reply.isRefusal) := by
  intro start s
  have horderly : s.pipeline.Orderly := orderly_run (Pipeline.orderly_nil _) events
  refine ⟨horderly.length_running_le, after_start horderly, after_request horderly, ?_, ?_,
    run_accepted start events⟩
  · intro t earlier htasks hdying
    exact ⟨(Workspace.advance_of_isDying hdying).2,
      any_isRunning_of_isDying horderly htasks hdying⟩
  · intro e error hrefused
    exact fst_after_of_refused hrefused

end Session

end ClassBrowser
