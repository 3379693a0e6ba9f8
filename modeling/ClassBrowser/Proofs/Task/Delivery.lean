import ClassBrowser.Proofs.Task.Receiving
import ClassBrowser.Proofs.Task.Survival
import Mathlib.Logic.Relation

/-!
# Delivery of messages

A worker and whoever receives its messages take their steps in any order, and messages are received
in any portions, by polling and by calls that wait.  The two sides have only the queue and the known
outcome in common, and what was sent is at all times what was received with the queue behind it
(`Delivery.Sound`).  The outcome is sent before the worker is gone, so that a call that waits joins
the worker once it knows the outcome; when it returns, all is delivered and a further task may
start.

A call that waits is taken apart here: it receives in portions, between which the worker goes on,
then it joins the worker, and then it returns.  `Task.wait` is such a call that finds all there is
to find at once (`Delivery.Sound.reaches_wait`).
-/

namespace ClassBrowser

variable {t u : Task} {s s' : Workspace} {o o' : Outcome} {p q : Pipeline} {kind : TaskKind}
  {target : Path} {stage : Stage} {sent messages rest whole : List Message}

/-! ## Portions of a queue -/

namespace Task

/-- Receives a number of messages from the queue. -/
def receive (t : Task) (n : Nat) : Task × List Message :=
  ({ t with
      queue := t.queue.drop n, outcome := received t.outcome (t.queue.take n) }, t.queue.take n)

theorem poll_eq_receive (t : Task) : ∃ n, t.poll = t.receive n :=
  ⟨t.queue.length, by rw [poll, receive, List.drop_length, List.take_length]⟩

theorem wait_eq_receive (t : Task) : ∃ n, t.wait = t.receive n := by
  unfold wait
  split
  · exact ⟨0, rfl⟩
  · refine ⟨(throughOutcome t.queue).length, ?_⟩
    rw [receive, ← List.prefix_iff_eq_take.1 (throughOutcome_isPrefix t.queue)]

theorem received_append (known : Option Outcome) (messages rest : List Message) :
    received known (messages ++ rest) = received (received known messages) rest :=
  List.foldl_append

/-- An outcome is known if it was known before or is among what is received. -/
theorem isSome_received {known : Option Outcome} :
    (received known messages).isSome ↔ known.isSome ∨ ∃ o, .finished o ∈ messages := by
  induction messages generalizing known with
  | nil => simp [received]
  | cons m rest ih =>
    have hrest : (received known (m :: rest)).isSome ↔
        (m.outcome?.orElse fun _ => known).isSome ∨ ∃ o, .finished o ∈ rest := ih
    rw [hrest]
    cases m with
    | progress p => simp [Message.outcome?]
    | finished o => simp [Message.outcome?]

theorem mem_throughOutcome (h : .finished o ∈ messages) :
    ∃ o', .finished o' ∈ throughOutcome messages := by
  induction messages with
  | nil => cases h
  | cons m rest ih =>
    cases m with
    | finished o' => exact ⟨o', List.mem_singleton_self _⟩
    | progress report =>
      obtain hfirst | hrest := List.mem_cons.1 h
      · cases hfirst
      · obtain ⟨o', ho'⟩ := ih hrest
        exact ⟨o', List.mem_cons_of_mem _ ho'⟩

/-- A call that waits comes to know the outcome if that is in the queue. -/
theorem isDone_wait (h : t.isDone = true ∨ ∃ o, .finished o ∈ t.queue) :
    t.wait.1.isDone = true := by
  unfold wait
  split
  · assumption
  · next hunknown =>
    obtain ⟨o, ho⟩ := h.resolve_left hunknown
    exact isSome_received.2 (.inr (mem_throughOutcome ho))

end Task

namespace Pipeline

/-- Receives a number of messages of the task of a number. -/
def receive (p : Pipeline) (number n : Nat) : Pipeline × List Message :=
  match p.task? number with
  | none => (p, [])
  | some t => let (t, messages) := t.receive n; (p.setTask t, messages)

theorem poll_eq_receive (p : Pipeline) (number : Nat) :
    ∃ n, p.poll number = p.receive number n := by
  unfold poll receive
  cases p.task? number with
  | none => exact ⟨0, rfl⟩
  | some t =>
    obtain ⟨n, hn⟩ := t.poll_eq_receive
    exact ⟨n, by simp only [hn]⟩

theorem wait_eq_receive (p : Pipeline) (number : Nat) :
    ∃ n, p.wait number = p.receive number n := by
  unfold wait receive
  cases p.task? number with
  | none => exact ⟨0, rfl⟩
  | some t =>
    obtain ⟨n, hn⟩ := t.wait_eq_receive
    exact ⟨n, by simp only [hn]⟩

theorem task?_of_head? (ht : p.tasks.head? = some t) : p.task? t.number = some t := by
  obtain ⟨earlier, htasks⟩ := List.head?_eq_some_iff.1 ht
  rw [task?, htasks]
  exact List.find?_cons_of_pos (by simp)

/-- What is received of the latest task comes from the front of its queue. -/
theorem receive_of_head? (ht : p.tasks.head? = some t) (n : Nat) :
    (p.receive t.number n).2 = t.queue.take n ∧
      (p.receive t.number n).1.workspace = p.workspace ∧
      (p.receive t.number n).1.tasks.head? = some (t.receive n).1 := by
  have hreceive : p.receive t.number n = (p.setTask (t.receive n).1, t.queue.take n) := by
    rw [receive, task?_of_head? ht]
    rfl
  obtain ⟨earlier, htasks⟩ := List.head?_eq_some_iff.1 ht
  rw [hreceive]
  refine ⟨rfl, rfl, ?_⟩
  rw [setTask, htasks, List.map_cons, List.head?_cons]
  exact congrArg some (if_pos (by simp [Task.receive]))

end Pipeline

/-! ## The course of a delivery -/

/-- Where a call that waits for the outcome of a task stands. -/
inductive Waiting
  /-- It receives messages, as long as the outcome is not known. -/
  | receiving
  /-- The outcome is known, and the worker is still to be joined. -/
  | joining
  | returned
deriving DecidableEq

/-- A task whose worker sends messages and whose messages are received, with all that was sent and
received so far, and where a call that waits stands. -/
structure Delivery where
  pipeline : Pipeline
  number : Nat
  sent : List Message
  received : List Message
  waiting : Waiting

namespace Delivery

/-- The delivery of a task that was accepted just now. -/
def start (p : Pipeline) (number : Nat) : Delivery := ⟨p, number, [], [], .receiving⟩

/-- The delivery where more was received. -/
def taken (d : Delivery) (r : Pipeline × List Message) : Delivery :=
  { d with pipeline := r.1, received := d.received ++ r.2 }

/-- What may happen in the course of a delivery.  A call that waits receives its messages one by
one, and the worker may go on between any two messages that a poll receives; such portions are
received by `receive`. -/
inductive Step : Delivery → Delivery → Prop
  | work {d : Delivery} :
      Step d { d with pipeline := d.pipeline.step, sent := d.sent ++ d.pipeline.sends }
  | poll {d : Delivery} : Step d (d.taken (d.pipeline.poll d.number))
  | wait {d : Delivery} : Step d (d.taken (d.pipeline.wait d.number))
  | receive {d : Delivery} {n : Nat} : Step d (d.taken (d.pipeline.receive d.number n))
  | call {d : Delivery} : Step d { d with waiting := .receiving }
  | join {d : Delivery} {t : Task} (ht : d.pipeline.task? d.number = some t)
      (hwaiting : d.waiting = .receiving) (hdone : t.isDone = true) :
      Step d { d with waiting := .joining }
  | leave {d : Delivery} {t : Task} (ht : d.pipeline.task? d.number = some t)
      (hwaiting : d.waiting = .joining) (hgone : t.isRunning = false) :
      Step d { d with waiting := .returned }

end Delivery

/-! ## What was sent and received -/

/-- Behind an outcome nothing is sent: an outcome that was received was the last message. -/
theorem IsReport.of_finished_mem (h : IsReport (messages ++ rest) o)
    (hmem : .finished o' ∈ messages) : o' = o ∧ rest = [] := by
  obtain ⟨progress, hsplit, hprogress⟩ := h
  rcases rest.eq_nil_or_concat with rfl | ⟨front, last, rfl⟩
  · rw [List.append_nil] at hsplit
    rw [hsplit, List.mem_append] at hmem
    rcases hmem with hfront | hlast
    · exact nomatch hprogress _ hfront
    · exact ⟨Message.finished.inj (List.mem_singleton.1 hlast), rfl⟩
  · rw [List.concat_eq_append, ← List.append_assoc] at hsplit
    have hfront : messages ++ front = progress := (List.append_inj' hsplit rfl).1
    have hinside : .finished o' ∈ progress := hfront ▸ List.mem_append_left _ hmem
    exact nomatch hprogress _ hinside

theorem IsReport.finished_mem (h : IsReport sent o) : .finished o ∈ sent := by
  obtain ⟨progress, rfl, -⟩ := h
  exact List.mem_append_right _ (List.mem_singleton_self _)

/-- What a worker sends from a stage on begins with what its next step sends. -/
theorem Completes.advance (h : Completes kind target s stage s' sent) :
    ∃ left, Completes kind target (s.advance kind target stage).workspace
      (s.advance kind target stage).stage s' left ∧
      (s.advance kind target stage).sent ++ left = sent := by
  cases h with
  | finished => exact ⟨[], .finished _, rfl⟩
  | step hstage hrest => exact ⟨_, hrest, rfl⟩

namespace Delivery

variable {d d' : Delivery}

/-- What holds in the course of the delivery of all that a worker sends: what was sent so far was
received or is in the queue, the worker goes on to send what is left of it, and the outcome is known
if it was received. -/
structure Sound (d : Delivery) (t : Task) (whole : List Message) : Prop where
  latest : d.pipeline.tasks.head? = some t
  number : t.number = d.number
  queue : d.sent = d.received ++ t.queue
  outcome : t.outcome = Task.received none d.received
  stream : ∃ s' left, Completes t.kind t.target d.pipeline.workspace t.stage s' left ∧
    d.sent ++ left = whole
  joining : d.waiting = .joining → t.isDone = true
  returned : d.waiting = .returned → t.isDone = true ∧ t.stage = .finished

theorem sound_start (h : Completes kind target s .ready s' whole) (number : Nat)
    (earlier : List Task) :
    (start ⟨s, ⟨number, kind, target, [], none, .ready⟩ :: earlier⟩ number).Sound
      ⟨number, kind, target, [], none, .ready⟩ whole :=
  ⟨rfl, rfl, rfl, rfl, ⟨s', whole, h, rfl⟩, nofun, nofun⟩

namespace Sound

theorem task? (h : d.Sound t whole) : d.pipeline.task? d.number = some t :=
  h.number ▸ Pipeline.task?_of_head? h.latest

theorem isPrefix (h : d.Sound t whole) : d.sent <+: whole := by
  obtain ⟨s', left, -, rfl⟩ := h.stream
  exact List.prefix_append _ _

theorem sent_eq (h : d.Sound t whole) (hover : t.stage.isOver = true) : d.sent = whole := by
  obtain ⟨s', left, hleft, rfl⟩ := h.stream
  rw [hleft.eq_nil hover, List.append_nil]

theorem isDone_iff (h : d.Sound t whole) (hwhole : IsReport whole o) :
    t.isDone = true ↔ .finished o ∈ d.received := by
  rw [Task.isDone, h.outcome, Task.isSome_received]
  refine ⟨?_, fun ho => .inr ⟨o, ho⟩⟩
  rintro (hnone | ⟨o', ho'⟩)
  · cases hnone
  · obtain ⟨left, rfl⟩ := h.isPrefix
    rw [h.queue, List.append_assoc] at hwhole
    rwa [← (hwhole.of_finished_mem ho').1]

/-- When the outcome was received, everything was. -/
theorem received_eq (h : d.Sound t whole) (hwhole : IsReport whole o) (hdone : t.isDone = true) :
    d.received = whole := by
  have ho := (h.isDone_iff hwhole).1 hdone
  obtain ⟨left, rfl⟩ := h.isPrefix
  rw [h.queue, List.append_assoc] at hwhole ⊢
  rw [(hwhole.of_finished_mem ho).2, List.append_nil]

theorem work (h : d.Sound t whole) :
    let a := d.pipeline.workspace.advance t.kind t.target t.stage
    Sound { d with pipeline := d.pipeline.step, sent := d.sent ++ d.pipeline.sends }
      { t with stage := a.stage, queue := t.queue ++ a.sent } whole := by
  obtain ⟨hworkspace, hlatest, hsends⟩ := Pipeline.head?_step h.latest
  refine ⟨hlatest, h.number, ?_, h.outcome, ?_, h.joining, ?_⟩
  · rw [hsends, h.queue, List.append_assoc]
  · obtain ⟨s', left, hleft, hwhole⟩ := h.stream
    obtain ⟨left', hleft', rfl⟩ := hleft.advance
    rw [hworkspace, hsends]
    exact ⟨s', left', hleft', by rw [← hwhole, List.append_assoc]⟩
  · intro hreturned
    obtain ⟨hdone, hgone⟩ := h.returned hreturned
    refine ⟨hdone, ?_⟩
    rw [hgone]
    rfl

theorem receive (h : d.Sound t whole) (n : Nat) :
    (d.taken (d.pipeline.receive d.number n)).Sound (t.receive n).1 whole := by
  rw [← h.number]
  obtain ⟨hmessages, hworkspace, hlatest⟩ := Pipeline.receive_of_head? h.latest n
  have hdone : t.isDone = true → (t.receive n).1.isDone = true := fun hdone =>
    Task.isSome_received.2 (.inl hdone)
  refine ⟨hlatest, h.number, ?_, ?_, hworkspace ▸ h.stream, ?_, ?_⟩
  · rw [taken, hmessages, List.append_assoc]
    exact h.queue.trans (congrArg _ (List.take_append_drop n t.queue).symm)
  · rw [taken, hmessages, Task.received_append, ← h.outcome]
    rfl
  · intro hjoining
    exact hdone (h.joining hjoining)
  · intro hreturned
    obtain ⟨hknown, hgone⟩ := h.returned hreturned
    exact ⟨hdone hknown, hgone⟩

theorem step (h : d.Sound t whole) (hstep : d.Step d') : ∃ u, d'.Sound u whole := by
  have hfound {u : Task} (hu : d.pipeline.task? d.number = some u) : u = t :=
    Option.some.inj (hu.symm.trans h.task?)
  cases hstep with
  | work => exact ⟨_, h.work⟩
  | poll =>
    obtain ⟨n, hn⟩ := d.pipeline.poll_eq_receive d.number
    exact ⟨_, hn ▸ h.receive n⟩
  | wait =>
    obtain ⟨n, hn⟩ := d.pipeline.wait_eq_receive d.number
    exact ⟨_, hn ▸ h.receive n⟩
  | receive => exact ⟨_, h.receive _⟩
  | call => exact ⟨t, h.latest, h.number, h.queue, h.outcome, h.stream, nofun, nofun⟩
  | join hu _ hdone =>
    obtain rfl := hfound hu
    exact ⟨_, h.latest, h.number, h.queue, h.outcome, h.stream, fun _ => hdone, nofun⟩
  | leave hu hwaiting hgone =>
    obtain rfl := hfound hu
    exact ⟨_, h.latest, h.number, h.queue, h.outcome, h.stream, nofun,
      fun _ => ⟨h.joining hwaiting, Task.isRunning_eq_false.1 hgone⟩⟩

theorem reaches (h : d.Sound t whole) (hd : Relation.ReflTransGen Step d d') :
    ∃ u, d'.Sound u whole := by
  induction hd with
  | refl => exact ⟨t, h⟩
  | tail _ hstep ih =>
    obtain ⟨u, hu⟩ := ih
    exact hu.step hstep

/-- A worker comes to its end, whenever it is left to go on. -/
theorem exists_gone (h : d.Sound t whole)
    (hleft : Completes t.kind t.target d.pipeline.workspace t.stage s' messages) :
    ∃ d' u, Relation.ReflTransGen Step d d' ∧ d'.Sound u whole ∧ u.stage = .finished := by
  generalize hs : d.pipeline.workspace = s, hstage : t.stage = stage, hkind : t.kind = kind,
    htarget : t.target = target at hleft
  induction hleft generalizing d t with
  | finished => exact ⟨d, t, .refl, h, hstage⟩
  | step _ _ ih =>
    subst hs hstage hkind htarget
    obtain ⟨d', u, hd', hu, hgone⟩ := ih h.work (Pipeline.head?_step h.latest).1 rfl rfl rfl
    exact ⟨d', u, .head .work hd', hu, hgone⟩

/-- A call that waits as a whole, which finds the outcome of a worker that is gone: it is made,
receives what there is up to the outcome, joins the worker and returns. -/
theorem reaches_wait (h : d.Sound t whole) (hdone : t.wait.1.isDone = true)
    (hgone : t.isRunning = false) :
    Relation.ReflTransGen Step d
      { d.taken (d.pipeline.wait d.number) with waiting := .returned } := by
  obtain ⟨n, hn⟩ := t.wait_eq_receive
  have hwait : d.pipeline.wait d.number = d.pipeline.receive d.number n := by
    rw [Pipeline.wait, Pipeline.receive, h.task?]
    simp only [hn]
  rw [hn] at hdone
  rw [hwait]
  have hreceived : (d.taken (d.pipeline.receive d.number n)).Sound (t.receive n).1 whole :=
    h.receive n
  let called : Delivery := { d with waiting := .receiving }
  let taken := called.taken (called.pipeline.receive called.number n)
  have hcall : Step d called := .call
  have hreceive : Step called taken := .receive
  have hjoin : Step taken { taken with waiting := .joining } := .join hreceived.task? rfl hdone
  have hleave : Step { taken with waiting := .joining } { taken with waiting := .returned } :=
    .leave hreceived.task? rfl hgone
  exact .head hcall (.head hreceive (.head hjoin (.single hleave)))

/-- A call that waits can always come to its end. -/
theorem exists_returned (h : d.Sound t whole) (hwhole : IsReport whole o) :
    ∃ d', Relation.ReflTransGen Step d d' ∧ d'.waiting = .returned := by
  obtain ⟨s', left, hleft, -⟩ := h.stream
  obtain ⟨e, u, he, hu, hgone⟩ := h.exists_gone hleft
  have hover : u.stage.isOver = true := by
    rw [hgone]
    rfl
  have hmem : .finished o ∈ e.received ++ u.queue := by
    rw [← hu.queue, hu.sent_eq hover]
    exact hwhole.finished_mem
  have hdone : u.wait.1.isDone = true := by
    refine Task.isDone_wait ?_
    rcases List.mem_append.1 hmem with hreceived | hqueue
    · exact .inl ((hu.isDone_iff hwhole).2 hreceived)
    · exact .inr ⟨o, hqueue⟩
  exact ⟨_, he.trans (hu.reaches_wait hdone (Task.isRunning_eq_false.2 hgone)), rfl⟩

end Sound

/-- All that the worker of a task sends, if nothing costs the worker, is some progress reports and
one outcome behind them.  However the steps of the worker are interleaved with polls and waiting
calls, what was received at any time is the beginning of what was sent, and that is the beginning of
the whole; the task is done once its outcome was received.  A call that waits can always come to its
end, and when it does, the whole was received and a request of any kind is accepted. -/
theorem exists_report_delivered (hspares : p.workspace.Spares)
    (hstart : p.start kind target = .ok q) :
    ∃ whole o, IsReport whole o ∧
      ∀ d, Relation.ReflTransGen Step (start q p.tasks.length) d →
        d.received <+: d.sent ∧ d.sent <+: whole ∧
          (∃ t, d.pipeline.task? d.number = some t ∧
            (t.isRunning = false → d.sent = whole) ∧
            (t.isDone = true ↔ .finished o ∈ d.received)) ∧
          (∃ d', Relation.ReflTransGen Step d d' ∧ d'.waiting = .returned) ∧
          (d.waiting = .returned → d.received = whole ∧ d.pipeline.isBusy = false ∧
            ∀ name kind target, TaskKind.ofName? name = some kind →
              ∃ r, d.pipeline.request name target = .ok r) := by
  unfold Pipeline.start at hstart
  split at hstart
  · cases hstart
  cases hstart
  obtain ⟨s', whole, hwhole⟩ := exists_completes kind target p.workspace .ready
  obtain ⟨o, ho⟩ := hwhole.isReport hspares trivial rfl
  refine ⟨whole, o, ho, ?_⟩
  intro d hd
  obtain ⟨t, ht⟩ := (sound_start hwhole p.tasks.length p.tasks).reaches hd
  refine ⟨⟨t.queue, ht.queue.symm⟩, ht.isPrefix, ⟨t, ht.task?, ?_, ht.isDone_iff ho⟩,
    ht.exists_returned ho, ?_⟩
  · intro hgone
    apply ht.sent_eq
    rw [Task.isRunning_eq_false.1 hgone]
    rfl
  · intro hreturned
    obtain ⟨hdone, hgone⟩ := ht.returned hreturned
    have hidle : d.pipeline.isBusy = false := by
      rw [Pipeline.isBusy_of_head? ht.latest, Task.isRunning_eq_false]
      exact hgone
    refine ⟨ht.received_eq ho hdone, hidle, ?_⟩
    intro name kind target hname
    exact ⟨_, by rw [Pipeline.request, hname]; exact Pipeline.start_of_idle hidle kind target⟩

namespace Sample

/-- An engine that reports a class and fails behind it. -/
def script : Script := ⟨"", [], [.unit "p/A" (some "x"), .throw (.other "Exception" "y")], []⟩

def idle : Pipeline :=
  ⟨⟨.start .empty {}, .empty, none, some (.script script), "/", ".java"⟩, []⟩

def accepted : Pipeline :=
  ⟨idle.workspace, [⟨0, .decompileArchive, ⟨.relative, ["a.jar"]⟩, [], none, .ready⟩]⟩

theorem spares : idle.workspace.Spares := by
  have hsteps : SparesWorker script.steps := by
    intro t ht
    simp [script] at ht
  refine ⟨nofun, ?_⟩
  intro f hf
  obtain rfl : Factory.script script = f := Option.some.inj hf
  exact ⟨sparesWorker_nil, hsteps, nofun⟩

end Sample

/-- All that a failing task sends is delivered, and the next task may start. -/
theorem exists_report_delivered_sample :
    ∃ whole o d, IsReport whole o ∧
      Relation.ReflTransGen Step (start Sample.accepted 0) d ∧
      d.received = whole ∧ d.pipeline.isBusy = false := by
  obtain ⟨whole, o, ho, hall⟩ := exists_report_delivered (q := Sample.accepted) Sample.spares rfl
  obtain ⟨-, -, -, ⟨d, hd, hreturned⟩, -⟩ := hall _ .refl
  obtain ⟨-, -, -, -, hends⟩ := hall d hd
  obtain ⟨hreceived, hidle, -⟩ := hends hreturned
  exact ⟨whole, o, d, ho, hd, hreceived, hidle⟩

end Delivery

end ClassBrowser
