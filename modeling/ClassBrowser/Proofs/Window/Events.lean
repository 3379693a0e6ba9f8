import ClassBrowser.Proofs.Session.Consistency
import ClassBrowser.Proofs.Task.Delivery
import ClassBrowser.Proofs.Window.Tree
import ClassBrowser.Window.Events

/-!
# What events do to a window

Most of what the window does concerns how it looks.  What it works on and which classes it shows is
changed by few events: a request that is accepted (`startTask_spec`), a request to open an archive,
which empties the tree before it is known to be accepted (`openArchive_spec`), and the outcome of a
task (`receive_of_isReport`).  All else keeps these parts (`Window.Keeps`).
-/

namespace ClassBrowser

variable {t : Task} {o : Outcome} {p q : Pipeline} {messages : List Message} {kind : TaskKind}
  {target : Path}

/-! ## Messages -/

theorem IsReport.any_isSome (h : IsReport messages o) :
    messages.any (fun m => m.outcome?.isSome) = true :=
  List.any_eq_true.2 ⟨_, h.finished_mem, rfl⟩

namespace Task

theorem received_of_progress (h : ∀ m ∈ messages, m.outcome? = none) (known : Option Outcome) :
    received known messages = known := by
  induction messages with
  | nil => rfl
  | cons m rest ih =>
    obtain ⟨hm, hrest⟩ := List.forall_mem_cons.1 h
    show received (m.outcome?.orElse fun _ => known) rest = known
    rw [hm]
    exact ih hrest

theorem received_of_isReport (h : IsReport messages o) (known : Option Outcome) :
    received known messages = some o := by
  obtain ⟨progress, rfl, -⟩ := h
  rw [received_append]
  rfl

end Task

namespace Pipeline

theorem poll_of_head? (ht : p.tasks.head? = some t) :
    ∃ q, p.poll t.number = (q, t.queue) ∧ q.tasks.head? = some t.poll.1 := by
  have hpoll : p.poll t.number = (p.setTask t.poll.1, t.queue) := by
    rw [poll, task?_of_head? ht]
    rfl
  obtain ⟨earlier, htasks⟩ := List.head?_eq_some_iff.1 ht
  refine ⟨_, hpoll, ?_⟩
  rw [setTask, htasks, List.map_cons, List.head?_cons]
  exact congrArg some (if_pos (by simp [Task.poll]))

end Pipeline

/-! ## Sessions -/

namespace Session

variable {s s' : Session}

/-- A request that is accepted is the latest task, and shows nothing if it opens an archive. -/
theorem start_spec (h : s.start kind target = .ok s') :
    s.isBusy = false ∧
      s'.pipeline.tasks.head? = some ⟨s.pipeline.tasks.length, kind, target, [], none, .ready⟩ ∧
      s'.tree = if kind = .decompileArchive then .empty else s.tree := by
  rw [← startAhead_zero, startAhead] at h
  cases hbusy : s.isBusy with
  | true =>
    have hpipeline : s.pipeline.start kind target = .error .busy := if_pos hbusy
    rw [hpipeline] at h
    cases h
  | false =>
    rw [Pipeline.start_of_idle hbusy] at h
    cases kind <;> cases h <;> exact ⟨rfl, rfl, rfl⟩

theorem isBusy_of_start_error {e : RequestError} (h : s.start kind target = .error e) :
    s.isBusy = true := by
  by_contra hidle
  have hpipeline := Pipeline.start_of_idle (Bool.eq_false_iff.2 hidle) kind target
  rw [← startAhead_zero, startAhead, hpipeline] at h
  cases kind <;> cases h

/-- Taking over an outcome changes nothing about the tasks. -/
theorem exists_workspace_apply (s : Session) (o : Outcome) :
    ∃ w, (s.apply o).pipeline =
      { s.pipeline with workspace := s.pipeline.workspace.withWorld w } := by
  unfold Session.apply
  split
  · exact ⟨s.world, rfl⟩
  · exact s.recoverTree_pipeline

end Session

/-! ## Requests -/

namespace Window

variable {w w' : Window}

/-- Whether the second window works on the same as the first and shows the same classes. -/
structure Keeps (w w' : Window) : Prop where
  session : w'.session = w.session
  handle : w'.handle = w.handle
  items : w'.items = w.items
  members : w'.members = w.members

theorem Keeps.trans {w'' : Window} (h : w.Keeps w') (h' : w'.Keeps w'') : w.Keeps w'' :=
  ⟨h'.session.trans h.session, h'.handle.trans h.handle, h'.items.trans h.items,
    h'.members.trans h.members⟩

theorem keeps_setProgress (w : Window) (change : ProgressBar → ProgressBar) :
    w.Keeps (w.setProgress change) := by
  unfold setProgress
  split <;> exact ⟨rfl, rfl, rfl, rfl⟩

/-- Whether a request for a task is refused. -/
def refuses (w : Window) : Bool := w.handle.isSome || w.session.isBusy

/-- The window with a task that was accepted. -/
def taking (w : Window) (s : Session) : Window :=
  { w with session := s, handle := s.pipeline.tasks.head?.map Task.number }

theorem keeps_startProgress (w : Window) (indeterminate : Bool) :
    w.Keeps (w.startProgress indeterminate) := w.keeps_setProgress _

theorem keeps_stopProgress (w : Window) : w.Keeps w.stopProgress := w.keeps_setProgress _

theorem keeps_adopt (w : Window) (s : Session) (status : String) (indeterminate : Bool) :
    (w.taking s).Keeps (w.adopt s status indeterminate) := by
  have hprogress := (((w.taking s).setBusy true).setStatus status).keeps_startProgress indeterminate
  exact ⟨hprogress.session, hprogress.handle, hprogress.items, hprogress.members⟩

/-- A task that is refused changes nothing, and one that is accepted is waited for. -/
theorem startTask_spec (w : Window) (kind : TaskKind) (target : Path) (status : String)
    (indeterminate : Bool) :
    (w.refuses = true ∧ w.Keeps (w.startTask kind target status indeterminate)) ∨
      (w.refuses = false ∧ ∃ s, w.session.start kind target = .ok s ∧
        (w.taking s).Keeps (w.startTask kind target status indeterminate)) := by
  unfold startTask
  by_cases hhandle : w.handle.isSome = true
  · rw [if_pos hhandle]
    exact .inl ⟨by rw [refuses, hhandle, Bool.true_or], rfl, rfl, rfl, rfl⟩
  · rw [if_neg hhandle]
    cases hstart : w.session.start kind target with
    | error e =>
      have hbusy := Session.isBusy_of_start_error hstart
      exact .inl ⟨by rw [refuses, hbusy, Bool.or_true], rfl, rfl, rfl, rfl⟩
    | ok s =>
      obtain ⟨hidle, -⟩ := Session.start_spec hstart
      refine .inr ⟨?_, s, rfl, w.keeps_adopt s status indeterminate⟩
      rw [refuses, Bool.eq_false_iff.2 hhandle, hidle]
      rfl

/-- What is shown goes before it is known whether the request is refused. -/
theorem openArchive_spec (w : Window) (archive : Path) :
    (w.refuses = true ∧ w.clearTree.Keeps (w.openArchive archive)) ∨
      (w.refuses = false ∧ ∃ s, w.session.start .decompileArchive archive = .ok s ∧
        (w.clearTree.taking s).Keeps (w.openArchive archive)) := by
  rcases startTask_spec
      ((({ w with lastDirectory := some archive.parent } : Window).clearTree.showText "" none).note
        s!"Decompiling {archive}\n")
      .decompileArchive archive s!"Decompiling {archive.name}..." true with
    ⟨hrefuses, hkeeps⟩ | ⟨haccepts, s, hs, hkeeps⟩
  · exact .inl ⟨hrefuses, hkeeps.session, hkeeps.handle, hkeeps.items, hkeeps.members⟩
  · exact .inr ⟨haccepts, s, hs, hkeeps.session, hkeeps.handle, hkeeps.items, hkeeps.members⟩

theorem keeps_onProgress (w : Window) (p : Progress) : w.Keeps (w.onProgress p) := by
  unfold onProgress
  cases p.total with
  | none => exact ⟨rfl, rfl, rfl, rfl⟩
  | some total =>
    dsimp only
    split
    · exact ⟨rfl, rfl, rfl, rfl⟩
    · exact (w.keeps_setProgress _).trans ⟨rfl, rfl, rfl, rfl⟩

theorem keeps_foldl_onMessage (h : ∀ m ∈ messages, m.outcome? = none) (w : Window)
    (kind : TaskKind) : w.Keeps (messages.foldl (fun w m => w.onMessage kind m) w) := by
  induction messages generalizing w with
  | nil => exact ⟨rfl, rfl, rfl, rfl⟩
  | cons m rest ih =>
    obtain ⟨hm, hrest⟩ := List.forall_mem_cons.1 h
    cases m with
    | progress p => exact (w.keeps_onProgress p).trans (ih hrest _)
    | finished o => cases hm

/-! ## The news of a task -/

/-- The window whose session has taken over an outcome. -/
def applying (w : Window) (o : Outcome) : Window := { w with session := w.session.apply o }

theorem keeps_report (w : Window) (status text : String) :
    w.Keeps ((w.setStatus status).note text) := ⟨rfl, rfl, rfl, rfl⟩

theorem keeps_lament (w : Window) (status text : String) (d : Dialog) :
    w.Keeps (((w.setError status).note text).say d) := ⟨rfl, rfl, rfl, rfl⟩

/-- The outcome of a task is taken over.  That of an opened archive fills the tree, and that of an
export leaves it as it is. -/
theorem onMessage_finished (w : Window) (kind : TaskKind) (o : Outcome) :
    (kind = .decompileArchive →
        ((w.applying o).showTree (w.session.apply o).tree).Keeps (w.onMessage kind (.finished o))) ∧
      (kind ≠ .decompileArchive → (w.applying o).Keeps (w.onMessage kind (.finished o))) := by
  refine ⟨?_, ?_⟩
  · rintro rfl
    cases o with
    | success result => exact keeps_report _ _ _
    | failure reason => exact keeps_lament _ _ _ _
  · intro hkind
    cases o with
    | success result =>
      show (w.applying (.success result)).Keeps (w.onSuccess kind result)
      unfold onSuccess
      dsimp only
      split
      · exact absurd rfl hkind
      · split <;> exact ⟨rfl, rfl, rfl, rfl⟩
      · exact ⟨rfl, rfl, rfl, rfl⟩
    | failure reason =>
      cases kind with
      | decompileArchive => exact absurd rfl hkind
      | exportDirectory => exact keeps_lament _ _ _ _
      | exportArchive => exact keeps_lament _ _ _ _

/-- The window whose session goes on with a pipeline. -/
def withPipeline (w : Window) (q : Pipeline) : Window :=
  { w with session := { w.session with pipeline := q } }

/-- The window that waits for nothing. -/
def withoutHandle (w : Window) : Window := { w with handle := none }

theorem keeps_settleDown (w : Window) : w.withoutHandle.Keeps w.settleDown := by
  have hprogress := (w.withoutHandle.setBusy false).keeps_stopProgress
  exact ⟨hprogress.session, hprogress.handle, hprogress.items, hprogress.members⟩

/-- The window with the messages of its task shown. -/
def showing (w : Window) (q : Pipeline) (t : Task) : Window :=
  t.queue.foldl (fun w m => w.onMessage t.kind m) (w.withPipeline q)

theorem receive_eq (ht : w.session.pipeline.tasks.head? = some t)
    (hpoll : w.session.pipeline.poll t.number = (q, t.queue))
    (hlatest : (w.showing q t).session.pipeline.tasks.head? = some t.poll.1) :
    w.receive t.number =
      if t.poll.1.isDone then (w.showing q t).settleDown else w.showing q t := by
  have hfound : (w.showing q t).session.pipeline.task? t.number = some t.poll.1 :=
    Pipeline.task?_of_head? hlatest
  unfold receive
  rw [Pipeline.task?_of_head? ht, hpoll]
  show (if (((w.showing q t).session.pipeline.task? t.number).map Task.isDone).getD false
    then (w.showing q t).settleDown else w.showing q t) = _
  rw [hfound]
  rfl

theorem receive_of_progress (ht : w.session.pipeline.tasks.head? = some t)
    (hpoll : w.session.pipeline.poll t.number = (q, t.queue))
    (hlatest : q.tasks.head? = some t.poll.1) (hnone : t.outcome = none)
    (hprogress : ∀ m ∈ t.queue, m.outcome? = none) :
    (w.withPipeline q).Keeps (w.receive t.number) := by
  have hkeeps : (w.withPipeline q).Keeps (w.showing q t) :=
    keeps_foldl_onMessage hprogress (w.withPipeline q) t.kind
  have hdone : ¬ t.poll.1.isDone = true := by
    rw [Task.isDone, Task.poll, Task.received_of_progress hprogress, hnone]
    exact Bool.false_ne_true
  rw [receive_eq ht hpoll (by rw [hkeeps.session]; exact hlatest), if_neg hdone]
  exact hkeeps

/-- The outcome makes the window idle. -/
theorem receive_of_isReport (ht : w.session.pipeline.tasks.head? = some t)
    (hpoll : w.session.pipeline.poll t.number = (q, t.queue))
    (hlatest : q.tasks.head? = some t.poll.1) (hreport : IsReport t.queue o) :
    (w.receive t.number).session = (w.withPipeline q).session.apply o ∧
      (w.receive t.number).handle = none ∧
      (t.kind = .decompileArchive →
        (w.receive t.number).Mirrors (w.receive t.number).session.tree.contents) ∧
      (t.kind ≠ .decompileArchive → (w.receive t.number).items = w.items ∧
        (w.receive t.number).members = w.members) := by
  have hdone : t.poll.1.isDone = true := by
    rw [Task.isDone, Task.poll, Task.received_of_isReport hreport]
    rfl
  obtain ⟨progress, hqueue, hprogress⟩ := hreport
  let v := progress.foldl (fun w m => w.onMessage t.kind m) (w.withPipeline q)
  have hkeeps : (w.withPipeline q).Keeps v := keeps_foldl_onMessage hprogress _ _
  have hshowing : w.showing q t = v.onMessage t.kind (.finished o) := by
    rw [showing, hqueue, List.foldl_append]
    rfl
  obtain ⟨hopens, hexports⟩ := v.onMessage_finished t.kind o
  have hsession : (w.showing q t).session = (w.withPipeline q).session.apply o := by
    rw [hshowing, ← hkeeps.session]
    by_cases hkind : t.kind = .decompileArchive
    · rw [(hopens hkind).session, showTree_eq]
      rfl
    · rw [(hexports hkind).session]
      rfl
  have hsettled : (w.showing q t).withoutHandle.Keeps (w.receive t.number) := by
    have hhead : (w.showing q t).session.pipeline.tasks.head? = some t.poll.1 := by
      obtain ⟨world, hpipeline⟩ := (w.withPipeline q).session.exists_workspace_apply o
      rw [hsession, hpipeline]
      exact hlatest
    rw [receive_eq ht hpoll hhead, if_pos hdone]
    exact keeps_settleDown _
  refine ⟨hsettled.session.trans hsession, hsettled.handle, ?_, ?_⟩
  · intro hkind
    have hfilled := hopens hkind
    rw [← hshowing] at hfilled
    rw [hsettled.session.trans hsession, ← hkeeps.session]
    exact ((v.applying o).mirrors_showTree _).congr (hsettled.items.trans hfilled.items)
      (hsettled.members.trans hfilled.members)
  · intro hkind
    have hsame := hexports hkind
    rw [← hshowing] at hsame
    constructor
    · calc
        (w.receive t.number).items = (w.showing q t).items := hsettled.items
        _ = v.items := hsame.items
        _ = w.items := hkeeps.items
    · calc
        (w.receive t.number).members = (w.showing q t).members := hsettled.members
        _ = v.members := hsame.members
        _ = w.members := hkeeps.members

end Window

end ClassBrowser
