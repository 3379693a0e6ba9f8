import ClassBrowser.Proofs.Task.Counting
import ClassBrowser.Proofs.Window.Course

/-!
# The busy window

While the window waits for a task, the File menu, the class tree, the cursor and the progress bar
show it, and as soon as the outcome is received they show that the window is idle again
(`Appearance.Tells`).  News is looked for all along: of the timers that are pending exactly one
stands for it (`Window.polls`).

Here the toolkit refuses nothing, and timers are fired by the main loop only: an event takes the
timer that is due first off the list before it does what the timer stands for (`Window.turn`).
-/

namespace ClassBrowser

variable {kind : TaskKind} {messages : List Message}

namespace Window

variable {w w' : Window} {busy : Bool} {number : Nat}

/-! ## How a window looks -/

/-- The parts of a window that show whether it is busy. -/
structure Appearance where
  refusals : Refusals
  menuDisabled : Bool
  treeDisabled : Bool
  cursor : Option String
  progress : ProgressBar

/-- How a window looks. -/
def appearance (w : Window) : Appearance :=
  ⟨w.refusals, w.menuDisabled, w.treeDisabled, w.cursor, w.progress⟩

/-- Whether a window tells its user that it is busy, or that it is not. -/
structure Appearance.Tells (a : Appearance) (busy : Bool) : Prop where
  obliging : a.refusals = .none
  menu : a.menuDisabled = busy
  tree : a.treeDisabled = busy
  cursor : a.cursor = some busyCursor ↔ busy = true
  rests : busy = false → a.progress = .idle
  within : a.progress.indeterminate = false → a.progress.value ≤ a.progress.maximum

/-- Whether a window waits for the same as another, with the same tasks and timers. -/
structure Stays (w w' : Window) : Prop where
  handle : w'.handle = w.handle
  timers : w'.timers = w.timers
  tasks : w'.session.pipeline.tasks = w.session.pipeline.tasks

theorem Stays.trans {w'' : Window} (h : w.Stays w') (h' : w'.Stays w'') : w.Stays w'' :=
  ⟨h'.handle.trans h.handle, h'.timers.trans h.timers, h'.tasks.trans h.tasks⟩

theorem setProgress_of_obliging (h : w.refusals = .none) (change : ProgressBar → ProgressBar) :
    w.setProgress change = { w with progress := change w.progress } :=
  if_neg (by rw [h]; exact Bool.false_ne_true)

theorem timers_setProgress (w : Window) (change : ProgressBar → ProgressBar) :
    (w.setProgress change).timers = w.timers := by
  unfold setProgress
  split <;> rfl

theorem appearance_setBusy (h : w.refusals = .none) (busy : Bool) :
    (w.setBusy busy).appearance =
      ⟨.none, busy, busy, some (if busy then busyCursor else ""), w.progress⟩ := by
  simp [setBusy, appearance, h, Refusals.none]

/-- Whether a window looks the same as another besides. -/
structure Spares (w w' : Window) : Prop extends Stays w w' where
  appearance : w'.appearance = w.appearance

theorem Spares.trans {w'' : Window} (h : w.Spares w') (h' : w'.Spares w'') : w.Spares w'' :=
  ⟨h.toStays.trans h'.toStays, h'.appearance.trans h.appearance⟩

/-- A task that is waited for makes the window busy. -/
theorem tells_adopt (h : w.appearance.Tells busy) (s : Session) (status : String)
    (indeterminate : Bool) : (w.adopt s status indeterminate).appearance.Tells true := by
  have hbusy := (w.taking s).appearance_setBusy h.obliging true
  have hobliging : (((w.taking s).setBusy true).setStatus status).refusals = .none :=
    congrArg Appearance.refusals hbusy
  show ((((w.taking s).setBusy true).setStatus status).startProgress indeterminate).appearance.Tells
    true
  rw [startProgress, setProgress_of_obliging hobliging]
  refine ⟨hobliging, congrArg Appearance.menuDisabled hbusy, congrArg Appearance.treeDisabled hbusy,
    iff_of_true (congrArg Appearance.cursor hbusy) rfl, nofun, ?_⟩
  cases indeterminate with
  | true => exact nofun
  | false => exact fun _ => show (0 : Int) ≤ 100 by decide

/-- A window that waits for nothing is idle. -/
theorem appearance_settleDown (h : w.refusals = .none) :
    w.settleDown.appearance = ⟨.none, false, false, some "", .idle⟩ := by
  have hbusy := w.withoutHandle.appearance_setBusy h false
  have hobliging : (w.withoutHandle.setBusy false).refusals = .none :=
    congrArg Appearance.refusals hbusy
  show ((w.withoutHandle.setBusy false).setProgress fun _ => .idle).appearance = _
  rw [setProgress_of_obliging hobliging]
  exact congrArg (fun a : Appearance => { a with progress := .idle }) hbusy

theorem tells_settleDown (h : w.appearance.Tells busy) :
    w.settleDown.appearance.Tells false := by
  rw [appearance_settleDown h.obliging]
  exact ⟨rfl, rfl, rfl, iff_of_false (by decide) Bool.false_ne_true, fun _ => rfl,
    fun _ => show (0 : Int) ≤ 100 by decide⟩

/-- Progress is shown by the bar alone, and only within its bounds. -/
theorem tells_onProgress {p : Progress} (h : w.appearance.Tells true) (hfits : p.Fits) :
    (w.onProgress p).appearance.Tells true ∧ w.Stays (w.onProgress p) := by
  have hobliging : w.refusals = .none := h.obliging
  unfold onProgress
  cases htotal : p.total with
  | none => exact ⟨h, rfl, rfl, rfl⟩
  | some total =>
    dsimp only
    split
    · exact ⟨h, rfl, rfl, rfl⟩
    · rw [showProgress, setProgress_of_obliging hobliging]
      exact ⟨⟨h.obliging, h.menu, h.tree, h.cursor, nofun, fun _ => hfits total htotal⟩,
        rfl, rfl, rfl⟩

theorem spares_applying (w : Window) (o : Outcome) : w.Spares (w.applying o) := by
  obtain ⟨world, hpipeline⟩ := w.session.exists_workspace_apply o
  refine ⟨⟨rfl, rfl, ?_⟩, rfl⟩
  show (w.session.apply o).pipeline.tasks = w.session.pipeline.tasks
  rw [hpipeline]

theorem spares_showTree (w : Window) (tree : Package) : w.Spares (w.showTree tree) := by
  rw [showTree_eq]
  exact ⟨⟨rfl, rfl, rfl⟩, rfl⟩

theorem spares_report (w : Window) (status text : String) :
    w.Spares ((w.setStatus status).note text) := ⟨⟨rfl, rfl, rfl⟩, rfl⟩

theorem spares_lament (w : Window) (status text : String) (d : Dialog) :
    w.Spares (((w.setError status).note text).say d) := ⟨⟨rfl, rfl, rfl⟩, rfl⟩

/-- The outcome of a task alone does not make the window look idle. -/
theorem spares_onMessage_finished (w : Window) (kind : TaskKind) (o : Outcome) :
    w.Spares (w.onMessage kind (.finished o)) := by
  have happlied := w.spares_applying o
  have hopened := happlied.trans ((w.applying o).spares_showTree (w.session.apply o).tree)
  cases o with
  | success result =>
    show w.Spares (w.onSuccess kind result)
    unfold onSuccess
    split
    · exact hopened.trans (spares_report _ _ _)
    · dsimp only
      split <;> exact happlied.trans ⟨⟨rfl, rfl, rfl⟩, rfl⟩
    · exact happlied
  | failure reason =>
    cases kind with
    | decompileArchive => exact hopened.trans (spares_lament _ _ _ _)
    | exportDirectory => exact happlied.trans (spares_lament _ _ _ _)
    | exportArchive => exact happlied.trans (spares_lament _ _ _ _)

/-- While messages are shown the window goes on to tell that it is busy. -/
theorem tells_foldl_onMessage (h : w.appearance.Tells true) (hfits : ∀ m ∈ messages, m.Fits)
    (kind : TaskKind) :
    (messages.foldl (fun w m => w.onMessage kind m) w).appearance.Tells true ∧
      w.Stays (messages.foldl (fun w m => w.onMessage kind m) w) := by
  induction messages generalizing w with
  | nil => exact ⟨h, rfl, rfl, rfl⟩
  | cons m rest ih =>
    obtain ⟨hm, hrest⟩ := List.forall_mem_cons.1 hfits
    have hshown : (w.onMessage kind m).appearance.Tells true ∧ w.Stays (w.onMessage kind m) := by
      cases m with
      | progress p => exact tells_onProgress h hm
      | finished o =>
        have hspares := w.spares_onMessage_finished kind o
        exact ⟨by rwa [hspares.appearance], hspares.toStays⟩
    obtain ⟨htells, hstays⟩ := ih hshown.1 hrest
    exact ⟨htells, hshown.2.trans hstays⟩

/-! ## What is true of the window all along -/

/-- Whether the task that a window waits for is the latest one, with an outcome still to be received
and numbers that agree. -/
def Expects (w : Window) : Prop :=
  ∀ number, w.handle = some number → ∃ t, w.session.pipeline.tasks.head? = some t ∧
    t.number = number ∧ t.outcome = none ∧ t.Counts

/-- The number of the pending timers that stand for looking for news. -/
def polls (w : Window) : Nat := w.timers.countP fun t => t.2 = .poll

/-- Whether a window waits for a task just when it looks busy. -/
structure Minds (w : Window) : Prop where
  tells : w.appearance.Tells w.handle.isSome
  expects : w.Expects

theorem Minds.congr (h : w.Minds) (happearance : w'.appearance = w.appearance)
    (hhandle : w'.handle = w.handle)
    (htasks : w'.session.pipeline.tasks = w.session.pipeline.tasks) : w'.Minds := by
  refine ⟨?_, ?_⟩
  · rw [happearance, hhandle]
    exact h.tells
  · intro number hnumber
    rw [htasks]
    exact h.expects number (hhandle.symm.trans hnumber)

theorem Minds.startTask (h : w.Minds) (kind : TaskKind) (target : Path) (status : String)
    (indeterminate : Bool) :
    (w.startTask kind target status indeterminate).Minds ∧
      (w.startTask kind target status indeterminate).timers = w.timers := by
  unfold Window.startTask
  split
  · exact ⟨h.congr rfl rfl rfl, rfl⟩
  · split
    · exact ⟨h.congr rfl rfl rfl, rfl⟩
    · next s hs =>
      obtain ⟨-, hlatest, -⟩ := Session.start_spec hs
      have hkeeps := w.keeps_adopt s status indeterminate
      have hhandle : (w.adopt s status indeterminate).handle =
          some w.session.pipeline.tasks.length :=
        hkeeps.handle.trans (congrArg (Option.map Task.number) hlatest)
      refine ⟨⟨?_, ?_⟩, timers_setProgress _ _⟩
      · rw [hhandle]
        exact tells_adopt h.tells s status indeterminate
      · intro number hnumber
        obtain rfl : w.session.pipeline.tasks.length = number :=
          Option.some.inj (hhandle.symm.trans hnumber)
        rw [hkeeps.session]
        exact ⟨_, hlatest, rfl, rfl, trivial, List.forall_mem_nil _⟩

/-- Whether there is an outcome among the messages that a window is about to receive. -/
def Learns (w : Window) : Prop :=
  ∃ number t o, w.handle = some number ∧ w.session.pipeline.task? number = some t ∧
    .finished o ∈ t.queue

/-- The window goes on to be busy until an outcome is among its messages, and then it is idle. -/
theorem Minds.receive (h : w.Minds) (hhandle : w.handle = some number) :
    (w.receive number).Minds ∧ (w.receive number).timers = w.timers ∧
      ((w.receive number).handle = none ↔ w.Learns) := by
  obtain ⟨htells, hexpects⟩ := h
  obtain ⟨t, ht, rfl, hnone, hcounts⟩ := hexpects number hhandle
  obtain ⟨q, hpoll, hlatest⟩ := Pipeline.poll_of_head? ht
  rw [hhandle] at htells
  have hlearns : t.poll.1.isDone = true ↔ w.Learns := by
    have hdone : t.poll.1.isDone = true ↔ ∃ o, .finished o ∈ t.queue := by
      simp [Task.isDone, Task.poll, Task.isSome_received, hnone]
    rw [hdone]
    constructor
    · rintro ⟨o, ho⟩
      exact ⟨_, t, o, hhandle, Pipeline.task?_of_head? ht, ho⟩
    · rintro ⟨number, u, o, hnumber, hu, ho⟩
      obtain rfl : t.number = number := Option.some.inj (hhandle.symm.trans hnumber)
      obtain rfl : t = u := Option.some.inj ((Pipeline.task?_of_head? ht).symm.trans hu)
      exact ⟨o, ho⟩
  obtain ⟨hshows, hstays⟩ :=
    tells_foldl_onMessage (w := w.withPipeline q) htells hcounts.queue t.kind
  have hhead : (w.showing q t).session.pipeline.tasks.head? = some t.poll.1 := by
    rw [← hlatest]
    exact congrArg List.head? hstays.tasks
  rw [receive_eq ht hpoll hhead, ← hlearns]
  split
  · next hdone =>
    have hidle : (w.showing q t).settleDown.handle = none :=
      (w.showing q t).keeps_settleDown.handle
    refine ⟨⟨?_, ?_⟩, (timers_setProgress _ _).trans hstays.timers, iff_of_true hidle hdone⟩
    · rw [hidle]
      exact tells_settleDown hshows
    · intro number hnumber
      rw [hidle] at hnumber
      cases hnumber
  · next hdone =>
    have hwaits : (w.showing q t).handle = some t.number := hstays.handle.trans hhandle
    refine ⟨⟨?_, ?_⟩, hstays.timers, iff_of_false (by simp [hwaits]) hdone⟩
    · rw [hwaits]
      exact hshows
    · intro number hnumber
      obtain rfl : t.number = number := Option.some.inj (hwaits.symm.trans hnumber)
      exact ⟨_, hhead, rfl, Option.not_isSome_iff_eq_none.1 hdone, hcounts.stage,
        List.forall_mem_nil _⟩

theorem polls_after (w : Window) (delay : Nat) : (w.after delay .poll).polls = w.polls + 1 := by
  show List.countP _ (w.timers ++ [(w.now + delay, Timer.poll)]) = _
  rw [List.countP_append]
  rfl

/-- Looking for news sets the timer for the next time. -/
theorem Minds.poll (h : w.Minds) :
    w.poll.Minds ∧ w.poll.polls = w.polls + 1 ∧
      (w.handle.isSome → (w.poll.handle = none ↔ w.Learns)) := by
  unfold Window.poll
  cases hhandle : w.handle with
  | none => exact ⟨h.congr rfl rfl rfl, w.polls_after _, nofun⟩
  | some number =>
    obtain ⟨hminds, htimers, hlearns⟩ := h.receive hhandle
    have hpolls : (w.receive number).polls = w.polls := congrArg (List.countP _) htimers
    refine ⟨hminds.congr rfl rfl rfl, ?_, fun _ => hlearns⟩
    rw [polls_after, hpolls]

/-! ## The turns of the main loop -/

/-- What the main loop may turn to: a request, a choice or another action of the user, the timer
that is due first by a time, a step of the worker, another engine, other surroundings, or nothing
but a later time. -/
inductive Turn
  | openArchive (archive : Path)
  | choose (entry : Nat) (answer : String)
  | select (item : Option Nat)
  | clearLog
  | fire (limit : Nat)
  | work
  | supply (factory : Factory)
  | surround (world : World)
  | wait (now : Nat)

/-- The window after a turn of the main loop. -/
def turn (w : Window) : Turn → Window
  | .openArchive archive => w.openArchive archive
  | .choose entry answer => w.chooseEntry entry answer
  | .select item => w.select item
  | .clearLog => w.clearLog
  | .fire limit => match nextDue? limit w.timers with
    | none => w
    | some ((due, timer), timers) => { w with timers, now := max w.now due }.fire timer
  | .work => w.withPipeline w.session.pipeline.step
  | .supply factory => w.supplied factory
  | .surround world => { w with session := w.session.withWorld world }
  | .wait now => { w with now }

/-- The window after some turns of the main loop. -/
def turns (w : Window) (ts : List Turn) : Window := ts.foldl turn w

/-- The timer that is fired is taken off the list. -/
theorem perm_of_nextDue? {limit : Nat} {timers rest : List (Nat × Timer)} {t : Nat × Timer}
    (h : nextDue? limit timers = some (t, rest)) : timers.Perm (t :: rest) := by
  induction timers generalizing t rest with
  | nil => cases h
  | cons first others ih =>
    rw [nextDue?] at h
    split at h
    · next u left hu =>
      split at h
      · cases h
        exact .refl _
      · cases h
        exact ((ih hu).cons first).trans (.swap _ _ _)
    · split at h
      · cases h
        exact .refl _
      · cases h

/-- Whether a window is busy for good reason and goes on to look for news. -/
structure Watches (w : Window) : Prop extends Minds w where
  polls : w.polls = 1

theorem Watches.congr (h : w.Watches) (hspares : w.Spares w') : w'.Watches where
  toMinds := h.toMinds.congr hspares.appearance hspares.handle hspares.tasks
  polls := (congrArg (List.countP _) hspares.timers).trans h.polls

theorem Watches.startTask (h : w.Watches) (kind : TaskKind) (target : Path) (status : String)
    (indeterminate : Bool) : (w.startTask kind target status indeterminate).Watches := by
  obtain ⟨hminds, htimers⟩ := h.toMinds.startTask kind target status indeterminate
  exact ⟨hminds, (congrArg (List.countP _) htimers).trans h.polls⟩

theorem Watches.openArchive (h : w.Watches) (archive : Path) : (w.openArchive archive).Watches := by
  let v : Window := { w with lastDirectory := some archive.parent }
  have hcleared : ((v.clearTree.showText "" none).note s!"Decompiling {archive}\n").Watches :=
    h.congr ⟨⟨rfl, rfl, rfl⟩, rfl⟩
  exact hcleared.startTask _ _ _ _

/-- A target is asked for only if there is anything to save, and need not be given. -/
theorem Watches.askTarget {go : Window → Window} (h : w.Watches) (kind : TaskKind)
    (title : String) (d : Dialog) (answer text status : String) (target : Path)
    (hgo : go w = if answer.isEmpty then w.say d
      else ((w.say d).note text).startTask kind target status false) :
    (w.ifResults title go).Watches := by
  unfold ifResults
  split
  · rw [hgo]
    split
    · exact h.congr ⟨⟨rfl, rfl, rfl⟩, rfl⟩
    · have hasked : ((w.say d).note text).Watches := h.congr ⟨⟨rfl, rfl, rfl⟩, rfl⟩
      exact hasked.startTask _ _ _ _
  · exact h.congr ⟨⟨rfl, rfl, rfl⟩, rfl⟩

theorem Watches.chooseEntry (h : w.Watches) (entry : Nat) (answer : String) :
    (w.chooseEntry entry answer).Watches := by
  match entry with
  | 0 =>
    let d : Dialog := .openFile "Open archive" (w.lastDirectory.getD Files.cwd).toText archiveTypes
    have hasked : (w.say d).Watches := h.congr ⟨⟨rfl, rfl, rfl⟩, rfl⟩
    show (if answer.isEmpty then w.say d else (w.say d).openArchive (Path.ofString answer)).Watches
    split
    · exact hasked
    · exact hasked.openArchive _
  | 2 =>
    show (w.saveToFolder answer).Watches
    exact h.askTarget .exportDirectory _ _ answer _ _ _ rfl
  | 3 =>
    show (w.saveToZip answer).Watches
    exact h.askTarget .exportArchive _ _ answer _ _ _ rfl
  | 5 => exact h.congr ⟨⟨rfl, rfl, rfl⟩, rfl⟩
  | 1 | 4 | _ + 6 => exact h

theorem Watches.select (h : w.Watches) (item : Option Nat) : (w.select item).Watches := by
  obtain ⟨world, editor, errors, hselect⟩ := w.exists_select_eq item
  rw [hselect]
  exact h.congr ⟨⟨rfl, rfl, rfl⟩, rfl⟩

/-- The timer that looks for news is replaced by the next one, and every other one leaves it. -/
theorem Watches.fire (h : w.Watches) (limit : Nat) : (w.turn (.fire limit)).Watches := by
  rw [turn]
  split
  · exact h
  · next due timer timers hdue =>
    let v : Window := { w with timers, now := max w.now due }
    have hminds : v.Minds := h.toMinds.congr rfl rfl rfl
    have hpolls := (perm_of_nextDue? hdue).countP_eq fun t : Nat × Timer => t.2 = .poll
    rw [show w.timers.countP _ = 1 from h.polls, List.countP_cons] at hpolls
    cases timer with
    | poll =>
      obtain ⟨hpolled, hnext, -⟩ := hminds.poll
      refine ⟨hpolled, ?_⟩
      show v.poll.polls = 1
      rw [hnext]
      exact hpolls.symm
    | openArchive archive =>
      have hwatches : v.Watches := ⟨hminds, hpolls.symm⟩
      exact hwatches.openArchive archive

theorem Watches.work (h : w.Watches) : (w.turn .work).Watches := by
  refine ⟨⟨h.tells, ?_⟩, h.polls⟩
  intro number hnumber
  obtain ⟨t, ht, hown, hnone, hcounts⟩ := h.expects number hnumber
  exact ⟨_, (Pipeline.head?_step ht).2.1, hown, hnone, hcounts.advance _⟩

/-- Each turn of the main loop leaves the window looking for news, and busy for good reason. -/
theorem Watches.turn (h : w.Watches) (t : Turn) : (w.turn t).Watches := by
  cases t with
  | openArchive archive => exact h.openArchive archive
  | choose entry answer => exact h.chooseEntry entry answer
  | select item => exact h.select item
  | fire limit => exact h.fire limit
  | work => exact h.work
  | clearLog => exact h.congr ⟨⟨rfl, rfl, rfl⟩, rfl⟩
  | supply factory => exact h.congr ⟨⟨rfl, rfl, rfl⟩, rfl⟩
  | surround world => exact h.congr ⟨⟨rfl, rfl, rfl⟩, rfl⟩
  | wait now => exact h.congr ⟨⟨rfl, rfl, rfl⟩, rfl⟩

theorem Watches.turns (h : w.Watches) (ts : List Turn) : (w.turns ts).Watches := by
  induction ts generalizing w with
  | nil => exact h
  | cons t rest ih => exact ih (h.turn t)

theorem watches_launch (settings : Settings) (factory : Option Factory) (world : World)
    (archive : Option Path) : (launch (.new settings factory world) archive).Watches := by
  have hnew : (new (.new settings factory world)).Watches :=
    ⟨⟨⟨rfl, rfl, rfl, iff_of_false nofun Bool.false_ne_true, fun _ => rfl,
      fun _ => show (0 : Int) ≤ 100 by decide⟩, nofun⟩, rfl⟩
  cases archive with
  | none => exact hnew
  | some archive => exact ⟨hnew.toMinds.congr rfl rfl rfl, rfl⟩

/-- The timer that looks for news receives what there is. -/
theorem Watches.look (h : w.Watches) {limit due : Nat} {rest : List (Nat × Timer)}
    (hdue : nextDue? limit w.timers = some ((due, .poll), rest))
    (hhandle : w.handle.isSome = true) : (w.turn (.fire limit)).handle = none ↔ w.Learns := by
  let v : Window := { w with timers := rest, now := max w.now due }
  have hminds : v.Minds := h.toMinds.congr rfl rfl rfl
  have hlook : w.turn (.fire limit) = v.poll := by
    rw [Window.turn, hdue]
    rfl
  obtain ⟨-, -, hlearns⟩ := hminds.poll
  rw [hlook]
  exact hlearns hhandle

theorem isEnabled_of_busy {i : Nat} (h : i ∈ busyEntries) (w : Window) :
    w.isEnabled i = !w.menuDisabled := by
  rw [isEnabled, List.contains_iff_mem.2 h, Bool.and_true]

/-- Whatever turns the main loop takes, and whatever the worker does in between, one timer that
looks for news is pending.  The entries of the menu that would start a task, the tree and the cursor
tell whether the window waits for a task, and the bar rests while it does not; a bar that shows how
far a task is shows no more than there is to do.  The window is idle again as soon as its timer
finds the outcome, and not before. -/
theorem busy_of_turns (settings : Settings) (factory : Option Factory) (world : World)
    (archive : Option Path) (ts : List Turn) :
    let w := (launch (.new settings factory world) archive).turns ts
    w.polls = 1 ∧
      (∀ i ∈ busyEntries, w.isEnabled i = w.handle.isNone) ∧
      w.treeDisabled = w.handle.isSome ∧
      (w.cursor = some busyCursor ↔ w.handle.isSome = true) ∧
      (w.handle = none → w.progress = .idle) ∧
      (w.progress.indeterminate = false → w.progress.value ≤ w.progress.maximum) ∧
      ∀ limit due rest, nextDue? limit w.timers = some ((due, .poll), rest) →
        w.handle.isSome = true →
        let v := w.turn (.fire limit)
        (v.handle = none ↔ w.Learns) ∧
          (w.Learns → (∀ i ∈ busyEntries, v.isEnabled i = true) ∧ v.treeDisabled = false ∧
            v.cursor ≠ some busyCursor ∧ v.progress = .idle) := by
  intro w
  have hwatches : w.Watches := (watches_launch settings factory world archive).turns ts
  refine ⟨hwatches.polls, ?_, hwatches.tells.tree, hwatches.tells.cursor, ?_,
    hwatches.tells.within, ?_⟩
  · intro i hi
    rw [isEnabled_of_busy hi, show w.menuDisabled = _ from hwatches.tells.menu]
    exact Option.not_isSome _
  · intro hidle
    exact hwatches.tells.rests (by rw [hidle]; rfl)
  · intro limit due rest hdue hwaits v
    have hlook := hwatches.look hdue hwaits
    refine ⟨hlook, fun hlearns => ?_⟩
    have htells := (hwatches.turn (.fire limit)).tells
    rw [hlook.2 hlearns] at htells
    refine ⟨?_, htells.tree, fun hbusy => Bool.false_ne_true (htells.cursor.1 hbusy),
      htells.rests rfl⟩
    intro i hi
    rw [isEnabled_of_busy hi, show v.menuDisabled = _ from htells.menu]
    rfl

namespace Sample

/-- The worker has reported one class and the outcome, and the window has not looked yet. -/
def waiting : Window :=
  (launch (.new .default (some (Session.Sample.engine "p/A" [])) (.start .empty {})) none).turns
    (.openArchive Session.Sample.first :: List.replicate 6 .work)

end Sample

/-- A look at a task that has reported its outcome finds the window idle again. -/
theorem busy_of_turns_sample :
    let w := Sample.waiting
    let v := w.turn (.fire 1000)
    w.handle = some 0 ∧ (∀ i ∈ busyEntries, w.isEnabled i = false) ∧ w.Learns ∧
      v.handle = none ∧ (∀ i ∈ busyEntries, v.isEnabled i = true) ∧ v.treeDisabled = false ∧
      v.cursor ≠ some busyCursor ∧ v.progress = .idle := by
  intro w v
  obtain ⟨-, hentries, -, -, -, -, hlook⟩ := busy_of_turns .default
    (some (Session.Sample.engine "p/A" [])) (.start .empty {}) none
    (.openArchive Session.Sample.first :: List.replicate 6 .work)
  have hhandle : w.handle = some 0 := by decide +kernel
  have hwaits : w.handle.isSome = true := by rw [hhandle]; rfl
  have hidle : v.handle = none := by decide +kernel
  have hdue : nextDue? 1000 w.timers = some ((150, .poll), []) := by decide +kernel
  obtain ⟨hlearns, hready⟩ := hlook 1000 150 [] hdue hwaits
  obtain ⟨henabled, htree, hcursor, hprogress⟩ := hready (hlearns.1 hidle)
  refine ⟨hhandle, ?_, hlearns.1 hidle, hidle, henabled, htree, hcursor, hprogress⟩
  intro i hi
  calc w.isEnabled i = w.handle.isNone := hentries i hi
    _ = false := by rw [hhandle]; rfl

/-! ## The passing of time -/

theorem turns_append (w : Window) (ts us : List Turn) :
    w.turns (ts ++ us) = (w.turns ts).turns us := List.foldl_append

theorem turns_work (n : Nat) (w : Window) :
    w.turns (List.replicate n .work) = w.withPipeline (w.session.pipeline.work n) := by
  induction n generalizing w with
  | zero => rfl
  | succ n ih => exact ih (w.turn .work)

theorem exists_turns_settle (w : Window) : ∃ ts : List Turn, w.turns ts = w.settle := by
  obtain ⟨n, hn⟩ := exists_work_eq_settle w.session.pipeline
  refine ⟨List.replicate n .work, ?_⟩
  rw [turns_work, hn]
  rfl

theorem exists_turns_fireDue (limit fuel : Nat) (w : Window) :
    ∃ ts : List Turn, w.turns ts = fireDue limit fuel w := by
  induction fuel generalizing w with
  | zero => exact ⟨[], rfl⟩
  | succ fuel ih =>
    rw [fireDue]
    split
    · exact ⟨[], rfl⟩
    · next due timer timers hdue =>
      let v : Window := { w with timers, now := max w.now due }.fire timer
      obtain ⟨steps, hsteps⟩ := v.exists_turns_settle
      obtain ⟨rest, hrest⟩ := ih v.settle
      have hfire : w.turn (.fire limit) = v := by
        rw [turn, hdue]
      refine ⟨.fire limit :: (steps ++ rest), ?_⟩
      show (w.turn (.fire limit)).turns (steps ++ rest) = _
      rw [hfire, turns_append, hsteps, hrest]

/-- As time passes the main loop turns to the timers that are due, and the worker runs on. -/
theorem exists_turns_eq_tick (w : Window) (delay : Nat) :
    ∃ ts : List Turn, w.turns ts = w.tick delay := by
  obtain ⟨ts, hts⟩ := exists_turns_fireDue (w.now + delay)
    (w.timers.length + delay / w.session.settings.pollInterval + 1) w
  refine ⟨ts ++ [.wait (w.now + delay)], ?_⟩
  rw [turns_append, hts]
  rfl

end Window

end ClassBrowser
