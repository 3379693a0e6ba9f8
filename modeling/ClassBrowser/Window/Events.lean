import ClassBrowser.Window.Basic

/-!
# What happens to the window

The actions of the user and the news of a task.  A task is started for the user unless the window
waits for one already; its messages arrive when the window looks for them (`poll`), and the outcome
makes the window idle again.

Time is a number of milliseconds that only `tick` moves.  A timer fires when its time has come, the
earlier one first and of several the one that was set first.  Looking for news sets the next timer,
so that exactly one of them is pending as long as the window is there.
-/

namespace ClassBrowser.Window

def new (session : Session) : Window :=
  let w : Window := {
    session, handle := none, items := [], nextItem := 0, members := [], treeDisabled := false,
    editor := .empty, log := "", status := "Ready", failed := false, progress := .idle,
    cursor := none, menuDisabled := false, lastDirectory := none, refusals := .none, timers := [],
    now := 0, dialogs := [], errors := [], alive := true }
  ((w.setStatus "Open an archive to begin.").stopProgress).after session.settings.pollInterval .poll

/-- A window that has just come up and is about to open an archive. -/
def launch (session : Session) (archive : Option Path) : Window :=
  match archive with
  | none => new session
  | some archive => (new session).after 0 (.openArchive archive)

/-! ## Starting tasks -/

def busyTitle : String := "Operation in progress"

/-- Takes over a task that was started, and shows that it goes on. -/
def adopt (w : Window) (session : Session) (status : String) (indeterminate : Bool) : Window :=
  let w := { w with session, handle := session.pipeline.tasks.head?.map Task.number }
  ((w.setBusy true).setStatus status).startProgress indeterminate

/-- Starts a task, unless the window waits for one or another one is running. -/
def startTask (w : Window) (kind : TaskKind) (target : Path) (status : String)
    (indeterminate : Bool) : Window :=
  if w.handle.isSome then w.say (.info busyTitle RequestError.busy.message)
  else match w.session.start kind target with
    | .error e => w.say (.info busyTitle e.message)
    | .ok session => w.adopt session status indeterminate

/-- Opens an archive; what was shown before goes at once. -/
def openArchive (w : Window) (archive : Path) : Window :=
  let w := { w with lastDirectory := some archive.parent }
  let w := (w.clearTree.showText "" none).note s!"Decompiling {archive}\n"
  w.startTask .decompileArchive archive s!"Decompiling {archive.name}..." true

def askArchive (w : Window) (answer : String) : Window :=
  let w := w.say (.openFile "Open archive" (w.lastDirectory.getD Files.cwd).toText archiveTypes)
  if answer.isEmpty then w else w.openArchive (Path.ofString answer)

/-- Goes on only if there are classes to save. -/
def ifResults (w : Window) (title : String) (go : Window → Window) : Window :=
  if w.session.hasResults then go w else w.say (.warning title "No decompiled classes to save.")

def saveToFolder (w : Window) (answer : String) : Window :=
  w.ifResults "Save to folder" fun w =>
    let w := w.say (.chooseDirectory "Select output folder")
    if answer.isEmpty then w
    else (w.note s!"Saving classes to {answer}\n").startTask .exportDirectory
      (Path.ofString answer) "Saving classes to folder..." false

def saveToZip (w : Window) (answer : String) : Window :=
  w.ifResults "Save to ZIP" fun w =>
    let w := w.say (.saveFile "Save as ZIP" w.session.exportName ".zip" zipTypes)
    if answer.isEmpty then w
    else (w.note s!"Saving classes to {answer}\n").startTask .exportArchive
      (Path.ofString answer) "Saving classes to ZIP..." false

/-- Chooses an entry of the File menu; `answer` is what its dialog returns. -/
def chooseEntry (w : Window) (index : Nat) (answer : String) : Window :=
  match index with
  | 0 => w.askArchive answer
  | 2 => w.saveToFolder answer
  | 3 => w.saveToZip answer
  | 5 => { w with alive := false }
  | _ => w

/-! ## The news of a task -/

def onProgress (w : Window) (p : Progress) : Window :=
  let w := match p.total with
    | none => w
    | some total => if total = 0 then w else w.showProgress p.completed total
  w.setStatus p.text

def onSuccess (w : Window) (kind : TaskKind) (result : Option TaskResult) : Window :=
  let w := { w with session := w.session.apply (.success result) }
  match kind, result with
  | .decompileArchive, _ =>
    let n := w.session.store.size
    ((w.showTree w.session.tree).setStatus s!"Decompiled {n} classes. Ready").note
      s!"Decompiled {n} classes.\n"
  | _, some (.exported summary) =>
    let w := w.setStatus s!"Saved all classes to {summary.target}"
    let w := w.note s!"Saved {summary.written.length} classes to {summary.target}.\n"
    let w := if summary.skipped.isEmpty then w
      else w.note s!"Skipped {summary.skipped.length} classes without content.\n"
    w.say (.info "Success" "All classes saved successfully!")
  | _, _ => w

def onFailure (w : Window) (kind : TaskKind) (reason : String) : Window :=
  let w := { w with session := w.session.apply (.failure reason) }
  let (w, title) := match kind with
    | .decompileArchive => (w.showTree w.session.tree, "Error decompiling archive")
    | _ => (w, "Error saving classes")
  let w := w.setError s!"Error: {reason}"
  (w.note s!"{title}: {failureDetail}\n").say (.error "Error" s!"{title}: {reason}")

def onMessage (w : Window) (kind : TaskKind) : Message → Window
  | .progress p => w.onProgress p
  | .finished (.success result) => w.onSuccess kind result
  | .finished (.failure reason) => w.onFailure kind reason

/-- Shows that the window waits for nothing. -/
def settleDown (w : Window) : Window := ({ w with handle := none }.setBusy false).stopProgress

/-- Receives the messages of the task that the window waits for. -/
def receive (w : Window) (number : Nat) : Window :=
  match w.session.pipeline.task? number with
  | none => w
  | some t =>
    let (pipeline, messages) := w.session.pipeline.poll number
    let w := { w with session := { w.session with pipeline } }
    let w := messages.foldl (fun w m => w.onMessage t.kind m) w
    if ((w.session.pipeline.task? number).map Task.isDone).getD false then w.settleDown else w

/-- Looks for news, and looks again later. -/
def poll (w : Window) : Window :=
  let w := match w.handle with
    | none => w
    | some number => w.receive number
  w.after w.session.settings.pollInterval .poll

/-! ## The class tree -/

/-- Shows the class that an item stands for; nothing for a package or no item. -/
def select (w : Window) (item : Option Nat) : Window :=
  match item.bind w.members.get? with
  | none => w.showText "" none
  | some m => match w.session.highlighted m.qualified with
    | (session, .ok (text, spans)) => { w with session }.showText text (some spans)
    | (session, .error t) => { w with session, errors := w.errors ++ [t] }

/-- Starts to decompile an archive without the window's knowledge. -/
def openBehind (w : Window) (archive : Path) : Except RequestError Window := do
  return { w with session := ← w.session.openArchive archive }

/-! ## Time -/

def settle (w : Window) : Window :=
  { w with session := { w.session with pipeline := w.session.pipeline.settle } }

def release (w : Window) : Window :=
  { w with session := { w.session with pipeline := w.session.pipeline.release } }

def fire (w : Window) : Timer → Window
  | .poll => w.poll
  | .openArchive archive => w.openArchive archive

/-- The earliest timer that is due by a time, the first of several, and the timers without it. -/
def nextDue? (limit : Nat) : List (Nat × Timer) → Option ((Nat × Timer) × List (Nat × Timer))
  | [] => none
  | t :: rest =>
    match nextDue? limit rest with
    | some (u, others) =>
      if t.1 ≤ u.1 then some (t, rest) else some (u, t :: others)
    | none => if t.1 ≤ limit then some (t, rest) else none

/-- Fires the timers that are due by a time, in order, but at most `fuel` of them. -/
def fireDue (limit : Nat) : (fuel : Nat) → Window → Window
  | 0, w => w
  | fuel + 1, w => match nextDue? limit w.timers with
    | none => w
    | some ((due, timer), timers) =>
      fireDue limit fuel ({ w with timers, now := max w.now due }.fire timer).settle

/-- Lets time pass.  Every timer that fires looks for news once and sets at most one other, a poll
interval later, which bounds their number. -/
def tick (w : Window) (delay : Nat) : Window :=
  let limit := w.now + delay
  let w := fireDue limit (w.timers.length + delay / w.session.settings.pollInterval + 1) w
  { w with now := limit }

end ClassBrowser.Window
