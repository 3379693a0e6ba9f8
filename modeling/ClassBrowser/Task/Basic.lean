import ClassBrowser.Engine.Act
import ClassBrowser.Engine.Basic
import ClassBrowser.Export.Writer
import ClassBrowser.Package.Build
import ClassBrowser.Store

/-!
# Tasks

A task decompiles an archive or exports the classes that are known.  Its worker sends messages into
a queue: any number of progress reports and then one outcome.  Whoever started the task receives
them from the queue, in order; the task is done for him once he has received the outcome.

`Stage` is where the worker stands, with all that it has in hand: the engine and the acts that it is
still to perform, or the writer with the classes that are left.  A stage together with the workspace
is all that the next step depends on, so that the course of a task is the iteration of one function.

Receiving is one function of the queue for polling (`Task.poll`), where all that is there is taken,
and one for waiting (`Task.wait`), where the messages up to the outcome are.
-/

namespace ClassBrowser

/-! ## Kinds of tasks and their ends -/

inductive TaskKind
  | decompileArchive
  | exportDirectory
  | exportArchive
deriving DecidableEq, Repr, Inhabited

def TaskKind.name : TaskKind → String
  | .decompileArchive => "decompile_archive"
  | .exportDirectory => "export_directory"
  | .exportArchive => "export_archive"

def TaskKind.ofName? (name : String) : Option TaskKind :=
  [TaskKind.decompileArchive, .exportDirectory, .exportArchive].find? (·.name == name)

theorem TaskKind.ofName?_name (k : TaskKind) : ofName? k.name = some k := by
  cases k <;> decide

inductive TaskFailure
  | noEngine
  | thrown (t : Thrown)
  | unwritten (e : Export.ExportError)
deriving DecidableEq, Repr, Inhabited

def TaskFailure.message : TaskFailure → String
  | .noEngine => "No decompiler engine is configured."
  | .thrown t => t.message
  | .unwritten e => e.message

/-- The reason that a failed task reports: its wording, or its kind where there is none. -/
def TaskFailure.reason : TaskFailure → String
  | .thrown t => t.reason
  | e => e.message

/-- How far a task is.  Where the total is not known yet, progress is indeterminate. -/
structure Progress where
  completed : Nat
  total : Option Int
  text : String
deriving DecidableEq, Repr, Inhabited

def Progress.indeterminate (p : Progress) : Bool := p.total.isNone

/-- What an export has done: its target, and the classes that were written or had no text. -/
structure Summary where
  target : Path
  written : List String
  skipped : List String
deriving DecidableEq, Repr, Inhabited

inductive TaskResult
  | decompiled (archive : Path) (tree : Package) (count : Nat)
  | exported (summary : Summary)
deriving DecidableEq, Repr, Inhabited

inductive Outcome
  | success (result : Option TaskResult)
  | failure (reason : String)
deriving DecidableEq, Repr, Inhabited

inductive Message
  | progress (p : Progress)
  | finished (o : Outcome)
deriving DecidableEq, Repr, Inhabited

def Message.outcome? : Message → Option Outcome
  | .progress _ => none
  | .finished o => some o

/-! ## Where a worker stands -/

/-- An export that is under way: the number of classes that were handled, and of all classes, those
that are left, and what was done so far. -/
structure Exporting where
  writer : Export.Writer
  handled : Nat
  total : Nat
  left : List ClassUnit
  summary : Summary
deriving Inhabited

/-- Where the worker of a task stands. -/
inductive Stage
  /-- Accepted, and nothing done yet. -/
  | ready
  /-- The engine takes the archive. -/
  | adding (e : Engine) (acts : List Act)
  /-- The engine decompiles; so many classes were reported, of so many. -/
  | decompiling (e : Engine) (acts : List Act) (completed : Nat) (total : Option Int)
  /-- The next class is to be exported. -/
  | exporting (x : Exporting)
  /-- The engine is asked for the text of the class that is exported. -/
  | rendering (x : Exporting) (name : String) (acts : List Act) (text : Option String)
  /-- The outcome is sent. -/
  | reported
  /-- The worker is gone. -/
  | finished
deriving Inhabited

def Stage.isFinished : Stage → Bool
  | .finished => true
  | _ => false

/-- Whether the worker is about to wait. -/
def Stage.isBlocked : Stage → Bool
  | .adding _ (.block :: _) => true
  | .decompiling _ (.block :: _) _ _ => true
  | .rendering _ _ (.block :: _) _ => true
  | _ => false

/-! ## Receiving messages -/

/-- A task with its queue of messages and the outcome that was received from it. -/
structure Task where
  number : Nat
  kind : TaskKind
  target : Path
  queue : List Message
  outcome : Option Outcome
  stage : Stage
deriving Inhabited

namespace Task

def isRunning (t : Task) : Bool := !t.stage.isFinished

def isDone (t : Task) : Bool := t.outcome.isSome

/-- The last outcome among messages, or the one known before. -/
def received (known : Option Outcome) (messages : List Message) : Option Outcome :=
  messages.foldl (fun known m => m.outcome?.orElse fun _ => known) known

/-- Receives all messages that are in the queue. -/
def poll (t : Task) : Task × List Message :=
  ({ t with queue := [], outcome := received t.outcome t.queue }, t.queue)

/-- The messages up to the first outcome, which is included. -/
def throughOutcome : List Message → List Message
  | [] => []
  | m :: rest => if m.outcome?.isSome then [m] else m :: throughOutcome rest

/-- Receives the messages that are in the queue, up to the outcome; nothing once that was received.
The outcome does not come if the worker is gone without one. -/
def wait (t : Task) : Task × List Message :=
  if t.isDone then (t, [])
  else
    let messages := throughOutcome t.queue
    ({ t with
        queue := t.queue.drop messages.length, outcome := received t.outcome messages }, messages)

end Task

end ClassBrowser
