import ClassBrowser.Task.Basic

/-!
# The task pipeline

One task at a time works on the store and with the engine.  The worker of the latest task proceeds
by small steps (`Workspace.advance`), each of which changes the workspace and sends messages; a
request for a further task is refused while the worker is there.

## Decompiling

A decompile task empties the store, closes the engine of the task before, and fills the store as the
new engine reports classes; the engine is kept only if it succeeds.  If it throws, it is closed and
the task fails; what it has reported by then stays in the store.

## Exporting

An export works on a snapshot of the store and asks the engine for texts that the store does not
have.  Its target is closed however the export ends (`failExport`, `endExport`).  If the target
cannot be closed, that is the failure: it takes the place of another failure, and that of success.

## Losing the worker

What `Act.abort` throws is no failure of the task: the worker is gone and nothing is sent, except
that the target of an export is closed first, and it is a failure if that cannot be done.  The next
task may then start as after any other.
-/

namespace ClassBrowser

/-! ## What a step works on -/

/-- What all tasks share. -/
structure Workspace where
  world : World
  store : Store
  engine : Option Engine
  factory : Option Factory
  delimiter : Text.Loose
  extension : Text.Loose
deriving Inhabited

/-- The outcome of one step of a worker: the workspace, where the worker stands, and what it has
sent. -/
structure Advance where
  workspace : Workspace
  stage : Stage
  sent : List Message
deriving Inhabited

namespace Workspace

def withWorld (s : Workspace) (world : World) : Workspace := { s with world }

def withFiles (s : Workspace) (files : Files) : Workspace :=
  s.withWorld { s.world with files }

def note (s : Workspace) (level : Log.Level) (text : String) : Workspace :=
  s.withWorld (s.world.note ⟨level, .tasks, text⟩)

def closeEngine (s : Workspace) (e : Engine) : Workspace :=
  s.withWorld (e.close s.world).1

def closeWriter (s : Workspace) (w : Export.Writer) : Workspace :=
  s.withFiles (w.close s.world.files).1

/-- What keeps the target of an export from being closed. -/
def closeFailure? (s : Workspace) (w : Export.Writer) : Option TaskFailure :=
  (w.close s.world.files).2.2.map .unwritten

/-- The hierarchy of the classes that are known; invalid names are logged and left out. -/
def tree (s : Workspace) : Workspace × Package :=
  let (tree, records) := Package.ofValidNames s.delimiter s.store.names
  (s.withWorld (s.world.noteAll records), tree)

def fail (s : Workspace) (kind : TaskKind) (f : TaskFailure) : Advance :=
  ⟨s.note .error s!"Task {kind.name} failed: {f.message}", .reported,
    [.finished (.failure f.reason)]⟩

def succeed (s : Workspace) (r : TaskResult) : Advance :=
  ⟨s, .reported, [.finished (.success (some r))]⟩

def silently (s : Workspace) (stage : Stage) : Advance := ⟨s, stage, []⟩

/-! ## Decompiling -/

def beginDecompile (s : Workspace) (archive : Path) : Advance :=
  match s.factory with
  | none => s.fail .decompileArchive .noEngine
  | some factory =>
    let s := { s with store := .empty }
    let s := match s.engine with
      | some e => { s.closeEngine e with engine := none }
      | none => s
    let s := s.note .info s!"Decompiling {archive}"
    match factory.make s.world with
    | (w, .error t) => (s.withWorld w).fail .decompileArchive (.thrown t)
    | (w, .ok e) =>
      let (w, e, acts) := e.addSource w archive
      (s.withWorld w).silently (.adding e acts)

/-- Ends a decompile task whose engine has thrown. -/
def failEngine (s : Workspace) (e : Engine) (t : Thrown) : Advance :=
  (s.closeEngine e).fail .decompileArchive (.thrown t)

/-- Performs an act of the engine that takes the archive. -/
def advanceAdding (s : Workspace) (e : Engine) : List Act → Advance
  | [] =>
    let (w, e, acts) := e.decompile s.world
    (s.withWorld w).silently (.decompiling e acts 0 none)
  | .throw t :: _ => s.failEngine e t
  | .abort _ :: _ => s.silently .finished
  | .note record :: rest => (s.withWorld (s.world.note record)).silently (.adding e rest)
  | _ :: rest => s.silently (.adding e rest)

def finishDecompile (s : Workspace) (archive : Path) (e : Engine) : Advance :=
  let (s, tree) := { s with engine := some e }.tree
  s.succeed (.decompiled archive tree s.store.size)

/-- Performs an act of the engine that decompiles.  The total is never less than the number of
classes that were reported. -/
def advanceDecompiling (s : Workspace) (archive : Path) (e : Engine) (completed : Nat)
    (total : Option Int) : List Act → Advance
  | [] => s.finishDecompile archive e
  | .unit name text :: rest =>
    let completed := completed + 1
    let total := total.map fun n => max n (completed : Int)
    ⟨{ s with store := s.store.put name text }, .decompiling e rest completed total,
      [.progress ⟨completed, total, s!"Decompiled {name}"⟩]⟩
  | .total count :: rest =>
    s.silently (.decompiling e rest completed (some (max count completed)))
  | .throw t :: _ => s.failEngine e t
  | .abort _ :: _ => s.silently .finished
  | .note record :: rest =>
    (s.withWorld (s.world.note record)).silently (.decompiling e rest completed total)
  | .block :: rest => s.silently (.decompiling e rest completed total)

/-! ## Exporting -/

/-- Begins an export: takes the snapshot and opens the target. -/
def beginExport (s : Workspace) (kind : TaskKind) (writer : Export.Writer) : Advance :=
  let units := s.store.units
  let s := s.note .info s!"Exporting {units.length} classes to {writer.target}"
  match writer.openTarget s.world.files with
  | (files, .error e) =>
    (s.withFiles files).fail kind (.unwritten e)
  | (files, .ok writer) =>
    (s.withFiles files).silently
      (.exporting ⟨writer, 0, units.length, units, ⟨writer.target, [], []⟩⟩)

def handled (s : Workspace) (x : Exporting) : Advance :=
  let n := x.handled + 1
  ⟨s, .exporting { x with handled := n },
    [.progress ⟨n, some x.total, s!"Saved {n} of {x.total} classes"⟩]⟩

/-- Ends an export that cannot go on.  The target is closed first, and if it cannot be, that is the
failure in the place of the other. -/
def failExport (s : Workspace) (kind : TaskKind) (writer : Export.Writer) (f : TaskFailure) :
    Advance :=
  (s.closeWriter writer).fail kind ((s.closeFailure? writer).getD f)

/-- Closes the target of an export that has come to its end, and goes on if it can be closed. -/
def endExport (s : Workspace) (kind : TaskKind) (writer : Export.Writer)
    (next : Workspace → Advance) : Advance :=
  match s.closeFailure? writer with
  | none => next (s.closeWriter writer)
  | some f => (s.closeWriter writer).fail kind f

/-- Exports a class whose text is known, or skips one that has none. -/
def exportUnit (s : Workspace) (kind : TaskKind) (x : Exporting) (name : String) :
    Option String → Advance
  | none =>
    (s.note .debug s!"No content for {name}; skipping").handled
      { x with summary := { x.summary with skipped := x.summary.skipped ++ [name] } }
  | some text =>
    match x.writer.write s.world.files name text with
    | (files, writer, .error e) =>
      (s.withFiles files).failExport kind writer (.unwritten e)
    | (files, writer, .ok _) =>
      (s.withFiles files).handled
        { x with
          writer, summary := { x.summary with written := x.summary.written ++ [name] } }

/-- Takes the next class of an export, or ends the export. -/
def advanceExporting (s : Workspace) (kind : TaskKind) (x : Exporting) : Advance :=
  match x.left with
  | [] => s.endExport kind x.writer (·.succeed (.exported x.summary))
  | u :: left =>
    let x := { x with left }
    match u.text, s.engine with
    | none, some e =>
      let (w, acts, text) := e.render s.world u.name
      (s.withWorld w).silently (.rendering x u.name acts text)
    | text, _ => s.exportUnit kind x u.name text

def advanceRendering (s : Workspace) (kind : TaskKind) (x : Exporting) (name : String)
    (text : Option String) : List Act → Advance
  | [] => s.exportUnit kind x name text
  | .throw t :: _ => s.failExport kind x.writer (.thrown t)
  | .abort _ :: _ => s.endExport kind x.writer (·.silently .finished)
  | .note record :: rest =>
    (s.withWorld (s.world.note record)).silently (.rendering x name rest text)
  | _ :: rest => s.silently (.rendering x name rest text)

/-! ## Steps -/

def writerFor (s : Workspace) (kind : TaskKind) (target : Path) : Export.Writer :=
  match kind with
  | .exportDirectory => .forDirectory target s.delimiter s.extension
  | _ => .forArchive target s.delimiter s.extension

def advance (s : Workspace) (kind : TaskKind) (target : Path) : Stage → Advance
  | .ready => match kind with
    | .decompileArchive => s.beginDecompile target
    | _ => s.beginExport kind (s.writerFor kind target)
  | .adding e acts => s.advanceAdding e acts
  | .decompiling e acts completed total => s.advanceDecompiling target e completed total acts
  | .exporting x => s.advanceExporting kind x
  | .rendering x name acts text => s.advanceRendering kind x name text acts
  | .reported => s.silently .finished
  | .finished => s.silently .finished

end Workspace

/-! ## The latest task -/

/-- The tasks, the latest first, and what they share. -/
structure Pipeline where
  workspace : Workspace
  tasks : List Task
deriving Inhabited

inductive RequestError
  | unknownKind (kind : String)
  | busy
deriving DecidableEq, Repr, Inhabited

def RequestError.message : RequestError → String
  | .unknownKind kind => s!"Unknown task kind: {kind}"
  | .busy => "Please wait for the current operation to finish."

namespace Pipeline

def isBusy (p : Pipeline) : Bool :=
  match p.tasks with
  | [] => false
  | t :: _ => t.isRunning

/-- Starts a task, unless one is running. -/
def start (p : Pipeline) (kind : TaskKind) (target : Path) : Except RequestError Pipeline :=
  if p.isBusy then .error .busy
  else .ok { p with tasks := ⟨p.tasks.length, kind, target, [], none, .ready⟩ :: p.tasks }

def request (p : Pipeline) (kind : String) (target : Path) : Except RequestError Pipeline :=
  match TaskKind.ofName? kind with
  | none => .error (.unknownKind kind)
  | some kind => p.start kind target

def step (p : Pipeline) : Pipeline :=
  match p.tasks with
  | [] => p
  | t :: earlier =>
    let a := p.workspace.advance t.kind t.target t.stage
    ⟨a.workspace, { t with stage := a.stage, queue := t.queue ++ a.sent } :: earlier⟩

def task? (p : Pipeline) (number : Nat) : Option Task := p.tasks.find? (·.number == number)

def setTask (p : Pipeline) (t : Task) : Pipeline :=
  { p with tasks := p.tasks.map fun u => if u.number == t.number then t else u }

def poll (p : Pipeline) (number : Nat) : Pipeline × List Message :=
  match p.task? number with
  | none => (p, [])
  | some t => let (t, messages) := t.poll; (p.setTask t, messages)

def wait (p : Pipeline) (number : Nat) : Pipeline × List Message :=
  match p.task? number with
  | none => (p, [])
  | some t => let (t, messages) := t.wait; (p.setTask t, messages)

def receiveLatest (p : Pipeline) : Pipeline × List Message :=
  match p.tasks with
  | [] => (p, [])
  | t :: _ => p.wait t.number

/-- What is said to those who have waited in vain for the outcome of the task of a number. -/
def late? (p : Pipeline) (number : Nat) : Option String :=
  match p.task? number with
  | none => none
  | some t => if t.isDone then none else some s!"Task {t.kind.name} did not report in time."

end Pipeline

end ClassBrowser
