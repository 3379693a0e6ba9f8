import ClassBrowser.Source.Highlight
import ClassBrowser.Task.Run

/-!
# Browsing sessions

A session owns the settings, the task pipeline, the archive that was opened last, and the hierarchy
of classes that is on show.  Opening an archive empties the hierarchy; the outcome of the task fills
it again: with the classes of a successful run, or with whatever a failed one has reported.

The text of a class comes from the store, else from the engine; a class without either is shown by a
comment that says so.  An engine is asked at once here, not by a worker: what it writes to the log
is written, and what it throws reaches the one who asked (`Session.content`).

The session itself never waits.  Requests that start a task give back the session or refuse, and
what the task has yielded is taken over when someone has received it (`Session.apply`).
-/

namespace ClassBrowser

/-- What one user works with. -/
structure Session where
  settings : Settings
  pipeline : Pipeline
  archive : Option Path
  tree : Package
deriving Inhabited

namespace Session

def new (settings : Settings) (factory : Option Factory) (world : World) : Session where
  settings
  pipeline :=
    ⟨⟨world, .empty, none, factory, settings.delimiter, settings.extension⟩, []⟩
  archive := none
  tree := .empty

def store (s : Session) : Store := s.pipeline.workspace.store

def world (s : Session) : World := s.pipeline.workspace.world

def withWorld (s : Session) (w : World) : Session :=
  { s with pipeline := { s.pipeline with workspace := s.pipeline.workspace.withWorld w } }

def isBusy (s : Session) : Bool := s.pipeline.isBusy

def hasResults (s : Session) : Bool := s.store.size != 0

def openArchive (s : Session) (archive : Path) : Except RequestError Session := do
  let pipeline ← s.pipeline.start .decompileArchive archive
  let s : Session := { s with pipeline, archive := some archive, tree := .empty }
  return s.withWorld (s.world.note ⟨.info, .session, s!"Opening {archive}"⟩)

def start (s : Session) (kind : TaskKind) (target : Path) : Except RequestError Session :=
  match kind with
  | .decompileArchive => s.openArchive target
  | _ => do
    let pipeline ← s.pipeline.start kind target
    return { s with pipeline }

/-- Shows what is known where nothing is on show. -/
def recoverTree (s : Session) : Session :=
  if s.hasResults && s.tree.contents.isEmpty then
    let (workspace, tree) := s.pipeline.workspace.tree
    { s with pipeline := { s.pipeline with workspace }, tree }
  else s

/-- Takes over what a finished task yields. -/
def apply (s : Session) (outcome : Outcome) : Session :=
  match outcome with
  | .success (some (.decompiled _ tree _)) => { s with tree }
  | _ => s.recoverTree

/-! ## What is shown -/

/-- The text that stands for a class which is not known. -/
def notFound (name : String) : String := "// Class not found: " ++ name

/-- The text that stands for a class which has none. -/
def notRendered (name : String) : String := "// Error decompiling class: " ++ name

def isKnown (s : Session) (name : String) : Bool :=
  s.store.contains name || (s.tree.find? s.settings.delimiter name).isSome

/-- The text that is shown for a class, unless the engine throws when it is asked for it. -/
def content (s : Session) (name : String) : Session × Except Thrown String :=
  match s.store.text? name with
  | some text => (s, .ok text)
  | none =>
    if !s.isKnown name then (s, .ok (notFound name))
    else match s.pipeline.workspace.engine with
      | none => (s, .ok (notRendered name))
      | some e =>
        let (w, text) := e.renderNow s.world name
        (s.withWorld w, text.map fun text => text.getD (notRendered name))

def highlighted (s : Session) (name : String) :
    Session × Except Thrown (String × List Source.Span) :=
  let (s, text) := s.content name
  (s, text.map fun text => (text, Source.highlight text.toList Source.javaKeywords))

/-- The file name that is proposed for an exported archive. -/
def exportName (s : Session) : String :=
  match s.archive with
  | none => "decompiled.zip"
  | some archive => s!"{archive.stem}_decompiled.zip"

def put (s : Session) (name : String) (text : Option String) : Session :=
  let workspace := s.pipeline.workspace
  { s with pipeline :=
      { s.pipeline with workspace := { workspace with store := workspace.store.put name text } } }

end Session

end ClassBrowser
