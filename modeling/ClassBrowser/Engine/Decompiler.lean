import ClassBrowser.Engine.Act
import ClassBrowser.Engine.Command

/-!
# The external decompiler as an engine

A `Decompiler` holds the archives that it was given and, after a run that has collected what it
made, where the text of every class lies.  A run starts from nothing: the files of the run before
are removed first.  What a run makes lies in one directory, either in an archive or a directory that
has the name of a source or right there; classes are named by their paths without the extension.

## Collecting

For each source the output is looked for under the name of the source (`fromSource`).  If that is
an archive, its entries are the classes; if it is a directory, the files below it are; and if it is
neither, all files below the directory of the run are.  An archive that cannot be opened, or has an
entry without a name, ends the run before anything is known.

## Reporting

The texts are read when all places are known, one after the other, and each is reported at once.  An
entry that cannot be read for a reason which is not expected ends the run there, and what is known
by then stays known.
-/

namespace ClassBrowser

/-- Where the text of a class lies: a file, or an entry of an archive. -/
structure Location where
  file : Path
  entry : Option String
deriving DecidableEq, Repr, Inhabited

/-- The external decompiler with what it was told and what it has made. -/
structure Decompiler where
  jar : Option (Given Path)
  java : Option (Given Path)
  options : Assoc Text.Loose Text.Loose
  sources : List Path
  running : Bool
  locations : Assoc String Location
deriving DecidableEq, Repr, Inhabited

namespace Decompiler

/-! ## Before a run -/

def ofSettings (s : Settings) : Decompiler :=
  ⟨s.engineJar, s.java, s.engineOptions, [], false, []⟩

def outputDirectory : Path := ⟨.root, ["OUT"]⟩

def sourceSuffix : String := ".java"

def addSource (d : Decompiler) (w : World) (archive : Path) : Except EngineError Decompiler := do
  let archive ← (Archive.validate w.files w.env archive).mapError .archive
  return { d with sources := d.sources ++ [archive] }

def command (d : Decompiler) (w : World) (output : Path) :
    Except EngineError (List Text.Loose) :=
  Engine.commandFor w.files w.env d.jar d.java d.options d.sources output

/-- Forgets what was made and removes its files. -/
def close (d : Decompiler) (w : World) : World × Decompiler :=
  (if d.running then { w with files := w.files.removeTree outputDirectory.parts } else w,
    { d with running := false, locations := [] })

/-! ## What a run has made -/

def classOf (file : String) : String := (Text.dropEnding? sourceSuffix file).getD file

def fromArchive (archive : Path) (entries : Entries) :
    Except ArchiveError (List (String × Location)) := do
  let found ← Archive.filesWithSuffix sourceSuffix entries
  return found.map fun entry => (classOf entry, ⟨archive, some entry⟩)

def fromDirectory (fs : Files) (root : Place) : List (String × Location) :=
  ((fs.below root).filter fun (place, _) =>
      Archive.hasSuffix sourceSuffix (Path.mk .root place).name.text).map fun (place, _) =>
    (classOf (Path.joined (place.drop root.length)).text, ⟨⟨.root, place⟩, none⟩)

/-- The classes that a run made from one source.  No fault of an archive is expected here. -/
def fromSource (fs : Files) (output : Place) (source : Path) :
    Except ArchiveError (List (String × Location)) :=
  let produced := output ++ [source.name]
  match fs.node? produced with
  | some (.file (.zip entries) _) => fromArchive ⟨.root, produced⟩ entries
  | some (.file (.damaged fault) _) => .error (.zip fault)
  | some .directory => .ok (fromDirectory fs produced)
  | _ => .ok (fromDirectory fs output)

/-- Where the text of every class lies; where a class was made twice, the last place counts. -/
def collect (fs : Files) (output : Place) (sources : List Path) :
    Except ArchiveError (Assoc String Location) := do
  let found ← sources.mapM (fromSource fs output)
  return Assoc.insertAll [] found.flatten

/-! ## The texts -/

/-- The text of a class that the last run made, or why it cannot be read; nothing for any other
class. -/
def textOf (d : Decompiler) (fs : Files) (name : String) : Option (Except ArchiveError String) :=
  (d.locations.get? name).map fun location =>
    (Archive.read fs location.file location.entry).map Text.Utf8.decodeLossy

def unreadRecord (name : String) (e : ArchiveError) : Log.Record :=
  ⟨.warning, .engine, s!"Unable to re-read {name}: {e.message}"⟩

/-- What is asked for when a class is shown: its text, if it can be read. -/
def render (d : Decompiler) (w : World) (name : String) :
    World × Except ArchiveError (Option String) :=
  match d.textOf w.files name with
  | none => (w, .ok none)
  | some (.ok text) => (w, .ok (some text))
  | some (.error e) =>
    if e.isReported then (w.note (unreadRecord name e), .ok none) else (w, .error e)

def report (d : Decompiler) (fs : Files) (name : String) : List Act :=
  match d.textOf fs name with
  | none => []
  | some (.ok text) => [.unit name (some text)]
  | some (.error e) =>
    if e.isReported then [.note (unreadRecord name e)] else [.throw (.engine (.archive e))]

/-- The acts that report all classes, up to the first that throws. -/
def reports (d : Decompiler) (fs : Files) : List Act :=
  .total d.locations.length :: Act.performed (d.locations.keys.flatMap (d.report fs))

/-- Runs the decompiler on its sources; gives the acts that report what it made, the last of which
may throw. -/
def decompile (d : Decompiler) (w : World) : World × Decompiler × Except EngineError (List Act) :=
  if d.sources.isEmpty then (w, d, .error .noArchive)
  else
    let (w, d) := d.close w
    let d := { d with running := true }
    let files := (w.files.removeTree outputDirectory.parts).set outputDirectory.parts .directory
    let w := { w with files }
    match d.command w outputDirectory with
    | .error e => (w, d, .error e)
    | .ok command =>
      let w := w.note ⟨.info, .engine, Engine.startText command⟩
      match Engine.execute w.files w.env command with
      | .error e => (w, d, .error e)
      | .ok (completed, files) =>
        let w := { w with files }.noteAll (Engine.outputRecords completed.stdout)
        match Engine.failure? completed d.sources with
        | some e => (w, d, .error e)
        | none => match collect w.files outputDirectory.parts d.sources with
          | .error e => (w, d, .error (.archive e))
          | .ok [] => (w, d, .error (.noSources completed.stdout completed.stderr))
          | .ok locations =>
            let d := { d with locations }
            (w, d, .ok (d.reports w.files))

end Decompiler

end ClassBrowser
