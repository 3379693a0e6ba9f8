import ClassBrowser.CommandLine.Parse
import ClassBrowser.CommandLine.Report
import ClassBrowser.Source.Ansi

/-!
# The commands

Each sub-command is a function from what the command line says to a `Report`.  A command that needs
the decompiler first loads a session, then runs its tasks one after the other (`runTask`) and goes
on with the next step only after a success: the reason of a failure is the last line it prints, and
the exit code is 1.  Faulty settings end a command with exit code 2.

The commands are written with continuations: `withSession`, `runTask` and `decompileFirst` take what
is to be done after a success, and put in front of its report what they have printed themselves.
How a command ends is thereby decided in one place for each way of failing.

`list` alone needs neither settings nor a decompiler; it reads the archive itself.
-/

namespace ClassBrowser.CommandLine

/-! ## Sessions and tasks -/

/-- The settings that a command line asks for: those of the file and the environment, then the
switches. -/
def EngineChoice.settings (c : EngineChoice) (w : World) : Except SettingsError Settings := do
  let config ← c.config.mapM fun given => (given.get (.ability "expanduser")).mapError .lack
  let s ← Settings.load w.files w.env config
  let overrides ← Settings.givenOptions c.options
  return { s with
    engineJar := c.jar.orElse fun _ => s.engineJar
    java := c.java.orElse fun _ => s.java }.withOptions overrides

/-- Loads a session and goes on with it.  It has the decompiler for its engine, or the one given. -/
def withSession (c : EngineChoice) (engine : Option Factory) (w : World)
    (next : Session → Report) : Report :=
  match c.settings w with
  | .ok s => next (.new s (some (engine.getD (.decompiler s))) w)
  | .error e =>
    if e.isReported then .ended [complaint e.message] (.exit 2) w
    else .ended [] (.escaped (.settings e)) w

/-- The progress reports among messages, which a quiet command does not print. -/
def shownProgress (quiet : Bool) (messages : List Message) : List Printed :=
  messages.filterMap fun
    | .progress p => if quiet then none else some (.progress p)
    | .finished _ => none

/-- Runs a task to its end and goes on after a success. -/
def runTask (s : Session) (kind : TaskKind) (target : Path) (quiet : Bool)
    (next : Session → Option TaskResult → Report) : Report :=
  match s.start kind target with
  | .error e => .ended [] (.escaped (.request e)) s.world
  | .ok s =>
    let (pipeline, messages) := s.pipeline.finish.receiveLatest
    let s := { s with pipeline }
    .after (shownProgress quiet messages) <| match messages.findSome? Message.outcome? with
      | none => .ended [] .waiting s.world
      | some (.failure reason) => .ended [complaint reason] (.exit 1) s.world
      | some (.success result) => next s result

/-- Decompiles an archive and goes on with its classes. -/
def decompileFirst (s : Session) (archive : Path) (quiet : Bool) (next : Session → Report) :
    Report :=
  runTask s .decompileArchive archive quiet fun s result => next (s.apply (.success result))

/-! ## What the commands show -/

/-- Prints the class names of an archive; inner classes only on demand. -/
def listClasses (archive : Path) (includeInner : Bool) (w : World) : Report :=
  let listed := do Archive.classMembers w.files (← Archive.validate w.files w.env archive)
  match listed with
  | .ok members =>
    let shown := members.filter fun m => includeInner || !Archive.isInner m
    .ended (shown.map fun m => .line (Archive.className m)) .normal w
  | .error e =>
    if e.isReported then .ended [complaint e.message] (.exit 1) w
    else .ended [] (.escaped (.archive e)) w

def printTree (s : Session) : Report :=
  .ended ((s.tree.outline Package.defaultIndent).map .line) .normal s.world

def missingLineEnd (text : String) : List Printed :=
  if text.toList.getLast? == some '\n' then [] else [.raw "\n"]

/-- The name under which a class is looked up: dots stand for the delimiter. -/
def askedName (delimiter : Text.Loose) (name : String) : Text.Loose :=
  .ofGlyphs <| name.toList.flatMap fun c => if c = '.' then delimiter.glyphs else [.char c]

/-- The text that is shown for a name, with its highlighted spans; no class has a torn name. -/
def highlightedUnder (s : Session) : Text.Loose →
    Session × Except Thrown (String × List Source.Span)
  | .whole name => s.highlighted name
  | .torn glyphs _ =>
    let text := Session.notFound (Text.Glyph.text glyphs)
    (s, .ok (text, Source.highlight text.toList Source.javaKeywords))

/-- Prints the text of a class, in colours on demand. -/
def printClass (s : Session) (name : Given String) (color : Bool) : Report :=
  match name.get (.ability "replace") with
  | .error l => .ended [] (.escaped (.lack l)) s.world
  | .ok name => match highlightedUnder s (askedName s.settings.delimiter name) with
    | (s, .error t) => .ended [] (.escaped (.thrown t)) s.world
    | (s, .ok (text, spans)) =>
      let shown := if color then Source.renderAnsi spans else text
      .ended (.raw shown :: missingLineEnd text) .normal s.world

/-! ## Saving -/

def exportLines (target : Path) (summary : Summary) : List Printed :=
  .line s!"Saved {summary.written.length} classes to {target}" ::
    if summary.skipped.isEmpty then []
    else [.line s!"[INFO] Skipped {summary.skipped.length} classes without content"]

def Target.taskKind : Target → TaskKind
  | .directory _ => .exportDirectory
  | .zip _ => .exportArchive

def exportAll (s : Session) (target : Target) (quiet : Bool) : Report :=
  match target.path.get .path with
  | .error l => .ended [] (.escaped (.lack l)) s.world
  | .ok path => runTask s target.taskKind path quiet fun s result => match result with
    | some (.exported summary) => .ended (exportLines path summary) .normal s.world
    | _ => .ended [] .normal s.world

def decompileAll (s : Session) (archive : Path) (target : Target) (quiet : Bool) : Report :=
  decompileFirst s archive quiet fun s =>
    .after [.line s!"Decompiled {s.store.size} classes from {archive.name}"]
      (exportAll s target quiet)

/-! ## The program -/

/-- Carries out a command; `engine` takes the place of the decompiler if it is given. -/
def Command.perform (c : Command) (engine : Option Factory) (w : World) : Report :=
  match c with
  | .gui e archive => withSession e engine w fun s => .ended [] (.window s archive) s.world
  | .list archive includeInner => listClasses archive includeInner w
  | .tree e archive => withSession e engine w fun s => decompileFirst s archive true printTree
  | .showClass e archive name color => withSession e engine w fun s =>
    decompileFirst s archive true fun s => printClass s name color
  | .decompile e archive target quiet => withSession e engine w fun s =>
    decompileAll s archive target quiet

def versionText : String := "decomp-viewer 0.1.0"

/-- What is left behind where a command line is not carried out. -/
def Stop.report (program : String) (w : World) : Stop → Report
  | .usage command text =>
    let speaker := match command with
      | none => program
      | some c => program ++ " " ++ c.name
    { Report.ended [] (.exit 2) w with complaints := [s!"{speaker}: error: {text}"] }
  | .version => .ended [.line versionText] (.exit 0) w
  | .help => .ended [] (.exit 0) w
  | .path e => .ended [] (.escaped (.path e)) w
  | .file e => .ended [] (.escaped (.file e)) w

def Invocation.beginLog (i : Invocation) (w : World) : Except Escape World := do
  let file ← i.logFile.mapM fun given => (given.get .path).mapError .lack
  (w.beginLog file).mapError .file

/-- Runs the program of a name.  Its log begins here; the log file is opened as soon as the command
line is read. -/
def run (program : String) (arguments : List String) (engine : Option Factory) (w : World) :
    Report :=
  let w := { w with log := [], logFile := none }
  match parse w.files w.env arguments with
  | .error stop => stop.report program w
  | .ok i => match i.beginLog w with
    | .error e => .ended [] (.escaped e) w
    | .ok w => { i.command.perform engine w with level := i.level }

end ClassBrowser.CommandLine
