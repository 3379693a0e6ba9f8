import ClassBrowser.Engine.Error
import ClassBrowser.Engine.Output
import ClassBrowser.Files.Interpreter
import ClassBrowser.Settings
import ClassBrowser.World

/-!
# Running the external decompiler

The decompiler is a jar that the java program runs.  Both are looked up: the jar under its usual
names in the working directory, java along the search path, unless the settings say where they are.
`execute` plays a command and gives what it printed, with its line ends unified and undecodable
bytes replaced.  The words of a command are loose texts, because options come from the settings; a
word that the system cannot be handed keeps the command from being started.

## What a program does

A program is part of the file tree: the runs that it plays one after the other, each with what it
prints, how it ends and what it makes (`Run`).  Playing a command counts the runs of the program and
puts the files that the run makes below the directory that is the command's last word.  All that the
decompiler may do to the program is thereby data of the file tree, and a theorem about every run of
the decompiler is a theorem about every file tree.
-/

namespace ClassBrowser.Engine

open Text (Loose)

/-! ## Looking for the tools -/

def jarNames : List String := ["fernflower.jar", "vineflower.jar", "java-decompiler.jar"]

/-- The absolute path of a file that the settings name; `missing` is the error if it is not
there. -/
def resolveFile (fs : Files) (env : Environment) (given : Given Path)
    (missing : Path → EngineError) : Except EngineError Path := do
  let p ← (given.get (.ability "expanduser")).mapError .lack
  let p ← (p.expandUser env).mapError .path
  let p ← (p.resolve Files.cwd).mapError .path
  if ← (fs.isFile p).mapError .file then return p else throw (missing p)

/-- The first of some files of the working directory that is there. -/
def findJar (fs : Files) : List String → Except EngineError Path
  | [] => .error .noJar
  | name :: rest => do
    if ← (fs.isFile (Path.ofString name)).mapError .file then
      ((Path.ofString name).resolve Files.cwd).mapError .path
    else findJar fs rest

def resolveJar (fs : Files) (env : Environment) : Option (Given Path) → Except EngineError Path
  | some jar => resolveFile fs env jar .jarNotFound
  | none => findJar fs jarNames

def isExecutable (fs : Files) (p : Path) : Bool :=
  match fs.get p with
  | .ok node => Files.Node.isExecutable node
  | .error _ => false

def searchPath (env : Environment) : List String :=
  match env.get? "PATH" with
  | none => ["/bin", "/usr/bin"]
  | some "" => []
  | some path => Text.splitAt ':' path

/-- The java program of a directory of the search path; the empty text is the working directory. -/
def javaIn (directory : String) : Path := (Path.ofString directory).child "java"

def resolveJava (fs : Files) (env : Environment) : Option (Given Path) → Except EngineError Path
  | some java => resolveFile fs env java .javaNotFound
  | none =>
    match ((searchPath env).map javaIn).find? (isExecutable fs) with
    | some java => (java.resolve Files.cwd).mapError .path
    | none => .error .noJava

/-! ## The command -/

/-- The command that decompiles archives into a directory. -/
def commandFor (fs : Files) (env : Environment) (jar java : Option (Given Path))
    (options : Assoc Loose Loose) (sources : List Path) (output : Path) :
    Except EngineError (List Loose) := do
  let java ← resolveJava fs env java
  let jar ← resolveJar fs env jar
  return [java.toLoose, "-jar", jar.toLoose] ++ options.map (fun (k, v) => "-" ++ k ++ "=" ++ v) ++
    sources.map Path.toLoose ++ [output.toLoose]

def startText (command : List Loose) : String :=
  "Running decompiler: " ++ " ".intercalate (command.map Loose.text)

/-! ## Playing a command -/

structure Completed where
  exitCode : Int
  stdout : String
  stderr : String
deriving DecidableEq, Repr, Inhabited

/-- The variable by which java takes further options. -/
def toolOptionsVariable : String := "JAVA_TOOL_OPTIONS"

/-- The further options that java is given unless the environment has some. -/
def defaultToolOptions : String := "-Dfile.encoding=UTF-8"

def streamText (bytes : ByteArray) : String := Text.unifyNewlines (Text.Utf8.decodeLossy bytes)

def plantOutputs (fs : Files) (directory : Place) (outputs : List Output) : Files :=
  outputs.foldl (fun fs output => fs.plant (directory ++ output.names.map Loose.whole)
    (match output.content with
      | some content => .file content false
      | none => .directory)) fs

/-- The run that a program plays after so many others: the last one is repeated. -/
def runAfter (runs : List Run) (played : Nat) : Run :=
  (runs[played]?.orElse fun _ => runs.getLast?).getD default

def maxArgumentBytes : Nat := 131071

def isTooLong (env : Environment) (command : List Loose) : Bool :=
  command.any (maxArgumentBytes < ·.byteSize) ||
    env.values.any fun (key, value) => maxArgumentBytes < (key ++ "=" ++ value).utf8ByteSize

/-- The place of the program that runs for a command. -/
def programOf (fs : Files) (env : Environment) (command : List Loose) : Except Obstacle Place := do
  let name := command.headD ""
  let _ ← fs.executableAt name
  if isTooLong env command then throw .longArguments
  fs.runner name

/-- Plays a command, the last word of which names the directory for its files. -/
def execute (fs : Files) (env : Environment) (command : List Loose) :
    Except EngineError (Completed × Files) := do
  if let some fault := command.findSome? Loose.nameFault? then throw (.file (.name fault))
  let program := Path.ofLoose (command.headD "")
  let place ← (programOf fs env command).mapError (.cannotStart · program)
  match fs.node? place with
  | some (.program runs played) =>
    let run := runAfter runs played
    let fs := fs.set place (.program runs (played + 1))
    let output := (Path.ofLoose (command.getLastD "")).parts
    let shown := if run.showsOptions then
        toolOptionsVariable ++ "=" ++
          (env.get? toolOptionsVariable).getD defaultToolOptions ++ "\n"
      else ""
    return (⟨run.exitCode, streamText (shown.toUTF8 ++ run.stdout), streamText run.stderr⟩,
      plantOutputs fs output run.outputs)
  | _ => throw (.cannotStart .notProgram program)

def failure? (completed : Completed) (sources : List Path) : Option EngineError :=
  if completed.exitCode = 0 then none
  else some (.failed (sources.map (·.name.text))
    (failureLines completed.stdout ++ failureLines completed.stderr) completed.exitCode
    completed.stdout completed.stderr)

end ClassBrowser.Engine
