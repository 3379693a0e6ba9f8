import ClassBrowser.Files.Basic
import ClassBrowser.Given
import ClassBrowser.Log

/-!
# The arguments of the command line

The sub-commands, the switches that each of them knows, its operands, and what an accepted command
line says (`Invocation`): the command with all that it needs.

What a switch is called in messages, whether a value follows it and to which sub-commands it belongs
are tables over `Switch` and `Subcommand`, so that reading a command line and telling what is wrong
with it follow the same data.  A value that was given may still be nothing (`Given`); the commands
keep it as it is until they use it.
-/

namespace ClassBrowser.CommandLine

/-! ## Sub-commands and switches -/

/-- What the program can be asked to do. -/
inductive Subcommand
  | gui
  | list
  | tree
  | showClass
  | decompile
deriving DecidableEq, Repr, Inhabited

def Subcommand.all : List Subcommand := [.gui, .list, .tree, .showClass, .decompile]

def Subcommand.name : Subcommand → String
  | .gui => "gui"
  | .list => "list"
  | .tree => "tree"
  | .showClass => "show"
  | .decompile => "decompile"

def Subcommand.ofName? (name : String) : Option Subcommand := all.find? (·.name == name)

inductive Switch
  | help
  | version
  | verbose
  | logFile
  | config
  | engineJar
  | java
  | option
  | includeInner
  | color
  | output
  | zip
  | quiet
deriving DecidableEq, Repr, Inhabited

/-- How a switch is written. -/
def Switch.flags : Switch → List String
  | .help => ["-h", "--help"]
  | .version => ["--version"]
  | .verbose => ["--verbose"]
  | .logFile => ["--log-file"]
  | .config => ["--config"]
  | .engineJar => ["--engine-jar"]
  | .java => ["--java"]
  | .option => ["--option"]
  | .includeInner => ["--include-inner"]
  | .color => ["--color"]
  | .output => ["--output"]
  | .zip => ["--zip"]
  | .quiet => ["--quiet"]

def Switch.takesValue : Switch → Bool
  | .logFile | .config | .engineJar | .java | .option | .output | .zip => true
  | _ => false

/-- A switch as messages name it. -/
def Switch.name (s : Switch) : String := "/".intercalate s.flags

/-- The switches in front of the sub-command. -/
def mainSwitches : List Switch := [.help, .version, .verbose, .logFile]

/-- The switches that tell how the decompiler is run. -/
def engineSwitches : List Switch := [.config, .engineJar, .java, .option]

def Subcommand.switches : Subcommand → List Switch
  | .gui => .help :: engineSwitches
  | .list => [.help, .includeInner]
  | .tree => .help :: engineSwitches
  | .showClass => .help :: .color :: engineSwitches
  | .decompile => .help :: .output :: .zip :: .quiet :: engineSwitches

/-! ## Operands -/

/-- An argument that is no switch. -/
inductive Operand
  | archive (required : Bool)
  | className
deriving DecidableEq, Repr, Inhabited

def Operand.name : Operand → String
  | .archive _ => "archive"
  | .className => "name"

def Operand.isRequired : Operand → Bool
  | .archive required => required
  | .className => true

def Subcommand.operands : Subcommand → List Operand
  | .gui => [.archive false]
  | .showClass => [.archive true, .className]
  | _ => [.archive true]

/-! ## What a command line says -/

/-- What the switches tell about the decompiler. -/
structure EngineChoice where
  config : Option (Given Path)
  jar : Option (Given Path)
  java : Option (Given Path)
  options : List (Given String)
deriving DecidableEq, Repr, Inhabited

/-- Where classes are saved: below a directory, or in a zip archive. -/
inductive Target
  | directory (path : Given Path)
  | zip (path : Given Path)
deriving DecidableEq, Repr, Inhabited

def Target.path : Target → Given Path
  | .directory p => p
  | .zip p => p

inductive Command
  | gui (engine : EngineChoice) (archive : Option Path)
  | list (archive : Path) (includeInner : Bool)
  | tree (engine : EngineChoice) (archive : Path)
  | showClass (engine : EngineChoice) (archive : Path) (name : Given String) (color : Bool)
  | decompile (engine : EngineChoice) (archive : Path) (target : Target) (quiet : Bool)
deriving DecidableEq, Repr, Inhabited

structure Invocation where
  verbose : Bool
  logFile : Option (Given Path)
  command : Command
deriving DecidableEq, Repr, Inhabited

/-- The lowest level of the log that the error output shows. -/
def Invocation.level (i : Invocation) : Log.Level := if i.verbose then .debug else .warning

/-- Why a command line is not carried out: it is faulty, it asks for something that is shown at
once, or a path of it cannot be resolved. -/
inductive Stop
  | usage (command : Option Subcommand) (text : String)
  | version
  | help
  | path (e : PathError)
  | file (e : FileError)
deriving DecidableEq, Repr, Inhabited

end ClassBrowser.CommandLine
