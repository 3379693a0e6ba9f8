import ClassBrowser.CommandLine.Commands

/-!
# The program

Runs a command line in a working directory that holds the archives which the command line names, and
nothing else.  Archives are not decoded here: the entry names come from the standard input, one a
line, as archive tools list them.  No external decompiler is run, no window comes up, and of the
users only the home directory that the variable `HOME` tells is known.
-/

namespace ClassBrowser.Program

/-- The name that usage errors begin with. -/
def name : String := "decomp-viewer"

def knownVariables : List String :=
  ["HOME", "PATH", "JAVA_HOME", "JAVA_TOOL_OPTIONS", "DISPLAY", "DECOMP_VIEWER_CONFIG",
    "DECOMP_VIEWER_ENGINE_JAR"]

def namesArchive (argument : String) : Bool :=
  Archive.suffixes.contains (Path.ofString argument).suffix.toLower

/-- The files of a working directory that holds archives with these entries. -/
def filesWith (archives entries : List String) : Files :=
  archives.foldl (fun fs archive =>
    match (Path.ofString archive).resolve Files.cwd with
    | .ok p => fs.plant p.parts (.file (.archive (entries.map fun entry => (entry, .empty))) false)
    | .error _ => fs) .empty

def lastWords (r : CommandLine.Report) : List String :=
  match r.ending with
  | .escaped e => [e.message]
  | .waiting => ["The worker is gone."]
  | _ => []

/-- The lines of a stream that are left to read. -/
partial def readLines (input : IO.FS.Stream) (lines : Array String) : IO (List String) := do
  let line ← input.getLine
  if line.isEmpty then return lines.toList
  else readLines input (lines ++ (Text.lines line).toArray)

/-- The variables that are set. -/
def environment : IO Environment := do
  let values ← knownVariables.mapM fun key => do
    let value ← IO.getEnv key
    return value.map fun value => (key, value)
  return { values := values.filterMap id }

def run (arguments : List String) : IO UInt32 := do
  let env ← environment
  let archives := arguments.filter namesArchive
  let entries ← if archives.isEmpty then pure [] else readLines (← IO.getStdin) #[]
  let world := World.start (filesWith archives entries) env
  let report := CommandLine.run name arguments none world
  let report := match report.ending with
    | .window _ _ => report.windowRefused "no display"
    | _ => report
  (← IO.getStdout).putStr report.output
  for line in report.errorOutput ++ lastWords report do
    (← IO.getStderr).putStrLn line
  return ((report.exitCode?).getD 1).toUInt32

end ClassBrowser.Program

def main (arguments : List String) : IO UInt32 := ClassBrowser.Program.run arguments
