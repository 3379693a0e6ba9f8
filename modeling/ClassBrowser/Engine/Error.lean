import ClassBrowser.Archive
import ClassBrowser.Given

/-!
# Why the decompiler fails

The causes for which an archive cannot be given to the decompiler, the decompiler cannot be run, or
its run yields nothing.  Most are reported as faults of the engine; the rest come from resolving
paths and are passed on as they are (`EngineError.isReported`).  Where the decompiler has run, the
error carries what it printed.
-/

namespace ClassBrowser

inductive EngineError
  | archive (e : ArchiveError)
  | noArchive
  | jarNotFound (jar : Path)
  | noJar
  | javaNotFound (java : Path)
  | noJava
  | cannotStart (obstacle : Obstacle) (program : Path)
  | failed (archives lines : List String) (exitCode : Int) (stdout stderr : String)
  | noSources (stdout stderr : String)
  | noFormat
  | file (e : FileError)
  | path (e : PathError)
  | lack (l : Lack)
deriving DecidableEq, Repr, Inhabited

namespace EngineError

def message : EngineError → String
  | .archive e => e.message
  | .noArchive => "No archive was added to the decompiler."
  | .jarNotFound jar => s!"Decompiler engine jar not found: {jar}"
  | .noJar => "Decompiler engine jar not found. " ++
      "Place fernflower.jar in the working directory or set DECOMP_VIEWER_ENGINE_JAR."
  | .javaNotFound java => s!"Java executable not found: {java}"
  | .noJava => "Java executable not found. Install a JRE or set JAVA_HOME."
  | .cannotStart obstacle program =>
    "Unable to start the decompiler: " ++ (FileError.refused obstacle program).message
  | .failed archives lines exitCode _ _ =>
    "Decompiler failed on " ++ ", ".intercalate archives ++
      if lines.isEmpty then s!" (exit code {exitCode})." else ": " ++ " ".intercalate lines
  | .noSources _ _ => "Decompiler produced no source files."
  | .noFormat => ""
  | .file e => e.message
  | .path e => e.message
  | .lack l => l.message

/-- The wording of an engine error, or its kind where there is none. -/
def reason : EngineError → String
  | .archive (.zip fault) => fault.reason
  | .noFormat => "NotImplementedError"
  | e => e.message

/-- Whether the error is reported as a fault of the engine. -/
def isReported : EngineError → Bool
  | .archive e => e.isReported
  | .file _ | .path _ | .lack _ | .noFormat => false
  | _ => true

/-- What the decompiler printed on its two streams, where it has run. -/
def streams? : EngineError → Option (String × String)
  | .failed _ _ _ stdout stderr => some (stdout, stderr)
  | .noSources stdout stderr => some (stdout, stderr)
  | _ => none

end EngineError

end ClassBrowser
