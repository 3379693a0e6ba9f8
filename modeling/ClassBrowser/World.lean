import ClassBrowser.Files.Edit
import ClassBrowser.Log

/-!
# What the program works on

Everything outside the program's own state: the files, the environment, the log, and the trace of
what was asked of the engines.  Engines are numbered in the order in which they are made.

The log may have a file.  Each record goes to the end of it at once, because the program may read or
write that very file for other reasons.  A line that cannot be written there is lost without a word,
as the log is never a reason to fail.
-/

namespace ClassBrowser

inductive Request
  | make
  | addSource (archive : Path)
  | decompile
  | render (name : String)
  | close
deriving DecidableEq, Repr, Inhabited

/-- Something that was asked of the engine of a number; the label is the engine's own, if it has
one. -/
structure Call where
  engine : Nat
  label : Option String
  request : Request
deriving DecidableEq, Repr, Inhabited

/-- The surroundings of the program. -/
structure World where
  files : Files
  env : Environment
  log : List Log.Record
  logFile : Option Path
  calls : List Call
  engines : Nat
deriving Inhabited

namespace World

def start (files : Files) (env : Environment) : World := ⟨files, env, [], none, [], 0⟩

/-- Begins a log, which holds nothing yet.  Its file, if it has one, is made where it is missing. -/
def beginLog (w : World) (file : Option Path) : Except FileError World := do
  let files ← match file with
    | none => pure w.files
    | some p => w.files.append p .empty
  return { w with files, log := [], logFile := file }

/-- The files with a record at the end of the log file.  Nothing is said where it cannot be written
there. -/
def filesAfter (w : World) (record : Log.Record) : Files :=
  match w.logFile.map fun p => w.files.append p record.line.toUTF8 with
  | some (.ok files) => files
  | _ => w.files

def note (w : World) (record : Log.Record) : World :=
  { w with files := w.filesAfter record, log := w.log ++ [record] }

def noteAll (w : World) (records : List Log.Record) : World := records.foldl note w

/-- Adds to the trace of the engines. -/
def trace (w : World) (call : Call) : World := { w with calls := w.calls ++ [call] }

end World

end ClassBrowser
