import ClassBrowser.Archive
import ClassBrowser.CommandLine.Arguments
import ClassBrowser.Session

/-!
# What a run of the program leaves behind

A command prints line after line and ends in one of a few ways; progress reports are kept apart from
other output, because a quiet command differs from another one by nothing else.  The records of the
log go to the error output, from a certain level on.

What is printed is kept in pieces (`Printed`) and not as one text, so that theorems can speak of a
line of the output, or of the output without its progress reports.  The output takes every text: an
output that cannot show some character is not part of the library.
-/

namespace ClassBrowser.CommandLine

inductive Printed
  | line (text : String)
  | progress (p : Progress)
  | raw (text : String)
deriving DecidableEq, Repr, Inhabited

/-- A progress report as it is printed; the total is left out where it is not known. -/
def progressText (p : Progress) : String :=
  match p.total with
  | none => s!"[{p.completed}] {p.text}"
  | some total => s!"[{p.completed}/{total}] {p.text}"

def Printed.text : Printed → String
  | .line text => text ++ "\n"
  | .progress p => progressText p ++ "\n"
  | .raw text => text

def Printed.isProgress : Printed → Bool
  | .progress _ => true
  | _ => false

/-- An error that is told the user in his own words. -/
def complaint (text : String) : Printed := .line ("[ERROR] " ++ text)

/-- An error that no command deals with. -/
inductive Escape
  | settings (e : SettingsError)
  | archive (e : ArchiveError)
  | thrown (t : Thrown)
  | request (e : RequestError)
  | path (e : PathError)
  | file (e : FileError)
  | lack (l : Lack)
deriving DecidableEq, Inhabited

def Escape.message : Escape → String
  | .settings e => e.message
  | .archive e => e.message
  | .thrown t => t.message
  | .request e => e.message
  | .path e => e.message
  | .file e => e.message
  | .lack l => l.message

/-- How a run ends: a command may come to its end, end at once with an exit code, let an error
escape, wait for an outcome that does not come, or go on in a window. -/
inductive Ending
  | normal
  | exit (code : Nat)
  | escaped (e : Escape)
  | waiting
  | window (session : Session) (archive : Option Path)
deriving Inhabited

def recordText (r : Log.Record) : String := s!"[decomp-viewer] {r.level.name} {r.text}"

/-- What a command leaves behind.  Complaints go to the error output, and so do the records of the
log from a level on. -/
structure Report where
  printed : List Printed
  complaints : List String
  ending : Ending
  world : World
  level : Log.Level
deriving Inhabited

namespace Report

/-- A command that has printed something and then ends so; only what is serious is shown of the
log. -/
def ended (printed : List Printed) (ending : Ending) (world : World) : Report :=
  ⟨printed, [], ending, world, .warning⟩

def after (printed : List Printed) (r : Report) : Report :=
  { r with printed := printed ++ r.printed }

def output (r : Report) : String := String.join (r.printed.map Printed.text)

/-- The exit code, unless an error escapes or the end is still to come. -/
def exitCode? (r : Report) : Option Nat :=
  match r.ending with
  | .normal => some 0
  | .exit code => some code
  | _ => none

/-- The texts of the error output: the complaints and the records of the log. -/
def errorOutput (r : Report) : List String :=
  r.complaints ++
    (r.world.log.filter fun x => r.level.severity ≤ x.level.severity).map recordText

/-- Goes on where a window was closed. -/
def windowClosed (r : Report) (world : World) : Report := { r with ending := .normal, world }

def windowRefused (r : Report) (reason : String) : Report :=
  let advice := if ((r.world.env.get? "DISPLAY").getD "").isEmpty then
      ["No graphical display detected. Set the DISPLAY environment variable " ++
        "or run on a system with a GUI."]
    else []
  { r with
    complaints := ("Unable to start the decompiler viewer: " ++ reason) :: advice
    ending := .exit 1 }

end Report

end ClassBrowser.CommandLine
