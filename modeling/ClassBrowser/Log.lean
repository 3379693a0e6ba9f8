/-!
# Log records

A record has a level, the area of the program that wrote it, and a text.  The order of the levels
is the order of their severity.
-/

namespace ClassBrowser.Log

inductive Level
  | debug
  | info
  | warning
  | error
deriving DecidableEq, Repr, Inhabited

def Level.severity : Level → Nat
  | .debug => 10
  | .info => 20
  | .warning => 30
  | .error => 40

def Level.name : Level → String
  | .debug => "DEBUG"
  | .info => "INFO"
  | .warning => "WARNING"
  | .error => "ERROR"

/-- The part of the program that writes a record. -/
inductive Area
  | names
  | engine
  | tasks
  | session
deriving DecidableEq, Repr, Inhabited

def Area.name : Area → String
  | .names => "namespace"
  | .engine => "engine"
  | .tasks => "tasks"
  | .session => "session"

structure Record where
  level : Level
  area : Area
  text : String
deriving DecidableEq, Repr, Inhabited

/-- The line of a record in a log file, where the time is put in front of it. -/
def Record.line (r : Record) : String :=
  s!"{r.level.name} decomp_viewer.{r.area.name}: {r.text}\n"

end ClassBrowser.Log
