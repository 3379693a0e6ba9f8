import ClassBrowser.Engine.Error
import ClassBrowser.Log

/-!
# What an engine does

An engine at work performs acts, one after the other: it reports a class, says how many there will
be, writes to the log, waits, or throws.  What `abort` throws is not reported: the worker itself is
lost.

The acts of a request are a list that is fixed when the request is made, and the worker performs one
act in each of its steps.  So what others do between two acts cannot change what the engine does
next, but they see the store and the log as they are at that time.
-/

namespace ClassBrowser

/-- What an engine throws: an error of its own kind, or any other kind with its text. -/
inductive Thrown
  | engine (e : EngineError)
  | other (kind text : String)
deriving DecidableEq, Repr, Inhabited

def Thrown.message : Thrown → String
  | .engine e => e.message
  | .other _ text => text

/-- The wording of what is thrown, or its kind where there is none. -/
def Thrown.reason (t : Thrown) : String :=
  match t with
  | .engine e => e.reason
  | .other kind text => if text.isEmpty then kind else text

inductive Act
  | unit (name : String) (text : Option String)
  | total (count : Int)
  | note (record : Log.Record)
  | block
  | throw (t : Thrown)
  | abort (t : Thrown)
deriving DecidableEq, Repr, Inhabited

/-- The acts up to the first that throws: what comes behind it is not performed. -/
def Act.performed : List Act → List Act
  | [] => []
  | .throw t :: _ => [.throw t]
  | act :: rest => act :: performed rest

end ClassBrowser
