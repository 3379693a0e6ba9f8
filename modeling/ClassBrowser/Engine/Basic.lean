import ClassBrowser.Engine.Decompiler

/-!
# Engines

An engine is either the external decompiler or a script, which performs acts that were fixed
beforehand.  Asking an engine for something leaves a trace in the world and yields the acts that
the engine then performs.

Scripts stand for all engines that the program may be given in the place of the decompiler.  A
script may do anything while it takes an archive, while it decompiles and before it answers with the
text of a class, and it may answer differently for each class, but the same each time.  It has
nothing to do when it is closed: a script neither acts nor throws then, and what is proved of tasks
that close an engine is proved of engines that can be closed.

Engines are told apart by their numbers, because a factory may make the same engine twice.  The
trace (`World.calls`) is what the life of an engine can be read off: it is made, used and closed.
-/

namespace ClassBrowser

/-- How a script answers when a class is to be shown: what it does first, and the text. -/
structure Rendering where
  acts : List Act
  text : Option String
deriving DecidableEq, Repr, Inhabited

def Rendering.ofText (text : Option String) : Rendering := ⟨[], text⟩

/-- An engine whose acts were fixed beforehand: when it is given an archive, when it decompiles, and
when a class is to be shown. -/
structure Script where
  label : String
  source : List Act
  steps : List Act
  rendered : Assoc String Rendering
deriving DecidableEq, Repr, Inhabited

inductive Machine
  | script (s : Script)
  | decompiler (d : Decompiler)
deriving DecidableEq, Repr, Inhabited

structure Engine where
  number : Nat
  machine : Machine
deriving DecidableEq, Repr, Inhabited

/-- Where engines come from; `broken` makes none. -/
inductive Factory
  | script (s : Script)
  | decompiler (s : Settings)
  | broken (t : Thrown)
deriving DecidableEq, Repr, Inhabited

namespace Engine

def label (e : Engine) : Option String :=
  match e.machine with
  | .script s => some s.label
  | .decompiler _ => none

def trace (e : Engine) (w : World) (request : Request) : World :=
  w.trace ⟨e.number, e.label, request⟩

def make (machine : Machine) (w : World) : World × Engine :=
  let e : Engine := ⟨w.engines, machine⟩
  (e.trace { w with engines := w.engines + 1 } .make, e)

def addSource (e : Engine) (w : World) (archive : Path) : World × Engine × List Act :=
  let w := e.trace w (.addSource archive)
  match e.machine with
  | .script s => (w, e, s.source)
  | .decompiler d => match d.addSource w archive with
    | .ok d => (w, { e with machine := .decompiler d }, [])
    | .error t => (w, e, [.throw (.engine t)])

def decompile (e : Engine) (w : World) : World × Engine × List Act :=
  let w := e.trace w .decompile
  match e.machine with
  | .script s => (w, e, s.steps)
  | .decompiler d =>
    let (w, d, outcome) := d.decompile w
    (w, { e with machine := .decompiler d }, match outcome with
      | .ok acts => acts
      | .error t => [.throw (.engine t)])

/-- Asks an engine for the text of a class: the acts it performs first, and then the text. -/
def render (e : Engine) (w : World) (name : String) : World × List Act × Option String :=
  let w := e.trace w (.render name)
  match e.machine with
  | .script s => match s.rendered.get? name with
    | none => (w, [], none)
    | some r => (w, r.acts, r.text)
  | .decompiler d => match d.render w name with
    | (w, .ok text) => (w, [], text)
    | (w, .error e) => (w, [.throw (.engine (.archive e))], none)

/-- Closes an engine. -/
def close (e : Engine) (w : World) : World × Engine :=
  let w := e.trace w .close
  match e.machine with
  | .script _ => (w, e)
  | .decompiler d =>
    let (w, d) := d.close w
    (w, { e with machine := .decompiler d })

/-- What an engine of no kind answers: it can be made and closed, and is asked for nothing else. -/
def bareAnswer : Request → Except EngineError Unit
  | .make | .close => .ok ()
  | .addSource _ | .decompile | .render _ => .error .noFormat

/-- Performs the acts of a rendering at once: what is thrown first ends it. -/
def performNow (w : World) : List Act → World × Option Thrown
  | [] => (w, none)
  | .note record :: rest => performNow (w.note record) rest
  | .throw t :: _ => (w, some t)
  | .abort t :: _ => (w, some t)
  | _ :: rest => performNow w rest

def renderNow (e : Engine) (w : World) (name : String) :
    World × Except Thrown (Option String) :=
  let (w, acts, text) := e.render w name
  match performNow w acts with
  | (w, none) => (w, .ok text)
  | (w, some t) => (w, .error t)

end Engine

def Factory.make (f : Factory) (w : World) : World × Except Thrown Engine :=
  match f with
  | .script s => let (w, e) := Engine.make (.script s) w; (w, .ok e)
  | .decompiler s => let (w, e) := Engine.make (.decompiler (.ofSettings s)) w; (w, .ok e)
  | .broken t => (w, .error t)

end ClassBrowser
