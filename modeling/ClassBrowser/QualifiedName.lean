import ClassBrowser.Text.Loose

/-!
# Qualified names

A qualified name is a text that a delimiter cuts into segments.  It is valid when it is not empty
and none of its segments is; `segments` gives the segments of a valid name and says why another is
refused.  The empty delimiter cuts nothing and is refused for every name; a torn one occurs in no
name.
-/

namespace ClassBrowser

open Text (Loose)

inductive NameError
  | emptyDelimiter
  | invalid (name : String)
deriving DecidableEq, Repr, Inhabited

def NameError.message : NameError → String
  | .emptyDelimiter => "empty separator"
  | .invalid name => "Invalid qualified name: " ++ Text.quoted name

namespace QualifiedName

def defaultDelimiter : String := "/"

/-- The pieces of a name, empty ones included. -/
def pieces (delimiter : Loose) (name : String) : Except NameError (List String) :=
  match delimiter with
  | .torn _ _ => .ok [name]
  | .whole delimiter => match Text.split? delimiter name with
    | none => .error .emptyDelimiter
    | some parts => .ok parts

def segments (delimiter : Loose) (name : String) : Except NameError (List String) := do
  let parts ← pieces delimiter name
  if name.isEmpty || parts.any String.isEmpty then .error (.invalid name) else .ok parts

def isValid (delimiter : Loose) (name : String) : Bool :=
  match segments delimiter name with
  | .ok _ => true
  | .error _ => false

/-- Names in the order of their code points. -/
def sorted (names : List String) : List String :=
  names.mergeSort fun a b => decide (a ≤ b)

end QualifiedName

end ClassBrowser
