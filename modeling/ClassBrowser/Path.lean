import ClassBrowser.Assoc
import ClassBrowser.Text.Loose

/-!
# Paths

A path is a list of components behind an anchor: nothing, a slash, or exactly two slashes, which
some systems set apart.  Empty components and single dots vanish when a path is read; two dots stay,
because what lies above a directory is for the file system to say.  `resolve` makes a path absolute
and takes the two dots away, which is right where no directory is a link.

Components are loose texts: not every text that a path is read from can be the name of a file, and
it is only when the path is followed that the fault shows.

## Home directories

A tilde at the start of a path stands for a home directory (`expandUser`).  Which users there are,
where their homes lie and which of them runs the program is data of the `Environment`, beside its
variables; the variable `HOME` comes before what the system says of the user.  A tilde for which
there is no home keeps a path from being used.
-/

namespace ClassBrowser

open Text (Loose NameFault)

/-! ## What a program is started with -/

/-- What a program is started with: its variables, and what the system knows of its users.  The home
directories are those of the user who runs the program and, by name, of all. -/
structure Environment where
  values : Assoc String String := []
  ownHome : Option String := none
  homes : Assoc Loose String := []
deriving DecidableEq, Repr, Inhabited

def Environment.get? (env : Environment) (key : String) : Option String := env.values.get? key

/-! ## Paths -/

inductive Anchor
  | relative
  | root
  | doubleRoot
deriving DecidableEq, Repr, Inhabited

def Anchor.text : Anchor → String
  | .relative => ""
  | .root => "/"
  | .doubleRoot => "//"

structure Path where
  anchor : Anchor
  parts : List Loose
deriving DecidableEq, Repr, Inhabited

/-- Why a path leads nowhere: the home directory is not known, or a component is no name. -/
inductive PathError
  | noHome
  | name (fault : NameFault)
deriving DecidableEq, Repr, Inhabited

def PathError.message : PathError → String
  | .noHome => "Could not determine home directory."
  | .name fault => fault.message

namespace Path

/-- The components that a text stands for. -/
def components (s : Loose) : List Loose :=
  s.pieces.filter fun part => !part.isEmpty && part != .whole "."

def anchorOf (s : Loose) : Anchor :=
  match s.glyphs with
  | .char '/' :: .char '/' :: .char '/' :: _ => .root
  | .char '/' :: .char '/' :: _ => .doubleRoot
  | .char '/' :: _ => .root
  | _ => .relative

def ofLoose (s : Loose) : Path := ⟨anchorOf s, components s⟩

def ofString (s : String) : Path := ofLoose s

def joined : List Loose → Loose
  | [] => ""
  | part :: rest => rest.foldl (fun s part => s ++ "/" ++ part) part

/-- The text of a path; the path without components is a dot. -/
def toLoose (p : Path) : Loose :=
  match p.anchor, p.parts with
  | .relative, [] => "."
  | anchor, parts => anchor.text ++ joined parts

/-- The text of a path with every half replaced. -/
def toText (p : Path) : String := p.toLoose.text

instance : ToString Path := ⟨toText⟩

/-- The last component. -/
def name (p : Path) : Loose := p.parts.getLastD ""

def parent (p : Path) : Path := { p with parts := p.parts.dropLast }

/-- A path seen from another: an absolute path stays as it is. -/
def append (p q : Path) : Path :=
  if q.anchor = .relative then { p with parts := p.parts ++ q.parts } else q

def child (p : Path) (name : String) : Path := p.append (ofString name)

/-- A file name cut before its last dot, unless the dot is its first or last character. -/
def splitName (name : String) : String × String :=
  let reversed := name.toList.reverse
  let tail := reversed.takeWhile (· != '.')
  match reversed.dropWhile (· != '.') with
  | _ :: stem@(_ :: _) =>
    if tail.isEmpty then (name, "")
    else (String.ofList stem.reverse, String.ofList ('.' :: tail.reverse))
  | _ => (name, "")

def stem (p : Path) : String := (splitName p.name.text).1

def suffix (p : Path) : String := (splitName p.name.text).2

/-- The home directory that a tilde with a user name stands for.  Without a name it is the one that
the variable `HOME` tells, or else the user's own.  A tilde for which there is none stays. -/
def homeOf (env : Environment) (user : Loose) : Except PathError String :=
  match user.nameFault? with
  | some fault => .error (.name fault)
  | none =>
    let home := if user.isEmpty then (env.get? "HOME").or env.ownHome else env.homes.get? user
    .ok (home.getD "~")

/-- A text without the slashes at its end, or a slash if nothing else is left. -/
def withoutEndSlashes (s : String) : String :=
  let kept := (s.toList.reverse.dropWhile (· == '/')).reverse
  if kept.isEmpty then "/" else String.ofList kept

/-- Puts the home directory in the place of a tilde at the start of a relative path. -/
def expandUser (env : Environment) (p : Path) : Except PathError Path :=
  match p.anchor, p.parts with
  | .relative, first :: rest =>
    match first.glyphs with
    | .char '~' :: user => do
      let home := withoutEndSlashes (← homeOf env (.ofGlyphs user))
      if home.toList.head? == some '~' then .error .noHome
      else return { ofString home with parts := (ofString home).parts ++ rest }
    | _ => .ok p
  | _, _ => .ok p

/-- One step down from the components `above`, or up from them. -/
def step (above : List Loose) (part : Loose) : List Loose :=
  if part = .whole ".." then above.dropLast else above ++ [part]

/-- One step down from the components `above` of a relative path, or up from them, where two dots
stay if nothing is left to go up from. -/
def relativeStep (above : List Loose) (part : Loose) : List Loose :=
  if part = .whole ".." ∧ above.all (· == .whole "..") then above ++ [part] else step above part

/-- The components to which the first ones of a path lead. -/
def reduced (anchor : Anchor) (parts : List Loose) : List Loose :=
  parts.foldl (if anchor = .relative then relativeStep else step) []

/-- The first component that is no name.  Its place is told in the text that leads there. -/
def nameFault? (p : Path) : Option NameFault :=
  let before := p.parts.takeWhile fun part => part.nameFault?.isNone
  match p.parts.drop before.length with
  | [] => none
  | part :: _ =>
    let start := if p.anchor = .relative then 0 else 1
    let lead := (reduced p.anchor before).foldl (fun n part => n + part.length + 1) start
    part.nameFault?.map (·.shift lead)

/-- The absolute path without two dots, seen from the directory `cwd`. -/
def resolve (p cwd : Path) : Except PathError Path :=
  match p.nameFault? with
  | some fault => .error (.name fault)
  | none => .ok ⟨.root, (cwd.append p).parts.foldl step []⟩

end Path

end ClassBrowser
