import ClassBrowser.Assoc
import ClassBrowser.Log
import ClassBrowser.Package.Basic
import ClassBrowser.QualifiedName

/-!
# Hierarchies of qualified names

A list of qualified names is arranged into a hierarchy: each segment but the last names a package,
the last one the member.  Names are taken in sorted order, so the order of siblings depends on the
names alone.

The hierarchy under construction (`Builder`) keeps, beside the packages, a table from every prefix
met so far to the package that it stands for.  A package is given by the labels that lead to it
from the root.
-/

namespace ClassBrowser.Package

open Text (Loose)

/-- A hierarchy under construction: what the root holds so far and the package of every prefix. -/
structure Builder where
  contents : Contents
  packages : Assoc String (List String)
deriving DecidableEq, Repr, Inhabited

namespace Builder

def empty : Builder := ⟨.nil, []⟩

/-- Goes from the package `path`, whose prefix is `joined`, to the packages of further segments and
adds those that have no package yet; gives the labels of the last one. -/
def enter (delimiter : Loose) :
    (segments : List String) → (joined : String) → (path : List String) → Builder →
      List String × Builder
  | [], _, path, b => (path, b)
  | segment :: rest, joined, path, b =>
    let joined := if joined.isEmpty then segment else joined ++ delimiter.text ++ segment
    match b.packages.get? joined with
    | some found => enter delimiter rest joined found b
    | none =>
      let inner := path ++ [segment]
      enter delimiter rest joined inner
        ⟨b.contents.modifyAt path (·.addPackage segment), b.packages.insert joined inner⟩

def addSegments (delimiter : Loose) (name : String) (segments : List String) (b : Builder) :
    Builder :=
  let (path, b) := enter delimiter segments.dropLast "" [] b
  ⟨b.contents.modifyAt path (·.addMember ⟨segments.getLastD "", name⟩), b.packages⟩

def add (delimiter : Loose) (b : Builder) (name : String) : Except NameError Builder := do
  return b.addSegments delimiter name (← QualifiedName.segments delimiter name)

def toPackage (b : Builder) : Package := ⟨"", b.contents⟩

end Builder

/-- The hierarchy of names that must all be valid; the least invalid one is reported. -/
def ofNames (delimiter : Loose) (names : List String) : Except NameError Package :=
  Builder.toPackage <$> (QualifiedName.sorted names).foldlM (Builder.add delimiter) .empty

def skippedRecord (name : String) : Log.Record :=
  ⟨.warning, .names, "Skipping invalid qualified name " ++ Text.quoted name⟩

/-- The hierarchy of the valid ones of some names, and a record for each that is left out. -/
def ofValidNames (delimiter : Loose) (names : List String) : Package × List Log.Record :=
  let start : Builder × List Log.Record := (.empty, [])
  let (b, skipped) := (QualifiedName.sorted names).foldl
    (fun (b, skipped) name => match b.add delimiter name with
      | .ok b => (b, skipped)
      | .error _ => (b, skipped ++ [skippedRecord name])) start
  (b.toPackage, skipped)

/-- The member of a name: its first segments lead to a package, its last is a member there. -/
def find? (p : Package) (delimiter : Loose) (name : String) : Option Member :=
  match QualifiedName.segments delimiter name with
  | .error _ => none
  | .ok segments =>
    (p.contents.descend? segments.dropLast).bind (·.member? (segments.getLastD ""))

end ClassBrowser.Package
