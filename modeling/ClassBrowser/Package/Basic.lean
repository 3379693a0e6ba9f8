/-!
# Packages

A package holds packages and members, kept in the order in which each first arrived.  A package and
a member may have the same label; two packages of one label, or two members of one, may not.
`Contents` is the list of what a package holds, with the contents of the inner packages in place,
so that everything about a whole hierarchy is one recursion.

The rule that labels are not repeated is no part of the data: `addPackage` and `addMember` keep it,
and it is an invariant of every hierarchy that was built by them.  A package has no identity beyond
the labels that lead to it; `descend?` and `modifyAt` follow such labels, and `givenPackage` is the
package that is handed out for further changes.

A hierarchy may be as deep as its names are long.  How deep calls may be nested when one goes
through it is no part of the library; see `Files.maxMissing` for where such a bound is.
-/

namespace ClassBrowser

/-- A leaf of the hierarchy: the label it is shown by and its full name. -/
structure Member where
  display : String
  qualified : String
deriving DecidableEq, Repr, Inhabited

/-- What a package holds, in the order of first arrival. -/
inductive Contents
  | nil
  | member (leaf : Member) (rest : Contents)
  | package (segment : String) (inner rest : Contents)
deriving DecidableEq, Repr, Inhabited

structure Package where
  segment : String
  contents : Contents
deriving DecidableEq, Repr, Inhabited

namespace Contents

def isEmpty : Contents → Bool
  | nil => true
  | _ => false

def package? (segment : String) : Contents → Option Contents
  | nil => none
  | member _ rest => package? segment rest
  | package s inner rest => if s = segment then some inner else package? segment rest

def member? (display : String) : Contents → Option Member
  | nil => none
  | member m rest => if m.display = display then some m else member? display rest
  | package _ _ rest => member? display rest

/-- Makes sure that there is an inner package of a label; one that is present is left alone. -/
def addPackage (segment : String) : Contents → Contents
  | nil => package segment nil nil
  | member m rest => member m (addPackage segment rest)
  | package s inner rest =>
    if s = segment then package s inner rest else package s inner (addPackage segment rest)

/-- What the package holds that `addPackage` gives: the one that is present, else a new one. -/
def givenPackage (segment : String) (c : Contents) : Contents := (c.package? segment).getD nil

/-- Puts a member in the place of the one that has its label, else at the end. -/
def addMember (leaf : Member) : Contents → Contents
  | nil => member leaf nil
  | member m rest =>
    if m.display = leaf.display then member leaf rest else member m (addMember leaf rest)
  | package s inner rest => package s inner (addMember leaf rest)

def modifyPackage (segment : String) (change : Contents → Contents) : Contents → Contents
  | nil => nil
  | member m rest => member m (modifyPackage segment change rest)
  | package s inner rest =>
    if s = segment then package s (change inner) rest
    else package s inner (modifyPackage segment change rest)

/-- The contents of the package that a list of labels leads to. -/
def descend? : List String → Contents → Option Contents
  | [], c => some c
  | segment :: path, c => (c.package? segment).bind (descend? path)

def modifyAt : List String → (Contents → Contents) → Contents → Contents
  | [], change, c => change c
  | segment :: path, change, c => c.modifyPackage segment (modifyAt path change)

/-- All members, depth first in the order of siblings. -/
def members : Contents → List Member
  | nil => []
  | member m rest => m :: members rest
  | package _ inner rest => members inner ++ members rest

/-- The lines that show a hierarchy, one for each package and member, `depth` levels deep: a
package has a slash behind its label. -/
def outlineFrom (indent : String) (depth : Nat) : Contents → List String
  | nil => []
  | member m rest =>
    (String.join (List.replicate depth indent) ++ m.display) :: outlineFrom indent depth rest
  | package s inner rest =>
    (String.join (List.replicate depth indent) ++ s ++ "/") ::
      (outlineFrom indent (depth + 1) inner ++ outlineFrom indent depth rest)

end Contents

namespace Package

def empty : Package := ⟨"", .nil⟩

def members (p : Package) : List Member := p.contents.members

def count (p : Package) : Nat := p.members.length

def defaultIndent : String := "  "

def outline (p : Package) (indent : String) : List String :=
  p.contents.outlineFrom indent 0

end Package

end ClassBrowser
