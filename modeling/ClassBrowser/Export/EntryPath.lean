import ClassBrowser.Path
import ClassBrowser.QualifiedName
import ClassBrowser.Text.Quoted

/-!
# The path of an exported class

A class is exported under the path of its segments, with the file name extension behind the last
one.  A name is refused if a segment is empty, stands for a directory by dots, or holds a slash or a
backslash, so that no accepted name leads out of the target.
-/

namespace ClassBrowser.Export

open Text (Loose)

inductive EntryError
  | emptyDelimiter
  | invalidName (name : String)
deriving DecidableEq, Repr, Inhabited

def EntryError.message : EntryError → String
  | .emptyDelimiter => NameError.emptyDelimiter.message
  | .invalidName name => "Invalid qualified name for export: " ++ Text.quoted name

/-- Whether a segment may be a component of a path. -/
def isComponent (segment : String) : Bool :=
  !(segment.isEmpty || segment == "." || segment == ".." ||
    segment.toList.any fun c => c == '/' || c == '\x5c')

def withExtension (extension : Loose) : List String → List Loose
  | [] => []
  | [last] => [last ++ extension]
  | segment :: next :: rest => segment :: withExtension extension (next :: rest)

/-- The relative path of a class. -/
def entryPath (delimiter extension : Loose) (name : String) : Except EntryError Path :=
  match QualifiedName.pieces delimiter name with
  | .error _ => .error .emptyDelimiter
  | .ok segments =>
    if segments.all isComponent then
      .ok ⟨.relative, (withExtension extension segments).flatMap Path.components⟩
    else .error (.invalidName name)

end ClassBrowser.Export
