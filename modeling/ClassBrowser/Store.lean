import ClassBrowser.Assoc
import ClassBrowser.QualifiedName

/-!
# Decompiled classes

The store keeps the text of every decompiled class under its qualified name.  A name may be present
without a text: the class is known, but its text has to be asked for again.  `units` is the snapshot
that exports work on: all names with their texts, in the order of the names' code points.

Names are sorted when they are asked for, not when they are put in; the table itself keeps the order
of arrival, in which nothing is ever shown.
-/

namespace ClassBrowser

/-- A class and, if it is known, its text. -/
structure ClassUnit where
  name : String
  text : Option String
deriving DecidableEq, Repr, Inhabited

structure Store where
  entries : Assoc String (Option String)
  distinct : entries.keys.Nodup

namespace Store

def empty : Store := ⟨[], by simp [Assoc.keys]⟩

instance : Inhabited Store := ⟨empty⟩

/-- Stores a text, or its absence, under a name. -/
def put (s : Store) (name : String) (text : Option String) : Store :=
  ⟨s.entries.insert name text, Assoc.nodup_keys_insert s.distinct name text⟩

def text? (s : Store) (name : String) : Option String :=
  (s.entries.get? name).join

/-- Whether a name is present, with or without a text. -/
def contains (s : Store) (name : String) : Bool := s.entries.contains name

def size (s : Store) : Nat := s.entries.length

def names (s : Store) : List String := QualifiedName.sorted s.entries.keys

def units (s : Store) : List ClassUnit :=
  (s.entries.map fun (name, text) => ⟨name, text⟩).mergeSort fun a b => decide (a.name ≤ b.name)

end Store

end ClassBrowser
