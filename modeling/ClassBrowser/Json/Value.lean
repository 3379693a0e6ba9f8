import ClassBrowser.Assoc
import ClassBrowser.Decimal.Shortest
import ClassBrowser.Text.Loose

/-!
# JSON values

The values of a configuration file and the text by which an option value is handed on: a text
stands for itself, a number for its decimal text, and lists and objects are written out with their
texts quoted.  Texts are lists of glyphs, because escapes may leave half a character alone.
-/

namespace ClassBrowser.Json

open Text (Glyph Loose)

/-- A JSON value.  An object keeps its fields in the order of first appearance. -/
inductive Value
  | null
  | bool (b : Bool)
  | int (n : Int)
  | real (x : Decimal.Binary64)
  | text (s : List Glyph)
  | list (items : List Value)
  | object (fields : List (List Glyph × Value))
deriving Inhabited

abbrev Fields := List (List Glyph × Value)

def quoted (s : List Glyph) : String := String.ofList (Text.quotedGlyphs s)

mutual
/-- A value inside another: texts are quoted. -/
def Value.inner : Value → String
  | .null => "None"
  | .bool true => "True"
  | .bool false => "False"
  | .int n => toString n
  | .real x => x.toText
  | .text s => quoted s
  | .list items => "[" ++ Value.innerItems items ++ "]"
  | .object fields => "\x7b" ++ Value.innerFields fields ++ "\x7d"

def Value.innerItems : List Value → String
  | [] => ""
  | [v] => Value.inner v
  | v :: w :: vs => Value.inner v ++ ", " ++ Value.innerItems (w :: vs)

def Value.innerFields : Fields → String
  | [] => ""
  | [(k, v)] => quoted k ++ ": " ++ Value.inner v
  | (k, v) :: f :: fs =>
    quoted k ++ ": " ++ Value.inner v ++ ", " ++ Value.innerFields (f :: fs)
end

/-- The text of an option value, which is torn where the value is a torn text itself. -/
def Value.toLoose : Value → Loose
  | .text s => .ofGlyphs s
  | v => v.inner

end ClassBrowser.Json
