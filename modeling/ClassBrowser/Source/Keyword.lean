import ClassBrowser.Bisect
import ClassBrowser.Source.Region
import ClassBrowser.Text.Word

/-!
# Keywords in program text

A keyword is a maximal run of word characters that is one of the language's reserved words.  Only
keywords of plain text count: `keywordRanges` takes the classified extents of a text and keeps the
keywords that lie inside a plain one, which it finds by halving over the extents' starts.  On
extents that are in order and disjoint this finds every keyword inside a plain extent; on any other
list it only promises that whatever it reports lies inside one.
-/

namespace ClassBrowser.Source

def javaKeywords : List String := [
  "abstract", "assert", "boolean", "break", "byte", "case", "catch", "char", "class", "const",
  "continue", "default", "do", "double", "else", "enum", "extends", "final", "finally", "float",
  "for", "goto", "if", "implements", "import", "instanceof", "int", "interface", "long", "native",
  "new", "package", "private", "protected", "public", "return", "short", "static", "strictfp",
  "super", "switch", "synchronized", "this", "throw", "throws", "transient", "try", "void",
  "volatile", "while", "true", "false", "null", "var"]

/-- A classified stretch of a text, whose bounds may lie anywhere. -/
structure Extent where
  kind : Kind
  start : Int
  stop : Int
deriving DecidableEq, Repr, Inhabited

def Span.extent (s : Span) : Extent := ⟨s.kind, s.start, s.stop⟩

/-- The maximal runs of word characters of a text that begins at position `start`, with the
positions where they begin. -/
def wordRunsFrom (start : Nat) : List Char → List (Nat × List Char)
  | [] => []
  | c :: rest =>
    if Text.isWord c then
      let run := c :: rest.takeWhile Text.isWord
      (start, run) :: wordRunsFrom (start + run.length) (rest.dropWhile Text.isWord)
    else wordRunsFrom (start + 1) rest
termination_by cs => cs.length
decreasing_by
  · have := (List.dropWhile_sublist (l := rest) Text.isWord).length_le
    simp
    omega
  · simp

/-- The maximal runs of word characters of a text, with the positions where they begin. -/
def wordRuns (cs : List Char) : List (Nat × List Char) :=
  wordRunsFrom 0 cs

/-- The plain extent whose start is the last one not behind `position`, found by halving. -/
def lastStartingBy (plain : Array Extent) (position : Nat) : Option Extent :=
  match Bisect.countUpTo (plain.map Extent.start) position with
  | 0 => none
  | n + 1 => plain[n]?

/-- Whether the run of `length` word characters at `start` lies inside the plain extent that the
search finds for it. -/
def insidePlain (plain : Array Extent) (start length : Nat) : Bool :=
  match lastStartingBy plain start with
  | none => false
  | some e => decide (e.start ≤ start ∧ ((start + length : Nat) : Int) ≤ e.stop)

/-- The keywords of a text that lie inside plain extents, by their bounds. -/
def keywordRanges (text : List Char) (extents : List Extent) (keywords : List String) :
    List (Nat × Nat) :=
  let plain := (extents.filter (·.kind == .default)).toArray
  (wordRuns text).filterMap fun (start, run) =>
    if keywords.contains (String.ofList run) && insidePlain plain start run.length then
      some (start, start + run.length)
    else none

end ClassBrowser.Source
