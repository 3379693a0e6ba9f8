import ClassBrowser.Files.Edit

/-!
# Which program runs

A file is executed by the system itself if it is a program.  If it is text that begins with the mark
`#!`, the file that its first line names behind the mark is executed in its place
(`interpreterName?`), which may again be text of that kind; so it goes on for a limited number of
files (`Files.runner`).

Only the head of the file counts for the first line.  Where the head has no line end, the name must
at least end in it, lest a part of a name is taken for a name.
-/

namespace ClassBrowser

open Text (Loose)

namespace Interpreter

def headLength : Nat := 256

/-- The head of a file, with zeros in the place of what is missing. -/
def head (data : ByteArray) : List UInt8 :=
  (data.extract 0 headLength).toList.rightpad headLength 0

/-- A blank of the first line: a space or a tab. -/
def isGap (b : UInt8) : Bool := b == 0x20 || b == 0x09

def endsName (b : UInt8) : Bool := isGap b || b == 0

/-- What follows the mark on the first line: all up to the line end or, where there is none before
the first zero, the head but for its last byte, provided that a name ends in the head. -/
def lineOf? (afterMark : List UInt8) : Option (List UInt8) :=
  match afterMark.dropWhile fun b => b != 0x0a && b != 0 with
  | 0x0a :: _ => some (afterMark.takeWhile (· != 0x0a))
  | _ => if (afterMark.dropWhile isGap).any endsName then some afterMark.dropLast else none

def trimmed (line : List UInt8) : List UInt8 :=
  ((line.reverse.dropWhile isGap).reverse).dropWhile isGap

/-- The name on the first line of text that begins with the mark; `none` where there is no mark or
no name behind it. -/
def name? (head : List UInt8) : Option (List UInt8) :=
  match head with
  | 0x23 :: 0x21 :: afterMark => (lineOf? afterMark).bind fun line =>
    match trimmed line with
    | [] => none
    | words => some (words.takeWhile fun b => !endsName b)
  | _ => none

end Interpreter

/-- The file that is to be executed in the place of one that holds this. -/
def interpreterName? (data : ByteArray) : Option Loose :=
  (Interpreter.name? (Interpreter.head data)).map Loose.ofBytes

namespace Files

def namesDirectory (name : Loose) : Bool :=
  match name.pieces.getLast? with
  | some last => last.isEmpty || last == .whole "."
  | none => false

def executableAt (fs : Files) (name : Loose) : Except Obstacle (Place × Node) := do
  let place ← (fs.locate (.ofLoose name)).mapError fun
    | .refused obstacle _ => obstacle
    | _ => .notFound
  match fs.node? place with
  | none => throw .notFound
  | some .directory => throw .permission
  | some node =>
    if namesDirectory name then throw .notDirectory
    else if Node.isExecutable node then return (place, node)
    else throw .permission

/-- The most files that are read for one that is executed. -/
def maxLevels : Nat := 6

/-- The place of the program that runs when a file is executed.  At most `left` files are read on
the way; with a program, its own interpreter is read too. -/
def runnerWithin (fs : Files) (left : Nat) (name : Loose) : Except Obstacle Place := do
  let (place, node) ← fs.executableAt name
  match node, left with
  | _, 0 => throw .tooManyLevels
  | .program _ _, 1 => throw .tooManyLevels
  | .program _ _, _ => return place
  | .file (.bytes data) _, left + 1 => match interpreterName? data with
    | some name => runnerWithin fs left name
    | none => throw .notProgram
  | _, _ => throw .notProgram

def runner (fs : Files) (name : Loose) : Except Obstacle Place := fs.runnerWithin maxLevels name

end Files

end ClassBrowser
