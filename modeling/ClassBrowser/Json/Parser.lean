import ClassBrowser.Json.Value
import ClassBrowser.Text.Split

/-!
# Reading JSON

`parse` reads one JSON value with blanks around it.  Beside the standard's values it knows `NaN`,
`Infinity` and `-Infinity`; of an object's repeated key the last value counts, in the place of the
first.  A refused text yields the cause and the position, counted in characters, where reading
stopped; `ParseError.message` adds the line and the column.

Values may be nested `maxDepth` deep, and a whole number may have at most `maxDigits` digits.  A
text beyond these limits may well be JSON; it is refused with an error of another kind, which those
who read settings do not expect.

The readers for values, items and fields call each other; `fuel` bounds the number of parts that
they read, and a text has no more parts than characters.
-/

namespace ClassBrowser.Json

open Text (Glyph)

/-! ## What may be wrong -/

inductive Problem
  | expectingValue
  | expectingKey
  | expectingColon
  | expectingComma
  | extraData
  | unterminatedText
  | controlCharacter
  | badEscape
  | badCodeUnit
  | byteOrderMark
deriving DecidableEq, Repr, Inhabited

def Problem.message : Problem → String
  | .expectingValue => "Expecting value"
  | .expectingKey => "Expecting property name enclosed in double quotes"
  | .expectingColon => "Expecting ':' delimiter"
  | .expectingComma => "Expecting ',' delimiter"
  | .extraData => "Extra data"
  | .unterminatedText => "Unterminated string starting at"
  | .controlCharacter => "Invalid control character at"
  | .badEscape => "Invalid \\escape"
  | .badCodeUnit => "Invalid \\uXXXX escape"
  | .byteOrderMark => "Unexpected UTF-8 BOM (decode using utf-8-sig)"

inductive Nesting
  | list
  | object
deriving DecidableEq, Repr, Inhabited

/-- Why a text yields no value: it is not JSON, or it goes beyond a limit of the reader. -/
inductive ParseError
  | malformed (problem : Problem) (position : Nat)
  | tooManyDigits (count : Nat)
  | tooDeep (nesting : Nesting)
deriving DecidableEq, Repr, Inhabited

def maxDepth : Nat := 980

def maxDigits : Nat := 4300

/-- The line of a position and its column on it, both counted from one. -/
def lineAndColumn (text : List Char) (position : Nat) : Nat × Nat :=
  let before := text.take position
  (before.count '\n' + 1, (before.reverse.takeWhile (· != '\n')).length + 1)

def ParseError.message (text : List Char) : ParseError → String
  | .malformed problem position =>
    let (line, column) := lineAndColumn text position
    s!"{problem.message}: line {line} column {column} (char {position})"
  | .tooManyDigits count =>
    s!"Exceeds the limit ({maxDigits} digits) for integer string conversion: value has " ++
      s!"{count} digits; use sys.set_int_max_str_digits() to increase the limit"
  | .tooDeep .list =>
    "maximum recursion depth exceeded while decoding a JSON array from a unicode string"
  | .tooDeep .object =>
    "maximum recursion depth exceeded while decoding a JSON object from a unicode string"

/-! ## The place of reading -/

/-- The rest of a text and the position where it begins. -/
structure Cursor where
  rest : List Char
  position : Nat
deriving Repr, Inhabited

def Cursor.skip (c : Cursor) (n : Nat) : Cursor := ⟨c.rest.drop n, c.position + n⟩

def isBlank (c : Char) : Bool := c == ' ' || c == '\t' || c == '\n' || c == '\r'

def Cursor.skipBlanks (c : Cursor) : Cursor := c.skip (c.rest.takeWhile isBlank).length

def refuse {α : Type} (problem : Problem) (c : Cursor) : Except ParseError α :=
  .error (.malformed problem c.position)

/-! ## Texts -/

def hexValue? (c : Char) : Option Nat :=
  if '0' ≤ c ∧ c ≤ '9' then some (c.toNat - '0'.toNat)
  else if 'a' ≤ c ∧ c ≤ 'f' then some (c.toNat - 'a'.toNat + 10)
  else if 'A' ≤ c ∧ c ≤ 'F' then some (c.toNat - 'A'.toNat + 10)
  else none

def hexNumber? (digits : List Char) : Option Nat :=
  digits.foldlM (fun n c => (hexValue? c).map (n * 16 + ·)) 0

def escaped? (c : Char) : Option Char :=
  if c == '\x22' || c == '\x5c' || c == '/' then some c
  else if c == 'b' then some '\x08'
  else if c == 'f' then some '\x0c'
  else if c == 'n' then some '\n'
  else if c == 'r' then some '\r'
  else if c == 't' then some '\t'
  else none

/-- Reads the four digits of an escaped code unit; at least one character has to follow them. -/
def codeUnit (c : Cursor) : Except ParseError (Nat × Cursor) :=
  if (c.rest.drop 4).isEmpty then .error (.malformed .badCodeUnit (c.position - 1))
  else match hexNumber? (c.rest.take 4) with
    | some n => .ok (n, c.skip 4)
    | none => .error (.malformed .badCodeUnit (c.position - 1))

/-- The first halves of characters that take two code units. -/
def isHighSurrogate (n : Nat) : Bool := 0xd800 ≤ n && n ≤ 0xdbff

def isLowSurrogate (n : Nat) : Bool := 0xdc00 ≤ n && n ≤ 0xdfff

def unitGlyph (n : Nat) : Glyph :=
  if isHighSurrogate n || isLowSurrogate n then .half n else .char (Char.ofNat n)

/-- Reads the digits of an escaped glyph: one code unit, or two that belong together. -/
def escapedUnits (c : Cursor) : Except ParseError (Glyph × Cursor) := do
  let (n, after) ← codeUnit c
  match isHighSurrogate n, after.rest with
  | true, '\x5c' :: 'u' :: second =>
    if (second.drop 4).isEmpty then return (unitGlyph n, after)
    let (m, behind) ← codeUnit (after.skip 2)
    if isLowSurrogate m then
      return (.char (Char.ofNat (0x10000 + (n - 0xd800) * 0x400 + (m - 0xdc00))), behind)
    return (unitGlyph n, after)
  | _, _ => return (unitGlyph n, after)

/-- Reads a text up to its closing quote; `opening` is the place of the opening one, `fuel` bounds
the number of glyphs, and `read` holds what was read, in reverse. -/
def textFrom (opening : Cursor) : (fuel : Nat) → (read : List Glyph) → Cursor →
    Except ParseError (List Glyph × Cursor)
  | 0, _, _ => refuse .unterminatedText opening
  | fuel + 1, read, c =>
    match c.rest with
    | [] => refuse .unterminatedText opening
    | '\x22' :: _ => .ok (read.reverse, c.skip 1)
    | '\x5c' :: [] => refuse .unterminatedText opening
    | '\x5c' :: 'u' :: _ => do
      let (x, after) ← escapedUnits (c.skip 2)
      textFrom opening fuel (x :: read) after
    | '\x5c' :: x :: _ =>
      match escaped? x with
      | some y => textFrom opening fuel (.char y :: read) (c.skip 2)
      | none => refuse .badEscape c
    | x :: _ =>
      if x.toNat ≤ 0x1f then refuse .controlCharacter c
      else textFrom opening fuel (.char x :: read) (c.skip 1)

def readText (c : Cursor) : Except ParseError (List Glyph × Cursor) :=
  textFrom c c.rest.length [] (c.skip 1)

/-! ## Numbers -/

def digitsOf (cs : List Char) : List Char := cs.takeWhile Char.isDigit

def decimalValue (digits : List Char) : Nat :=
  digits.foldl (fun n c => n * 10 + (c.toNat - '0'.toNat)) 0

/-- The digits behind a decimal point, if at least one follows it. -/
def fractionOf : List Char → List Char
  | '.' :: rest => digitsOf rest
  | _ => []

def exponentOf : List Char → Option (Bool × List Char × Nat)
  | e :: rest =>
    if e == 'e' || e == 'E' then
      let (negative, digits, length) := match rest with
        | '-' :: more => (true, digitsOf more, 2)
        | '+' :: more => (false, digitsOf more, 2)
        | more => (false, digitsOf more, 1)
      if digits.isEmpty then none else some (negative, digits, length + digits.length)
    else none
  | [] => none

def readNumber (c : Cursor) : Except ParseError (Value × Cursor) :=
  let negative := c.rest.head? == some '-'
  let signed := if negative then c.skip 1 else c
  let whole := match signed.rest with
    | '0' :: _ => ['0']
    | rest => digitsOf rest
  if whole.isEmpty then refuse .expectingValue c
  else
    let afterWhole := signed.skip whole.length
    let fraction := fractionOf afterWhole.rest
    let afterFraction := if fraction.isEmpty then afterWhole
      else afterWhole.skip (fraction.length + 1)
    match exponentOf afterFraction.rest with
    | some (below, digits, length) =>
      let e : Int := decimalValue digits
      .ok (.real (Decimal.ofDecimal negative (decimalValue (whole ++ fraction))
        (whole ++ fraction).length ((if below then -e else e) - fraction.length)),
        afterFraction.skip length)
    | none =>
      if fraction.isEmpty then
        if maxDigits < whole.length then .error (.tooManyDigits whole.length)
        else
          let n : Int := decimalValue whole
          .ok (.int (if negative then -n else n), afterWhole)
      else
        .ok (.real (Decimal.ofDecimal negative (decimalValue (whole ++ fraction))
          (whole ++ fraction).length (-fraction.length)), afterFraction)

/-! ## Values -/

def Cursor.word? (word : String) (c : Cursor) : Option Cursor :=
  (Text.dropStart? word.toList c.rest).map fun rest => ⟨rest, c.position + word.length⟩

def readPlain (c : Cursor) : Except ParseError (Value × Cursor) :=
  match c.word? "null" with
  | some after => .ok (.null, after)
  | none => match c.word? "true" with
    | some after => .ok (.bool true, after)
    | none => match c.word? "false" with
      | some after => .ok (.bool false, after)
      | none => match c.word? "NaN" with
        | some after => .ok (.real .nan, after)
        | none => match c.word? "Infinity" with
          | some after => .ok (.real (.infinite false), after)
          | none => match c.word? "-Infinity" with
            | some after => .ok (.real (.infinite true), after)
            | none => readNumber c

def Cursor.at (c : Cursor) (x : Char) : Bool := c.rest.head? == some x

mutual
/-- Reads a value; it may be nested `depth` deep, and `fuel` bounds the number of its parts. -/
def readValue : (fuel depth : Nat) → Cursor → Except ParseError (Value × Cursor)
  | 0, _, c => refuse .expectingValue c
  | fuel + 1, depth, c =>
    if c.at '\x22' then do
      let (s, after) ← readText c
      return (.text s, after)
    else if c.at '\x7b' then
      if depth = 0 then .error (.tooDeep .object)
      else
        let first := (c.skip 1).skipBlanks
        if first.at '\x7d' then .ok (.object [], first.skip 1)
        else readFields fuel (depth - 1) [] first
    else if c.at '[' then
      if depth = 0 then .error (.tooDeep .list)
      else
        let first := (c.skip 1).skipBlanks
        if first.at ']' then .ok (.list [], first.skip 1)
        else readItems fuel (depth - 1) [] first
    else readPlain c

/-- Reads the items of a list from one on, `read` being those before it, in reverse. -/
def readItems : (fuel depth : Nat) → (read : List Value) → Cursor →
    Except ParseError (Value × Cursor)
  | 0, _, _, c => refuse .expectingValue c
  | fuel + 1, depth, read, c => do
    let (v, behind) ← readValue fuel depth c
    let after := behind.skipBlanks
    if after.at ']' then return (.list (v :: read).reverse, after.skip 1)
    if after.at ',' then readItems fuel depth (v :: read) (after.skip 1).skipBlanks
    else refuse .expectingComma after

/-- Reads the fields of an object from one on, `read` being those before it. -/
def readFields : (fuel depth : Nat) → (read : Assoc (List Glyph) Value) → Cursor →
    Except ParseError (Value × Cursor)
  | 0, _, _, c => refuse .expectingKey c
  | fuel + 1, depth, read, c => do
    if !c.at '\x22' then refuse .expectingKey c
    let (key, behindKey) ← readText c
    let colon := behindKey.skipBlanks
    if !colon.at ':' then refuse .expectingColon colon
    let (v, behind) ← readValue fuel depth (colon.skip 1).skipBlanks
    let after := behind.skipBlanks
    if after.at '\x7d' then return (.object (read.insert key v), after.skip 1)
    if after.at ',' then readFields fuel depth (read.insert key v) (after.skip 1).skipBlanks
    else refuse .expectingComma after
end

def parse (text : List Char) : Except ParseError Value := do
  if text.head? == some '\ufeff' then .error (.malformed .byteOrderMark 0)
  let start : Cursor := ⟨text, 0⟩
  let (v, behind) ← readValue (2 * text.length + 2) maxDepth start.skipBlanks
  let after := behind.skipBlanks
  if after.rest.isEmpty then return v else refuse .extraData after

end ClassBrowser.Json
