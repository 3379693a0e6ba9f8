import ClassBrowser.Text.Printable

/-!
# Quoted text in messages

Messages show names and paths between quotes, so that blanks, controls and quotes inside them stay
visible.  The quote is an apostrophe, unless the text holds an apostrophe and no double quote; the
backslash and the quote in use are escaped, tab, line feed and carriage return have their letters,
and every other character that is not printable is written by its code point in two, four or eight
hexadecimal digits.
-/

namespace ClassBrowser.Text

def hexDigit (n : Nat) : Char :=
  "0123456789abcdef".toList.getD n '?'

/-- The last `width` hexadecimal digits of `n`. -/
def hexDigits : (width n : Nat) → List Char
  | 0, _ => []
  | width + 1, n => hexDigits width (n / 16) ++ [hexDigit (n % 16)]

/-- The quote for a text: double quotes only where the text has apostrophes and no double quote. -/
def quoteFor (cs : List Char) : Char :=
  if cs.contains '\x27' && !cs.contains '\x22' then '\x22' else '\x27'

def escapeChar (quote c : Char) : List Char :=
  if c == quote || c == '\x5c' then ['\x5c', c]
  else if c == '\n' then ['\x5c', 'n']
  else if c == '\r' then ['\x5c', 'r']
  else if c == '\t' then ['\x5c', 't']
  else if isPrintable c then [c]
  else if c.toNat ≤ 0xff then '\x5c' :: 'x' :: hexDigits 2 c.toNat
  else if c.toNat ≤ 0xffff then '\x5c' :: 'u' :: hexDigits 4 c.toNat
  else '\x5c' :: 'U' :: hexDigits 8 c.toNat

def quotedChars (cs : List Char) : List Char :=
  let quote := quoteFor cs
  quote :: cs.flatMap (escapeChar quote) ++ [quote]

def quoted (s : String) : String :=
  String.ofList (quotedChars s.toList)

end ClassBrowser.Text
