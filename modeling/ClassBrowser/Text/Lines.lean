/-!
# Lines

Two ways of looking at line ends.  `lines` cuts a text at every line boundary that Unicode knows
(carriage return and line feed together count once) and drops the boundaries; a text that ends in
a boundary has no empty last line.  `unifyNewlines` turns carriage returns, alone or before a line
feed, into line feeds, as text files and program output are read.
-/

namespace ClassBrowser.Text

def isLineBoundary (c : Char) : Bool :=
  let n := c.toNat
  (10 ≤ n && n ≤ 13) || (28 ≤ n && n ≤ 30) || n == 0x85 || n == 0x2028 || n == 0x2029

/-- The lines of a text, the line read so far being `line`, in reverse. -/
def linesFrom (line : List Char) : List Char → List (List Char)
  | [] => if line.isEmpty then [] else [line.reverse]
  | '\r' :: '\n' :: rest => line.reverse :: linesFrom [] rest
  | c :: rest => if isLineBoundary c then line.reverse :: linesFrom [] rest
      else linesFrom (c :: line) rest

def lines (s : String) : List String :=
  (linesFrom [] s.toList).map String.ofList

/-- Carriage returns become line feeds, a pair with a line feed only one. -/
def unifyNewlineChars : List Char → List Char
  | [] => []
  | '\r' :: '\n' :: rest => '\n' :: unifyNewlineChars rest
  | c :: rest => (if c == '\r' then '\n' else c) :: unifyNewlineChars rest

def unifyNewlines (s : String) : String :=
  String.ofList (unifyNewlineChars s.toList)

theorem cr_notMem_unifyNewlineChars (cs : List Char) : '\r' ∉ unifyNewlineChars cs := by
  fun_induction unifyNewlineChars cs with
  | case1 => simp
  | case2 rest ih => simp [ih]
  | case3 c rest _ ih =>
    by_cases h : c = '\r' <;> simp [h, ih]
    exact fun hc => h hc.symm

end ClassBrowser.Text
