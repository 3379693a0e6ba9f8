/-!
# Lexical regions of program text

A text is cut, from the left and without looking further than one character ahead, into string
literals, line comments, block comments and the plain text between them.  A string ends with the
next character that equals its opening quote (a backslash does not protect it), a line comment with
the line, a block comment with its closing mark; each of them may also be left open by the end of
the text.

`firstRegion` cuts off one region and loses nothing (`text_append_rest_firstRegion`); `regions`
repeats it.  Texts are handled as lists of characters and positions count characters.
-/

namespace ClassBrowser.Source

inductive Kind
  | default
  | string
  | lineComment
  | blockComment
  | keyword
deriving DecidableEq, Repr, Inhabited

def Kind.name : Kind → String
  | .default => "default"
  | .string => "string"
  | .lineComment => "line-comment"
  | .blockComment => "block-comment"
  | .keyword => "keyword"

/-- A classified piece of a text and the position where it begins. -/
structure Span where
  kind : Kind
  start : Nat
  text : List Char
deriving DecidableEq, Repr, Inhabited

def Span.length (s : Span) : Nat := s.text.length

/-- The position behind the last character of a span. -/
def Span.stop (s : Span) : Nat := s.start + s.text.length

def isQuote (c : Char) : Bool := c == '\x22' || c == '\x27'

/-- Whether a string or a comment begins at the start of the text. -/
def opensRegion : List Char → Bool
  | '/' :: '/' :: _ => true
  | '/' :: '*' :: _ => true
  | c :: _ => isQuote c
  | [] => false

/-- The text up to the first `c`, which is included, and the text behind it. -/
def through (c : Char) : List Char → List Char × List Char
  | [] => ([], [])
  | x :: rest =>
    if x = c then ([x], rest)
    else (x :: (through c rest).1, (through c rest).2)

/-- The text up to the first closing mark of a block comment, which is included, and the text behind
it. -/
def throughClose : List Char → List Char × List Char
  | '*' :: '/' :: rest => (['*', '/'], rest)
  | x :: rest => (x :: (throughClose rest).1, (throughClose rest).2)
  | [] => ([], [])

/-- The text up to the place where the next string or comment begins, and the text from there on. -/
def upToOpening : List Char → List Char × List Char
  | [] => ([], [])
  | c :: rest =>
    if opensRegion (c :: rest) then ([], c :: rest)
    else (c :: (upToOpening rest).1, (upToOpening rest).2)

/-- One region cut off the start of a text: its kind, its text and the text behind it. -/
structure Cut where
  kind : Kind
  text : List Char
  rest : List Char
deriving DecidableEq, Repr, Inhabited

def firstRegion : List Char → Cut
  | '/' :: '/' :: rest =>
    ⟨.lineComment, '/' :: '/' :: (through '\n' rest).1, (through '\n' rest).2⟩
  | '/' :: '*' :: rest =>
    ⟨.blockComment, '/' :: '*' :: (throughClose rest).1, (throughClose rest).2⟩
  | c :: rest =>
    if isQuote c then ⟨.string, c :: (through c rest).1, (through c rest).2⟩
    else ⟨.default, c :: (upToOpening rest).1, (upToOpening rest).2⟩
  | [] => ⟨.default, [], []⟩

theorem through_append (c : Char) (cs : List Char) : (through c cs).1 ++ (through c cs).2 = cs := by
  fun_induction through c cs with
  | case1 => rfl
  | case2 => rfl
  | case3 x rest _ ih => simp [ih]

theorem throughClose_append (cs : List Char) : (throughClose cs).1 ++ (throughClose cs).2 = cs := by
  fun_induction throughClose cs with
  | case1 => rfl
  | case2 x rest _ ih => simp [ih]
  | case3 => rfl

theorem upToOpening_append (cs : List Char) : (upToOpening cs).1 ++ (upToOpening cs).2 = cs := by
  fun_induction upToOpening cs with
  | case1 => rfl
  | case2 => rfl
  | case3 c rest _ ih => simp [ih]

/-- Cutting off a region loses nothing. -/
theorem text_append_rest_firstRegion (cs : List Char) :
    (firstRegion cs).text ++ (firstRegion cs).rest = cs := by
  fun_cases firstRegion cs <;>
    simp [through_append, throughClose_append, upToOpening_append]

/-- A region is never empty, except in the empty text. -/
theorem firstRegion_text_ne_nil (c : Char) (cs : List Char) :
    (firstRegion (c :: cs)).text ≠ [] := by
  unfold firstRegion
  split
  · simp
  · simp
  · split <;> simp
  · contradiction

theorem length_rest_firstRegion (c : Char) (cs : List Char) :
    (firstRegion (c :: cs)).rest.length < (c :: cs).length := by
  have h := congrArg List.length (text_append_rest_firstRegion (c :: cs))
  have := List.length_pos_iff.mpr (firstRegion_text_ne_nil c cs)
  simp only [List.length_append] at h
  omega

def regionsFrom (start : Nat) : List Char → List Span
  | [] => []
  | c :: cs =>
    let cut := firstRegion (c :: cs)
    ⟨cut.kind, start, cut.text⟩ :: regionsFrom (start + cut.text.length) cut.rest
termination_by cs => cs.length
decreasing_by exact length_rest_firstRegion c cs

/-- The string, comment and plain regions of a text, in order. -/
def regions (cs : List Char) : List Span :=
  regionsFrom 0 cs

end ClassBrowser.Source
