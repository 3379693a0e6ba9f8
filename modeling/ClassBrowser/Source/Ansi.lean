import ClassBrowser.Source.Region

/-!
# Coloured text for terminals

Spans are shown on a terminal by escape sequences: keywords bold and magenta, strings blue, comments
italic and green.  Every styled span is closed by a reset of its own; plain text is written as it
is.
-/

namespace ClassBrowser.Source

def ansiSequence (parameters : String) : String :=
  "\x1b[" ++ parameters ++ "m"

def ansiReset : String := ansiSequence "0"

/-- The sequence that begins the style of a kind of span, if it has one. -/
def Kind.ansiStyle : Kind → Option String
  | .keyword => some (ansiSequence "1;35")
  | .string => some (ansiSequence "34")
  | .lineComment => some (ansiSequence "3;32")
  | .blockComment => some (ansiSequence "3;32")
  | .default => none

def Span.toAnsi (s : Span) : String :=
  match s.kind.ansiStyle with
  | some style => style ++ String.ofList s.text ++ ansiReset
  | none => String.ofList s.text

def renderAnsi (spans : List Span) : String :=
  String.join (spans.map Span.toAnsi)

end ClassBrowser.Source
