import ClassBrowser.Log
import ClassBrowser.Text.Blank
import ClassBrowser.Text.Lines
import ClassBrowser.Text.Split

/-!
# What the decompiler prints

The lines that the external decompiler prints are passed to the log, and when it fails its messages
are found among them.  Case does not matter, and neither do blanks around a line.  The marks that
are looked for are made of letters which no other character becomes in lower case, so it is enough
to lower ASCII letters.
-/

namespace ClassBrowser.Engine

def errorMark : List Char := "error:".toList

def warningMark : List Char := "warn:".toList

/-- The mark, anywhere in a line, of a thrown exception. -/
def exceptionMark : List Char := "exception".toList

/-- A line without the blanks around it, in lower case. -/
def lowered (line : String) : List Char := (Text.stripChars line.toList).map Char.toLower

def beginsWith (mark : List Char) (line : String) : Bool :=
  (Text.dropStart? mark (lowered line)).isSome

/-- The log record of a line; an empty line has none. -/
def lineRecord? (line : String) : Option Log.Record :=
  let cleaned := Text.strip line
  if beginsWith errorMark line then some ⟨.error, .engine, cleaned⟩
  else if beginsWith warningMark line then some ⟨.warning, .engine, cleaned⟩
  else if cleaned.isEmpty then none
  else some ⟨.debug, .engine, cleaned⟩

def outputRecords (output : String) : List Log.Record := (Text.lines output).filterMap lineRecord?

def isFailureLine (line : String) : Bool :=
  beginsWith errorMark line || Text.occurs exceptionMark (lowered line)

/-- The lines that tell of a failure, without the blanks around them. -/
def failureLines (output : String) : List String :=
  ((Text.lines output).filter isFailureLine).map Text.strip

end ClassBrowser.Engine
