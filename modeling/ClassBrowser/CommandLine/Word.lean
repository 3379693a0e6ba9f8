import ClassBrowser.CommandLine.Arguments
import ClassBrowser.Text.Digit
import ClassBrowser.Text.Split

/-!
# The words of a command line

Every word is a switch, perhaps with a value behind an equals sign, or an operand.  A long switch
may be cut short as long as only one switch begins so.  Two dashes alone end the switches; a word
that looks like a negative number, or that no switch matches and that holds a space, is an operand.
-/

namespace ClassBrowser.CommandLine

/-- What a word is.  The value that is attached to a switch stands behind an equals sign or directly
behind a short switch. -/
inductive Word
  | plain
  | separator
  | switch (s : Switch) (flag : String) (attached : Option String)
  | unknown
deriving DecidableEq, Repr, Inhabited

def flagsOf (switches : List Switch) : List (String × Switch) :=
  switches.flatMap fun s => s.flags.map fun flag => (flag, s)

def cutAtEquals (word : String) : String × Option String :=
  (String.ofList (word.toList.takeWhile (· != '=')),
    match word.toList.dropWhile (· != '=') with
    | [] => none
    | _ :: value => some (String.ofList value))

def startsWith (start s : String) : Bool := (Text.dropStart? start.toList s.toList).isSome

/-- A way to read a word as a switch. -/
structure Reading where
  switch : Switch
  flag : String
  attached : Option String
deriving DecidableEq, Repr, Inhabited

def longReadings (flags : List (String × Switch)) (word : String) : List Reading :=
  let (start, value) := cutAtEquals word
  flags.filterMap fun (flag, s) =>
    if startsWith start flag then some ⟨s, flag, value⟩ else none

def shortReadings (flags : List (String × Switch)) (word : String) : List Reading :=
  let short := String.ofList (word.toList.take 2)
  flags.filterMap fun (flag, s) =>
    if flag == short then some ⟨s, flag, some (String.ofList (word.toList.drop 2))⟩
    else if startsWith word flag then some ⟨s, flag, none⟩
    else none

/-- The ways to read a word of at least two characters that begins with a dash. -/
def readings (flags : List (String × Switch)) (word : String) : List Reading :=
  if startsWith "--" word then longReadings flags word else shortReadings flags word

def withoutLineFeed (cs : List Char) : List Char :=
  if cs.getLast? = some '\n' then cs.dropLast else cs

/-- Whether a word looks like a negative number, be it on a line of its own. -/
def isNegativeNumber (word : String) : Bool :=
  match withoutLineFeed word.toList with
  | '-' :: digits =>
    let whole := digits.takeWhile Text.isDecimalDigit
    match digits.dropWhile Text.isDecimalDigit with
    | [] => !whole.isEmpty
    | '.' :: fraction => !fraction.isEmpty && fraction.all Text.isDecimalDigit
    | _ => false
  | _ => false

/-- What a word is, or what is wrong with it. -/
def classify (flags : List (String × Switch)) (word : String) : Except String Word :=
  if !startsWith "-" word || word == "-" then .ok .plain
  else match flags.find? (·.1 == word), cutAtEquals word with
    | some (flag, s), _ => .ok (.switch s flag none)
    | none, (start, value) =>
      match value, flags.find? (·.1 == start) with
      | some value, some (flag, s) => .ok (.switch s flag (some value))
      | _, _ => match readings flags word with
        | [r] => .ok (.switch r.switch r.flag r.attached)
        | [] =>
          if isNegativeNumber word || word.toList.contains ' ' then .ok .plain
          else .ok .unknown
        | several => .error (s!"ambiguous option: {word} could match " ++
            ", ".intercalate (several.map Reading.flag))

/-- What the words of a command line are; behind two dashes there are only operands. -/
def classifyAll (flags : List (String × Switch)) :
    List String → Except String (List (String × Word))
  | [] => .ok []
  | word :: rest =>
    if word == "--" then .ok ((word, .separator) :: rest.map fun word => (word, .plain))
    else do
      let w ← classify flags word
      return (word, w) :: (← classifyAll flags rest)

end ClassBrowser.CommandLine
