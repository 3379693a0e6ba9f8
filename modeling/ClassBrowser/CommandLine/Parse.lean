import ClassBrowser.CommandLine.Word
import ClassBrowser.Text.Quoted

/-!
# Reading a command line

The switches in front of the sub-command are read first, then the sub-command reads the words behind
it.  Switches and operands may be mixed.  Values are converted as soon as they are met: the first
fault, from the left, is the one that is reported.

## How words are read

The words were told apart before (`classify`): those that are switches, those that are not, and the
two dashes behind which there are only operands.  `readWords` goes from switch to switch; the
operands before a switch are matched with those that the sub-command still lacks, as many as there
are words for (`readOperands`).  Words for which there is no operand are kept and complained of when
all the rest is in order, and what is missing is complained of before that.

## Fuel

Reading a sub-command may take several words at once or, where short switches stand in one word, one
word several times, so `readWords` is given the number of steps that can occur at most.
-/

namespace ClassBrowser.CommandLine

/-! ## Values -/

inductive Refusal
  | text (text : String)
  | path (e : PathError)
  | file (e : FileError)
deriving DecidableEq, Repr, Inhabited

/-- A refusal of the argument that messages name so. -/
def Refusal.toStop (command : Option Subcommand) (argument : String) : Refusal → Stop
  | .text t => .usage command s!"argument {argument}: {t}"
  | .path e => .path e
  | .file e => .file e

/-- The absolute path that a value stands for; `type` is what messages call such values. -/
def toPath (env : Environment) (type value : String) : Except Refusal Path :=
  let resolved := do
    let p ← (Path.ofString value).expandUser env
    p.resolve Files.cwd
  match resolved with
  | .ok p => .ok p
  | .error (.name _) => .error (.text s!"invalid {type} value: {Text.quoted value}")
  | .error e => .error (.path e)

def pathType : String := "_path"

def fileType : String := "_existing_file"

/-- The absolute path of a file that is there. -/
def toFile (fs : Files) (env : Environment) (value : String) : Except Refusal Path := do
  let p ← toPath env fileType value
  match fs.isFile p with
  | .ok true => return p
  | .ok false => throw (.text s!"File not found: {p}")
  | .error e => throw (.file e)

def excludedBy (s : Switch) : Refusal := .text s!"not allowed with argument {s.name}"

/-! ## What was read -/

/-- What has been read so far. -/
structure Draft where
  verbose : Bool
  logFile : Option (Given Path)
  archive : Option Path
  className : Option (Given String)
  engine : EngineChoice
  includeInner : Bool
  color : Bool
  target : Option Target
  quiet : Bool
deriving Inhabited

namespace Draft

def empty : Draft :=
  ⟨false, none, none, none, ⟨none, none, none, []⟩, false, false, none, false⟩

/-- Takes over a switch; nothing is given to one that takes no value. -/
def take (d : Draft) (fs : Files) (env : Environment) (s : Switch) (given : Given String) :
    Except Refusal Draft :=
  let path := given.convert (toPath env pathType)
  match s with
  | .verbose => .ok { d with verbose := true }
  | .logFile => do return { d with logFile := some (← path) }
  | .config => do return { d with engine.config := some (← given.convert (toFile fs env)) }
  | .engineJar => do return { d with engine.jar := some (← path) }
  | .java => do return { d with engine.java := some (← path) }
  | .option => .ok { d with engine.options := d.engine.options ++ [given] }
  | .includeInner => .ok { d with includeInner := true }
  | .color => .ok { d with color := true }
  | .output => do
    let p ← path
    match d.target with
    | some (.zip _) => throw (excludedBy .zip)
    | _ => return { d with target := some (.directory p) }
  | .zip => do
    let p ← path
    match d.target with
    | some (.directory _) => throw (excludedBy .output)
    | _ => return { d with target := some (.zip p) }
  | .quiet => .ok { d with quiet := true }
  | .help | .version => .ok d

/-- Takes over an operand.  The one for the archive comes first, and there is always something given
for it. -/
def takeOperand (d : Draft) (fs : Files) (env : Environment) (o : Operand)
    (given : Given String) : Except Refusal Draft :=
  match o, given with
  | .archive _, .value value => do return { d with archive := some (← toFile fs env value) }
  | .archive _, .nothing => .ok d
  | .className, given => .ok { d with className := some given }

def holds (d : Draft) : Operand → Bool
  | .archive _ => d.archive.isSome
  | .className => d.className.isSome

def lacking (d : Draft) (c : Subcommand) : String :=
  let missing := c.operands.filter fun o => o.isRequired && !d.holds o
  "the following arguments are required: " ++ ", ".intercalate (missing.map Operand.name)

def noTarget : String :=
  s!"one of the arguments {Switch.output.name} {Switch.zip.name} is required"

/-- The command that has been read, or what is missing. -/
def toCommand (d : Draft) (c : Subcommand) : Except String Command :=
  match c, d.archive with
  | .gui, archive => .ok (.gui d.engine archive)
  | _, none => .error (d.lacking c)
  | .list, some archive => .ok (.list archive d.includeInner)
  | .tree, some archive => .ok (.tree d.engine archive)
  | .showClass, some archive => match d.className with
    | none => .error (d.lacking c)
    | some name => .ok (.showClass d.engine archive name d.color)
  | .decompile, some archive => match d.target with
    | none => .error noTarget
    | some target => .ok (.decompile d.engine archive target d.quiet)

end Draft

/-! ## Switches -/

abbrev Words := List (String × Word)

/-- What is left of a value that is attached to a switch which takes none: a short switch may be
repeated without its dash. -/
def excess (flag value : String) : String :=
  match flag.toList with
  | ['-', c] => String.ofList (value.toList.dropWhile (· == c))
  | _ => value

/-- What is given for a switch, and the words behind it.  A switch that takes a value has it
attached or in the next word, which may not be a switch; another may have none attached. -/
def valueOf (s : Switch) (flag : String) (attached : Option String) (rest : Words) :
    Except Refusal (Given String × Words) :=
  match s.takesValue, attached, rest with
  | true, some value, _ => .ok (.ofWord value, rest)
  | true, none, (value, .plain) :: rest => .ok (.ofWord value, rest)
  | true, none, _ => .error (.text "expected one argument")
  | false, none, _ => .ok (.nothing, rest)
  | false, some value, _ =>
    let left := excess flag value
    if left.isEmpty && !value.isEmpty then .ok (.nothing, rest)
    else .error (.text s!"ignored explicit argument {Text.quoted left}")

def readSwitch (command : Option Subcommand) (fs : Files) (env : Environment) (d : Draft)
    (s : Switch) (flag : String) (attached : Option String) (rest : Words) :
    Except Stop (Draft × Words) := do
  let (given, rest) ← (valueOf s flag attached rest).mapError (·.toStop command s.name)
  match s with
  | .help => throw .help
  | .version => throw .version
  | _ =>
    let d ← (d.take fs env s given).mapError (·.toStop command s.name)
    return (d, rest)

/-! ## Operands -/

def dropSeparator : Words → Words
  | (_, .separator) :: rest => rest
  | words => words

/-- What is given for an operand, if it is there, and the words behind it.  Right behind the
separator two dashes are a value like any other. -/
def operandOf : Words → Option (Given String) × Words
  | (_, .separator) :: (value, .plain) :: rest => (some (.value value), rest)
  | (value, .plain) :: rest => (some (.ofWord value), rest)
  | words => (none, dropSeparator words)

/-- Reads as many operands as there are words for; gives the operands and words that are left. -/
def readOperands (command : Subcommand) (fs : Files) (env : Environment) :
    List Operand → Words → Draft → Except Stop (Draft × List Operand × Words)
  | [], words, d => .ok (d, [], words)
  | o :: operands, words, d =>
    match operandOf words with
    | (some given, rest) => do
      let d ← (d.takeOperand fs env o given).mapError (·.toStop (some command) o.name)
      readOperands command fs env operands (dropSeparator rest) d
    | (none, rest) =>
      if o.isRequired then .ok (d, o :: operands, words)
      else readOperands command fs env operands rest d

def isOperandWord : Word → Bool
  | .plain | .separator => true
  | _ => false

/-! ## Sub-commands -/

/-- What was read of a sub-command: what it says, the operands that are missing, and the words that
nothing is known of. -/
structure Reader where
  draft : Draft
  operands : List Operand
  unknown : List String
deriving Inhabited

/-- Reads the words of a sub-command, at most `fuel` times one of them or several. -/
def readWords (command : Subcommand) (fs : Files) (env : Environment) :
    (fuel : Nat) → Words → Reader → Except Stop Reader
  | 0, _, r => .ok r
  | _ + 1, [], r => do
    let (draft, operands, _) ← readOperands command fs env r.operands [] r.draft
    return { r with draft, operands }
  | fuel + 1, (word, .unknown) :: rest, r =>
    readWords command fs env fuel rest { r with unknown := r.unknown ++ [word] }
  | fuel + 1, (_, .switch s flag attached) :: rest, r => do
    let (draft, rest) ← readSwitch (some command) fs env r.draft s flag attached rest
    readWords command fs env fuel rest { r with draft }
  | fuel + 1, words, r => do
    let (draft, operands, rest) ← readOperands command fs env r.operands words r.draft
    if rest.length < words.length then
      readWords command fs env fuel rest { r with draft, operands }
    else
      let extra := (words.takeWhile fun w => isOperandWord w.2).map Prod.fst
      readWords command fs env fuel (words.dropWhile fun w => isOperandWord w.2)
        { r with unknown := r.unknown ++ extra }

/-- Reads the words behind a sub-command; also gives those that nothing is known of. -/
def readSubcommand (command : Subcommand) (fs : Files) (env : Environment) (d : Draft)
    (words : List String) : Except Stop (Invocation × List String) := do
  let words ← (classifyAll (flagsOf command.switches) words).mapError (.usage (some command))
  let r ← readWords command fs env (words.length + 1) words ⟨d, command.operands, []⟩
  let c ← (r.draft.toCommand command).mapError (.usage (some command))
  return (⟨r.draft.verbose, r.draft.logFile, c⟩, r.unknown)

/-! ## The whole command line -/

def invalidCommand (word : String) : Stop :=
  .usage none (s!"argument command: invalid choice: {Text.quoted word} (choose from " ++
    ", ".intercalate (Subcommand.all.map fun c => Text.quoted c.name) ++ ")")

def noCommand : Stop := .usage none "the following arguments are required: command"

/-- Reads the words in front of the sub-command, at most `fuel` of them, and the sub-command. -/
def readMain (fs : Files) (env : Environment) :
    (fuel : Nat) → Words → Draft → (unknown : List String) →
      Except Stop (Invocation × List String)
  | 0, _, _, _ | _ + 1, [], _, _ => .error noCommand
  | fuel + 1, (word, .unknown) :: rest, d, unknown =>
    readMain fs env fuel rest d (unknown ++ [word])
  | fuel + 1, (_, .switch s flag attached) :: rest, d, unknown => do
    let (d, rest) ← readSwitch none fs env d s flag attached rest
    readMain fs env fuel rest d unknown
  | fuel + 1, [(word, .separator)], d, unknown => readMain fs env fuel [] d (unknown ++ [word])
  | _ + 1, (word, _) :: rest, d, unknown =>
    match Subcommand.ofName? word with
    | none => .error (invalidCommand word)
    | some command => do
      let (i, more) ← readSubcommand command fs env d (rest.map Prod.fst)
      return (i, unknown ++ more)

/-- What a command line says; without any words it asks for the window. -/
def parse (fs : Files) (env : Environment) (arguments : List String) : Except Stop Invocation := do
  let arguments := if arguments.isEmpty then [Subcommand.gui.name] else arguments
  let words ← (classifyAll (flagsOf mainSwitches) arguments).mapError (.usage none)
  let (i, unknown) ← readMain fs env (words.length + 1) words .empty []
  if unknown.isEmpty then return i
  else throw (.usage none ("unrecognized arguments: " ++ " ".intercalate unknown))

end ClassBrowser.CommandLine
