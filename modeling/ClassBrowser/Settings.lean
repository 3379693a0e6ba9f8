import ClassBrowser.Files.Basic
import ClassBrowser.Given
import ClassBrowser.Json.Parser
import ClassBrowser.QualifiedName
import ClassBrowser.Text.Blank
import ClassBrowser.Text.Lines
import ClassBrowser.Text.Utf8

/-!
# Settings

What the program can be told: where the decompiler and its runtime lie, the options that are handed
on to it, how class names are divided and files named, and how often the window looks for news.
`Settings.load` starts from the defaults, then takes a JSON file and at last the environment.

## Faults

Some faults are reported to the user as faults of the settings (`SettingsError.isReported`): a file
that is not there, a text that is not JSON, a field of the wrong type.  The others come from reading
the file or resolving a path and are passed on as they are.  Fields that nothing is known of are
left aside.

## Options

Options keep the order in which their keys were given first, because that is the order in which the
decompiler is given them.  What a file tells replaces the defaults key by key, and what the command
line tells replaces the file's in the same way (`withOptions`).
-/

namespace ClassBrowser

open Text (Loose)

/-! ## Settings and what may be wrong with them -/

structure Settings where
  engineJar : Option (Given Path)
  java : Option (Given Path)
  engineOptions : Assoc Loose Loose
  extension : Loose
  delimiter : Loose
  pollInterval : Nat
deriving DecidableEq, Repr, Inhabited

inductive SettingsError
  | notFound (file : Path)
  | invalidJson (file : Path) (text : List Char) (problem : Json.Problem) (position : Nat)
  | notAnObject (file : Path)
  | notText (file : Path) (key : String)
  | optionsNotAnObject (file : Path)
  | emptyText (file : Path) (key : String)
  | badInterval (file : Path)
  | badOption (value : String)
  | readerLimit (text : List Char) (e : Json.ParseError)
  | undecodable (fault : Text.Utf8.Fault)
  | file (e : FileError)
  | path (e : PathError)
  | lack (l : Lack)
deriving DecidableEq, Inhabited

namespace SettingsError

def message : SettingsError → String
  | .notFound p => s!"Config file not found: {p}"
  | .invalidJson p text problem position =>
    s!"Invalid JSON in {p}: " ++
      Json.ParseError.message text (.malformed problem position)
  | .notAnObject p => s!"{p}: top-level value must be an object"
  | .notText p key => s!"{p}: {key} must be a string"
  | .optionsNotAnObject p => s!"{p}: engine_options must be an object"
  | .emptyText p key => s!"{p}: {key} must be a non-empty string"
  | .badInterval p => s!"{p}: poll_interval_ms must be a positive integer"
  | .badOption value => s!"Engine option must use key=value syntax: {value}"
  | .readerLimit text e => e.message text
  | .undecodable fault => fault.message
  | .file e => e.message
  | .path e => e.message
  | .lack l => l.message

/-- Whether the error is reported as a fault of the settings. -/
def isReported : SettingsError → Bool
  | .readerLimit _ _ | .undecodable _ | .file _ | .path _ | .lack _ => false
  | _ => true

end SettingsError

namespace Settings

def defaultOptions : Assoc Loose Loose :=
  [("ind", "   "), ("din", "1"), ("dgs", "1"), ("hes", "1"), ("hdc", "1")]

def defaultExtension : String := ".java"

def default : Settings :=
  ⟨none, none, defaultOptions, defaultExtension, QualifiedName.defaultDelimiter, 150⟩

def withOptions (s : Settings) (overrides : Assoc String String) : Settings :=
  { s with
    engineOptions := s.engineOptions.insertAll (overrides.map fun (key, text) => (key, text)) }

/-! ## Options -/

/-- The key and the value of an option written as `key=value`; blanks around the key and dashes in
front of it do not count. -/
def parseOption (value : String) : Except SettingsError (String × String) :=
  match value.toList.dropWhile (· != '=') with
  | [] => .error (.badOption value)
  | _ :: after =>
    let key := (Text.stripChars (value.toList.takeWhile (· != '='))).dropWhile (· == '-')
    if key.isEmpty then .error (.badOption value)
    else .ok (String.ofList key, String.ofList after)

def addOption (options : Assoc String String) (value : String) :
    Except SettingsError (Assoc String String) := do
  let (key, text) ← parseOption value
  return options.insert key text

/-- The options of a list of texts `key=value`; of a repeated key the last value counts. -/
def parseOptions (values : List String) : Except SettingsError (Assoc String String) :=
  values.foldlM addOption []

/-- The options that are given; where nothing is given there is nothing to cut at the equals
sign. -/
def givenOptions (values : List (Given String)) : Except SettingsError (Assoc String String) :=
  values.foldlM (fun options given => do
    addOption options (← (given.get (.ability "partition")).mapError .lack)) []

/-! ## The settings file -/

def readFile (fs : Files) (file : Path) : Except SettingsError Json.Value :=
  match fs.read file with
  | .error (.refused .notFound _) => .error (.notFound file)
  | .error e => .error (.file e)
  | .ok bytes => match Text.Utf8.decode bytes with
    | .error fault => .error (.undecodable fault)
    | .ok s =>
      let text := Text.unifyNewlineChars s.toList
      match Json.parse text with
      | .ok v => .ok v
      | .error (.malformed problem position) => .error (.invalidJson file text problem position)
      | .error e => .error (.readerLimit text e)

def field? (fields : Json.Fields) (key : String) : Option Json.Value :=
  (fields.find? fun f => Text.Glyph.text f.1 == key).map Prod.snd

/-- Takes a path from a field; it is seen from the directory of the file. -/
def pathField (env : Environment) (file : Path) (fields : Json.Fields) (key : String) :
    Except SettingsError (Option Path) := do
  match field? fields key with
  | none => return none
  | some (.text value) =>
    let below ← ((Path.ofLoose (.ofGlyphs value)).expandUser env).mapError .path
    let resolved ← ((file.parent.append below).resolve Files.cwd).mapError .path
    return some resolved
  | some _ => throw (.notText file key)

/-- Takes a text that may not be empty from a field. -/
def textField (file : Path) (fields : Json.Fields) (key : String) (fallback : Loose) :
    Except SettingsError Loose :=
  match field? fields key with
  | none => .ok fallback
  | some (.text []) => .error (.emptyText file key)
  | some (.text value) => .ok (.ofGlyphs value)
  | some _ => .error (.emptyText file key)

/-- Takes the options from their field: the defaults, and then what the file gives. -/
def optionsField (file : Path) (fields : Json.Fields) :
    Except SettingsError (Assoc Loose Loose) :=
  match field? fields "engine_options" with
  | none => .ok defaultOptions
  | some (.object options) =>
    .ok (defaultOptions.insertAll
      (options.map fun (key, value) => (Loose.ofGlyphs key, value.toLoose)))
  | some _ => .error (.optionsNotAnObject file)

def intervalField (file : Path) (fields : Json.Fields) : Except SettingsError Nat :=
  match field? fields "poll_interval_ms" with
  | none => .ok default.pollInterval
  | some (.int n) => if 0 < n then .ok n.toNat else .error (.badInterval file)
  | some _ => .error (.badInterval file)

def ofFile (fs : Files) (env : Environment) (file : Path) : Except SettingsError Settings := do
  match ← readFile fs file with
  | .object fields =>
    let engineJar ← pathField env file fields "engine_jar"
    let java ← pathField env file fields "java"
    let options ← optionsField file fields
    let extension ← textField file fields "extension" default.extension
    let delimiter ← textField file fields "delimiter" default.delimiter
    let interval ← intervalField file fields
    return ⟨engineJar.map .value, java.map .value, options, extension, delimiter, interval⟩
  | _ => throw (.notAnObject file)

/-! ## The environment -/

/-- The value of a variable, unless it is empty. -/
def given? (env : Environment) (key : String) : Option String :=
  (env.get? key).bind fun value => if value.isEmpty then none else some value

/-- The settings from the environment on top of others. -/
def withEnvironment (fs : Files) (env : Environment) (s : Settings) :
    Except SettingsError Settings := do
  let engineJar ← match given? env "DECOMP_VIEWER_ENGINE_JAR" with
    | none => pure s.engineJar
    | some value => do
      let jar ← ((Path.ofString value).expandUser env).mapError .path
      pure (some (.value jar))
  let java ← match s.java, given? env "JAVA_HOME" with
    | none, some home => do
      let candidate := ((Path.ofString home).child "bin").child "java"
      let found ← (fs.isFile candidate).mapError .file
      pure (if found then some (.value candidate) else none)
    | java, _ => pure java
  return { s with engineJar, java }

/-- The settings of a file, which the environment may name, and of the environment. -/
def load (fs : Files) (env : Environment) (file : Option Path) :
    Except SettingsError Settings := do
  let file := file.orElse fun _ => (given? env "DECOMP_VIEWER_CONFIG").map Path.ofString
  let s ← match file with
    | none => pure default
    | some file => do
      let file ← (file.expandUser env).mapError .path
      ofFile fs env file
  s.withEnvironment fs env

end Settings

end ClassBrowser
