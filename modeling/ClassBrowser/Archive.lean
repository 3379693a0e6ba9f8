import ClassBrowser.Files.Basic

/-!
# Class archives

An archive is a zip file with one of the usual suffixes.  Its class members are the files that end
in `.class`, and the class name of a member is its path without that suffix.  A class is an inner
class if its last segment holds a dollar sign.

A file may pass for an archive and yet be damaged, as a whole or in some of its entries.  The faults
that are expected then become errors of the archive that they are met in (`ArchiveError.ofReading`,
`ArchiveError.ofListing`); the others are left as they are.

Two properties of zip archives show in the definitions.  A name may be listed several times, and
whoever asks for it by its name is given the last (`lastEntry?`).  And an entry may have an empty
name; whether that is a directory cannot be asked, because the answer is read off the last character
of the name (`filesWithSuffix`).
-/

namespace ClassBrowser

/-- Why an archive, or something in it, cannot be read. -/
inductive ArchiveError
  | notFound (archive : Path)
  | unsupported
  | notZip (archive : Path)
  | noEntry (member : String)
  | cannotRead (archive : Path) (obstacle : Obstacle) (at_ : Path)
  | cannotReadZip (archive : Path) (fault : ZipFault)
  | cannotList (archive : Path) (obstacle : Obstacle) (at_ : Path)
  | cannotListZip (archive : Path) (fault : ZipFault)
  | zip (fault : ZipFault)
  | namelessEntry
  | file (e : FileError)
  | path (e : PathError)
deriving DecidableEq, Repr, Inhabited

namespace ArchiveError

def message : ArchiveError → String
  | .notFound archive => s!"Archive not found: {archive}"
  | .unsupported => "Unsupported archive extension. Expected .jar, .zip, .war, or .ear files."
  | .notZip archive => s!"Not a valid zip archive: {archive}"
  | .noEntry member => s!"Entry not found: {member}"
  | .cannotRead archive obstacle p =>
    s!"Unable to read {archive}: " ++ (FileError.refused obstacle p).message
  | .cannotReadZip archive fault => s!"Unable to read {archive}: {fault.text}"
  | .cannotList archive obstacle p =>
    s!"Unable to list {archive}: " ++ (FileError.refused obstacle p).message
  | .cannotListZip archive fault => s!"Unable to list {archive}: {fault.text}"
  | .zip fault => fault.text
  | .namelessEntry => "string index out of range"
  | .file e => e.message
  | .path e => e.message

/-- Whether the error is reported as a fault of the archive.  The others are passed on as they are:
those of resolving a path, an entry without a name, and faults that nobody is prepared for. -/
def isReported : ArchiveError → Bool
  | .zip _ | .namelessEntry | .file _ | .path _ => false
  | _ => true

/-- What a fault that is met while an archive is read is made into. -/
def ofReading (archive : Path) (fault : ZipFault) : ArchiveError :=
  if fault.isExpected then .cannotReadZip archive fault else .zip fault

def ofListing (archive : Path) (fault : ZipFault) : ArchiveError :=
  if fault.isExpected then .cannotListZip archive fault else .zip fault

end ArchiveError

namespace Archive

def suffixes : List String := [".jar", ".zip", ".war", ".ear"]

def classSuffix : String := ".class"

/-- Checks that a path leads to an archive; gives its absolute path. -/
def validate (fs : Files) (env : Environment) (archive : Path) : Except ArchiveError Path := do
  let archive ← (archive.expandUser env).mapError .path
  let archive ← (archive.resolve Files.cwd).mapError .path
  if !(← (fs.isFile archive).mapError .file) then throw (.notFound archive)
  if !suffixes.contains archive.suffix.toLower then throw .unsupported
  if ← (fs.isZip archive).mapError .zip then return archive else throw (.notZip archive)

/-- Whether an entry is a directory: its name ends in a slash. -/
def isDirectoryEntry (name : String) : Bool := name.toList.getLast? == some '/'

def hasSuffix (suffix name : String) : Bool := (Text.dropEnding? suffix name).isSome

/-- The files among the entries that end in a suffix, in the order of the archive.  Of an entry
without a name it cannot be told whether it is a file. -/
def filesWithSuffix (suffix : String) (entries : Entries) : Except ArchiveError (List String) :=
  let names := entries.map Prod.fst
  if names.contains "" then .error .namelessEntry
  else .ok (names.filter fun name => !isDirectoryEntry name && hasSuffix suffix name)

/-- The class members of an archive, in the order of the archive. -/
def classMembers (fs : Files) (archive : Path) : Except ArchiveError (List String) :=
  match fs.openZip archive with
  | .ok (.ok entries) => filesWithSuffix classSuffix entries
  | .ok (.error fault) => .error (.ofListing archive fault)
  | .error (.refused obstacle p) => .error (.cannotList archive obstacle p)
  | .error e => .error (.file e)

def readFile (fs : Files) (file : Path) : Except ArchiveError ByteArray :=
  match fs.read file with
  | .ok data => .ok data
  | .error (.refused obstacle p) => .error (.cannotRead file obstacle p)
  | .error e => .error (.file e)

def lastEntry? (entries : Entries) (name : String) : Option (Except ZipFault ByteArray) :=
  (entries.reverse.find? fun e => e.1 == name).map Prod.snd

/-- The bytes of a member; where a name is repeated, those of the last entry. -/
def readMember (fs : Files) (archive : Path) (member : String) : Except ArchiveError ByteArray :=
  match fs.openZip archive with
  | .ok (.ok entries) => match lastEntry? entries member with
    | some data => data.mapError (.ofReading archive)
    | none => .error (.noEntry member)
  | .ok (.error fault) => .error (.ofReading archive fault)
  | .error (.refused obstacle p) => .error (.cannotRead archive obstacle p)
  | .error e => .error (.file e)

/-- The bytes of an archive itself or of one of its members. -/
def read (fs : Files) (archive : Path) : (member : Option String) → Except ArchiveError ByteArray
  | none => readFile fs archive
  | some member => readMember fs archive member

def className (member : String) : String :=
  let normalized := Text.replaceChar '\x5c' "/" member
  (Text.dropEnding? classSuffix normalized).getD normalized

/-- Whether a member is an inner or anonymous class. -/
def isInner (member : String) : Bool :=
  ((Text.splitAt '/' (className member)).getLastD "").toList.contains '$'

end Archive

end ClassBrowser
