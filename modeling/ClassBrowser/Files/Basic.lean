import ClassBrowser.Path

/-!
# The file tree

What stands at the places of a file system: directories, files, zip archives and programs that play
an external tool.  A place is the list of the components that lead to it from the root.  Only an
archive's entries count, never its bytes: an archive that is still being written shows as an empty
file until it is closed.  Beside its content, a file has or has not the right to be executed.

`Files.locate` finds the place that a path leads to and says what stands in the way.

## Archives

A zip archive is the list of its entries in the order of its directory, names repeated or not.  Of
each entry the data are known, or else the fault that whoever reads it meets (`Entries`).  An
archive that cannot be opened at all is `Content.damaged`: it may still pass for an archive when it
is only asked whether it is one.  Which faults are expected is the same everywhere
(`ZipFault.isExpected`); what is made of the others is up to those who read.

## The device

Nothing is written without the `Device` that the file system lies on.  It is told beforehand where
it refuses to make something, how much of a file gets in, and which archives do not take an entry or
their end.  So the same writes on the same files always end the same way, and theorems that promise
success name what they need of the device.  Whatever the program makes for itself, such as the
directory for the decompiler's files and the lines of the log, is not kept back.

## What is left out

There are no links, so that one place has one path without two dots; there are no owners, times or
other rights than that to execute; and no two programs work on the same files.
-/

namespace ClassBrowser

open Text (Loose NameFault)

/-- The components that lead from the root to a place. -/
abbrev Place := List Loose

/-! ## Contents -/

/-- Why an archive cannot be opened, or an entry of it cannot be read: it is broken, the system
refuses, or anything else, of which the kind is told.  Of the last sort are entries that are
encrypted, and those that are packed in a way which is not known or not kept to. -/
inductive ZipFault
  | broken (text : String)
  | system (text : String)
  | other (kind text : String)
deriving DecidableEq, Repr, Inhabited

namespace ZipFault

def text : ZipFault → String
  | .broken text | .system text | .other _ text => text

def kind : ZipFault → String
  | .broken _ => "BadZipFile"
  | .system _ => "OSError"
  | .other kind _ => kind

/-- The wording of a fault, or its kind where there is none. -/
def reason (fault : ZipFault) : String := if fault.text.isEmpty then fault.kind else fault.text

/-- Whether those who read archives are prepared for a fault. -/
def isExpected : ZipFault → Bool
  | .broken _ | .system _ => true
  | .other _ _ => false

def notZip : ZipFault := .broken "File is not a zip file"

/-- The one fault of an archive that shows already when it is asked whether a file is one. -/
def spansDisks : ZipFault := .broken "zipfiles that span multiple disks are not supported"

end ZipFault

/-- The entries of a zip archive in their order, each with its data or with what keeps them from
being read. -/
abbrev Entries := List (String × Except ZipFault ByteArray)

def Entries.sound (entries : List (String × ByteArray)) : Entries :=
  entries.map fun (name, data) => (name, .ok data)

/-- What a file holds: bytes, the entries of a zip archive, or something that passes for a zip
archive and yet cannot be opened. -/
inductive Content
  | bytes (data : ByteArray)
  | zip (entries : Entries)
  | damaged (fault : ZipFault)
deriving Inhabited

namespace Content

def archive (entries : List (String × ByteArray)) : Content := .zip (.sound entries)

def opened : Content → Except ZipFault Entries
  | .bytes _ => .error .notZip
  | .zip entries => .ok entries
  | .damaged fault => .error fault

def passesForZip : Content → Except ZipFault Bool
  | .bytes _ => .ok false
  | .zip _ => .ok true
  | .damaged fault => if fault = .spansDisks then .error fault else .ok true

end Content

/-- The name that an archive keeps of an entry: it ends before a NUL. -/
def entryName (name : Loose) : Loose := name.beforeNull

/-- A file that a program makes, or a directory where there is no content.  It is told by the names
that lead there; they are texts, for a class is known by a text. -/
structure Output where
  names : List String
  content : Option Content
deriving Inhabited

/-- One run of a program: what it prints, how it ends, and what it makes below the directory that
its last argument names. -/
structure Run where
  stdout : ByteArray
  stderr : ByteArray
  exitCode : Int
  outputs : List Output
  showsOptions : Bool
deriving Inhabited

/-- What stands at a place.  The program plays its runs one after the other and then repeats the
last. -/
inductive Node
  | directory
  | file (content : Content) (executable : Bool)
  | program (runs : List Run) (played : Nat)
deriving Inhabited

inductive Obstacle
  | notFound
  | longArguments
  | notProgram
  | permission
  | exists
  | notDirectory
  | isDirectory
  | nameTooLong
  | tooManyLevels
  | ioError
  | fileTooLarge
  | noSpace
  | readOnly
  | quotaExceeded
deriving DecidableEq, Repr, Inhabited

def Obstacle.number : Obstacle → Nat
  | .notFound => 2
  | .longArguments => 7
  | .notProgram => 8
  | .permission => 13
  | .exists => 17
  | .notDirectory => 20
  | .isDirectory => 21
  | .nameTooLong => 36
  | .tooManyLevels => 40
  | .ioError => 5
  | .fileTooLarge => 27
  | .noSpace => 28
  | .readOnly => 30
  | .quotaExceeded => 122

def Obstacle.text : Obstacle → String
  | .notFound => "No such file or directory"
  | .longArguments => "Argument list too long"
  | .notProgram => "Exec format error"
  | .permission => "Permission denied"
  | .exists => "File exists"
  | .notDirectory => "Not a directory"
  | .isDirectory => "Is a directory"
  | .nameTooLong => "File name too long"
  | .tooManyLevels => "Too many levels of symbolic links"
  | .ioError => "Input/output error"
  | .fileTooLarge => "File too large"
  | .noSpace => "No space left on device"
  | .readOnly => "Read-only file system"
  | .quotaExceeded => "Disk quota exceeded"

def Obstacle.message (obstacle : Obstacle) : String := s!"[Errno {obstacle.number}] {obstacle.text}"

/-- Why a file operation fails: the system refuses it, or breaks off a file that is being written,
the path is no name and never reaches the system, or too many directories are missing. -/
inductive FileError
  | refused (obstacle : Obstacle) (path : Path)
  | brokenOff (obstacle : Obstacle)
  | name (fault : NameFault)
  | tooDeep
deriving DecidableEq, Repr, Inhabited

def FileError.message : FileError → String
  | .refused obstacle path => obstacle.message ++ ": " ++ path.toLoose.quoted
  | .brokenOff obstacle => obstacle.message
  | .name fault => fault.message
  | .tooDeep => "maximum recursion depth exceeded while calling a Python object"

/-! ## What the device takes -/

/-- What becomes of requests to write.  At a place it may be refused to open a file or to make a
directory (`refusal?`), and only so many bytes of a file may get in (`fileFault?`).  An archive that
was given some entries may not take the last of them (`entryFault?`), or not its own end when it is
closed (`closeFault?`); of one that has not become whole there is left what `remains` says. -/
structure Device where
  refusal? : Place → Option Obstacle
  fileFault? : Place → ByteArray → Option (Obstacle × Nat)
  entryFault? : Place → List (String × ByteArray) → Option Obstacle
  closeFault? : Place → List (String × ByteArray) → Option Obstacle
  remains : Place → List (String × ByteArray) → Content
deriving Inhabited

namespace Device

def roomy : Device :=
  ⟨fun _ => none, fun _ _ => none, fun _ _ => none, fun _ _ => none, fun _ _ => .bytes .empty⟩

/-- As much of a file as gets in, and what keeps the rest out. -/
def take (d : Device) (place : Place) (data : ByteArray) : ByteArray × Option Obstacle :=
  match d.fileFault? place data with
  | none => (data, none)
  | some (obstacle, size) => (data.extract 0 size, some obstacle)

end Device

/-! ## The tree -/

/-- A file system: what stands at each place, and what it takes. -/
structure Files where
  nodes : Assoc Place Node
  device : Device
deriving Inhabited

def Files.cwd : Path := ⟨.root, ["W"]⟩

/-- The place that a path leads to, if it leads anywhere. -/
def Path.place (p : Path) : Place :=
  p.parts.foldl Path.step (if p.anchor = .relative then Files.cwd.parts else [])

namespace Files

/-- The file system that holds the root and the working directory. -/
def empty : Files := ⟨[([], .directory), (cwd.parts, .directory)], .roomy⟩

def node? (fs : Files) (place : Place) : Option Node := fs.nodes.get? place

def set (fs : Files) (place : Place) (node : Node) : Files :=
  { fs with nodes := fs.nodes.insert place node }

def removeTree (fs : Files) (place : Place) : Files :=
  { fs with nodes := fs.nodes.filter fun (at_, _) => !place.isPrefixOf at_ }

/-- The longest component, in bytes. -/
def maxNameBytes : Nat := 255

/-- The longest path, in bytes, as it is written: what lies above the working directory does not
count. -/
def maxPathBytes : Nat := 4095

/-- Goes on from the directory `above`; `p` is the path that errors name. -/
def walk (fs : Files) (p : Path) (above : Place) : List Loose → Except FileError Place
  | [] => .ok above
  | part :: rest =>
    match fs.node? above with
    | none => .error (.refused .notFound p)
    | some .directory =>
      if maxNameBytes < part.byteSize then .error (.refused .nameTooLong p)
      else walk fs p (Path.step above part) rest
    | some _ => .error (.refused .notDirectory p)

/-- The place that a path leads to.  Something may or may not stand there; everything before it must
be a directory.  A path that is too long is refused before anything is looked at. -/
def locate (fs : Files) (p : Path) : Except FileError Place :=
  match p.toLoose.nameFault? with
  | some fault => .error (.name fault)
  | none =>
    if maxPathBytes < p.toLoose.byteSize then .error (.refused .nameTooLong p)
    else walk fs p (if p.anchor = .relative then cwd.parts else []) p.parts

def get (fs : Files) (p : Path) : Except FileError Node := do
  match fs.node? (← fs.locate p) with
  | some node => .ok node
  | none => .error (.refused .notFound p)

/-- What stands where a path leads, if anything does; only what is too long is an error. -/
def look (fs : Files) (p : Path) : Except FileError (Option Node) :=
  match fs.get p with
  | .ok node => .ok (some node)
  | .error (.refused .nameTooLong _) => .error (.refused .nameTooLong p)
  | .error _ => .ok none

def isFile (fs : Files) (p : Path) : Except FileError Bool := do
  match ← fs.look p with
  | some (.file _ _) | some (.program _ _) => return true
  | _ => return false

def read (fs : Files) (p : Path) : Except FileError ByteArray := do
  match ← fs.get p with
  | .directory => .error (.refused .isDirectory p)
  | .file (.bytes data) _ => return data
  | .file _ _ | .program _ _ => return .empty

/-- What the file where a path leads comes to when it is opened as a zip archive. -/
def openZip (fs : Files) (p : Path) : Except FileError (Except ZipFault Entries) := do
  match ← fs.get p with
  | .directory => .error (.refused .isDirectory p)
  | .file content _ => return content.opened
  | .program _ _ => return .error .notZip

/-- Whether the file where a path leads passes for a zip archive. -/
def isZip (fs : Files) (p : Path) : Except ZipFault Bool :=
  match fs.get p with
  | .ok (.file content _) => content.passesForZip
  | _ => .ok false

/-- The order of places: the first component that differs decides. -/
def comesBefore : Place → Place → Bool
  | [], _ => true
  | _ :: _, [] => false
  | a :: p, b :: q => if a = b then comesBefore p q else decide (a.text < b.text)

/-- What stands below a place, sorted by the components that lead there. -/
def below (fs : Files) (place : Place) : List (Place × Node) :=
  (fs.nodes.filter fun (at_, _) => place.isPrefixOf at_ && at_ != place).mergeSort
    fun a b => comesBefore a.1 b.1

/-- The path of a place as seen from the working directory, if it lies in there. -/
def shownPath (place : Place) : String :=
  if cwd.parts.isPrefixOf place then
    (Path.mk .relative (place.drop cwd.parts.length)).toText
  else (Path.mk .root place).toText

/-- What stands at a place and below it, with paths: the place itself comes first, the rest sorted
by path; `none` if nothing stands there. -/
def listing (fs : Files) (place : Place) : Option (List (String × Node)) :=
  (fs.node? place).map fun node =>
    (shownPath place, node) ::
      ((fs.below place).map fun (at_, node) => (shownPath at_, node)).mergeSort
        fun a b => decide (a.1 ≤ b.1)

end Files

end ClassBrowser
