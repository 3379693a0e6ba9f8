import ClassBrowser.Export.EntryPath
import ClassBrowser.Files.Edit

/-!
# Export targets

A writer puts classes below a directory, each into a file of its own, or into one zip archive.  It
notes every name that it is given (`claim`) before anything is written and refuses the same name a
second time.  An archive has to be opened first and holds its entries when it is closed; until then
an empty file stands in its place.

The operations also give the file system when they fail, because directories that were made on the
way stay, and so does what got in of a file that was broken off.

## Archives that do not become whole

An entry has a longest name and a longest text (`maxEntryBytes`, `maxEntrySize`).  Of a text that is
too long the head was written before that shows, as of one that the device breaks off; a name that
is too long, or has no encoding, is refused before anything is written.  `ArchiveState.opened` keeps
apart what was given and whether all of it was taken.  An archive that has not taken all of an
entry, or not its own end, is no longer known to be one: what is left of it when it is closed is up
to the device (`closedContent`).  A writer whose archive has not taken its end refuses to write and
need not be closed again (`ArchiveState.spent`).
-/

namespace ClassBrowser.Export

open Text (Loose)

/-! ## What may go wrong -/

inductive ExportError
  | entry (e : EntryError)
  | duplicate (entry : Path)
  | cannotCreate (target : Path) (obstacle : Obstacle) (at_ : Path)
  | cannotWrite (file : Path) (obstacle : Obstacle) (at_ : Path)
  | unfinished (file : Path) (obstacle : Obstacle)
  | oversize
  | unclosed (obstacle : Obstacle)
  | notOpen
  | spent
  | noFormat
  | unencodable (fault : Text.EncodeFault)
  | longEntry
  | file (e : FileError)
deriving DecidableEq, Repr, Inhabited

def maxEntryBytes : Nat := 65535

/-- The longest entry of an archive, in bytes. -/
def maxEntrySize : Nat := 2147483647

def ExportError.message : ExportError → String
  | .entry e => e.message
  | .duplicate p => s!"Duplicate export entry: {p}"
  | .cannotCreate target obstacle p =>
    s!"Unable to create {target}: " ++ (FileError.refused obstacle p).message
  | .cannotWrite path obstacle p =>
    s!"Unable to write {path}: " ++ (FileError.refused obstacle p).message
  | .unfinished path obstacle => s!"Unable to write {path}: {obstacle.message}"
  | .oversize => "File size too large, try using force_zip64"
  | .unclosed obstacle => obstacle.message
  | .notOpen => "Archive writer is not open."
  | .spent => "Attempt to use ZIP archive that was already closed"
  | .noFormat => ""
  | .unencodable fault => fault.message
  | .longEntry => s!"ushort format requires 0 <= number <= {maxEntryBytes}"
  | .file e => e.message

/-! ## Targets -/

/-- How far an archive has come: it is not open, it was given some entries and is `whole` if it has
taken them all, or it has not taken its end. -/
inductive ArchiveState
  | closed
  | opened (given : List (String × ByteArray)) (whole : Bool)
  | spent
deriving Inhabited

/-- How classes are kept: not at all, as files below a directory, or as the entries of an archive.
-/
inductive Format
  | none
  | directory
  | archive (state : ArchiveState)
deriving Inhabited

/-- An export target and the names it has been given. -/
structure Writer where
  format : Format
  target : Path
  delimiter : Loose
  extension : Loose
  claimed : List String
deriving Inhabited

def createFault (target : Path) : FileError → ExportError
  | .refused obstacle p => .cannotCreate target obstacle p
  | e => .file e

def writeFault (file : Path) : FileError → ExportError
  | .refused obstacle p => .cannotWrite file obstacle p
  | .brokenOff obstacle => .unfinished file obstacle
  | e => .file e

namespace Writer

/-! ## Opening and closing -/

def forDirectory (target : Path) (delimiter extension : Loose) : Writer :=
  ⟨.directory, target, delimiter, extension, []⟩

def forArchive (target : Path) (delimiter extension : Loose) : Writer :=
  ⟨.archive .closed, target, delimiter, extension, []⟩

/-- Makes the target: the directory, or the archive's file with its directory. -/
def openTarget (w : Writer) (fs : Files) : Files × Except ExportError Writer :=
  match w.format with
  | .none => (fs, .ok w)
  | .directory => match fs.makeDirectories w.target with
    | (fs, .ok _) => (fs, .ok w)
    | (fs, .error e) => (fs, .error (createFault w.target e))
  | .archive _ => match fs.makeDirectories w.target.parent with
    | (fs, .error e) => (fs, .error (createFault w.target e))
    | (fs, .ok _) => match fs.replace w.target .empty with
      | .ok fs => (fs, .ok { w with format := .archive (.opened [] true) })
      | .error e => (fs, .error (createFault w.target e))

def closedContent (device : Device) (place : Place) (given : List (String × ByteArray))
    (whole : Bool) : Content :=
  if whole && (device.closeFault? place given).isNone then .archive given
  else device.remains place given

/-- Completes an open archive, if it takes its end. -/
def close (w : Writer) (fs : Files) : Files × Writer × Option ExportError :=
  match w.format with
  | .archive (.opened given whole) =>
    let place := w.target.place
    let fs := fs.put w.target (closedContent fs.device place given whole)
    match fs.device.closeFault? place given with
    | none => (fs, { w with format := .archive .closed }, none)
    | some obstacle => (fs, { w with format := .archive .spent }, some (.unclosed obstacle))
  | .archive .spent => (fs, { w with format := .archive .closed }, none)
  | _ => (fs, w, none)

/-! ## Writing -/

/-- Notes a name that was not given before, and gives its path. -/
def claim (w : Writer) (name : String) : Except ExportError (Path × Writer) :=
  match entryPath w.delimiter w.extension name with
  | .error e => .error (.entry e)
  | .ok entry =>
    if w.claimed.contains name then .error (.duplicate entry)
    else .ok (entry, { w with claimed := name :: w.claimed })

def writeFile (fs : Files) (file : Path) (data : ByteArray) : Files × Option FileError :=
  match fs.makeDirectories file.parent with
  | (fs, .error e) => (fs, some e)
  | (fs, .ok _) => fs.write file data

/-- The name under which an archive keeps an entry.  It must have an encoding, of which the
archive's format limits the length. -/
def storedName (entry : Path) : Except ExportError String :=
  let name := entryName entry.toLoose
  match name.encodeFault? with
  | some fault => .error (.unencodable fault)
  | none => if maxEntryBytes < name.byteSize then .error .longEntry else .ok name.text

/-- Whether an archive takes the last of the entries that it was given; the entry's text has so many
bytes. -/
def entryError? (device : Device) (target entry : Path) (given : List (String × ByteArray))
    (size : Nat) : Option ExportError :=
  match device.entryFault? target.place given with
  | some obstacle => some (.unfinished entry obstacle)
  | none => if maxEntrySize < size then some .oversize else none

/-- Gives an open archive one more entry; gives its name. -/
def addEntry (w : Writer) (device : Device) (given : List (String × ByteArray)) (whole : Bool)
    (entry : Path) (data : ByteArray) : Writer × Except ExportError String :=
  match storedName entry with
  | .error e => (w, .error e)
  | .ok stored =>
    let given := given ++ [(stored, data)]
    match entryError? device w.target entry given data.size with
    | none => ({ w with format := .archive (.opened given whole) }, .ok entry.toText)
    | some e => ({ w with format := .archive (.opened given false) }, .error e)

/-- Writes a class; gives the path of its file, or the name of its entry. -/
def write (w : Writer) (fs : Files) (name text : String) :
    Files × Writer × Except ExportError String :=
  match w.format with
  | .none => (fs, w, .error .noFormat)
  | .directory => match w.claim name with
    | .error e => (fs, w, .error e)
    | .ok (entry, w) =>
      let file := w.target.append entry
      match writeFile fs file text.toUTF8 with
      | (fs, none) => (fs, w, .ok file.toText)
      | (fs, some e) => (fs, w, .error (writeFault file e))
  | .archive .closed => (fs, w, .error .notOpen)
  | .archive (.opened given whole) => match w.claim name with
    | .error e => (fs, w, .error e)
    | .ok (entry, w) => (fs, w.addEntry fs.device given whole entry text.toUTF8)
  | .archive .spent => match w.claim name with
    | .error e => (fs, w, .error e)
    | .ok (_, w) => (fs, w, .error .spent)

def writeAll (w : Writer) (fs : Files) :
    List (String × String) → Files × Writer × Except ExportError (List String)
  | [] => (fs, w, .ok [])
  | (name, text) :: rest => match w.write fs name text with
    | (fs, w, .error e) => (fs, w, .error e)
    | (fs, w, .ok shown) => match w.writeAll fs rest with
      | (fs, w, .error e) => (fs, w, .error e)
      | (fs, w, .ok more) => (fs, w, .ok (shown :: more))

/-- Opens the target, writes several classes and closes the target, also after a failure.  If the
target cannot be closed, that is the failure. -/
def session (w : Writer) (fs : Files) (entries : List (String × String)) :
    Files × Writer × Except ExportError (List String) :=
  match w.openTarget fs with
  | (fs, .error e) => (fs, w, .error e)
  | (fs, .ok w) =>
    let (fs, w, result) := w.writeAll fs entries
    let (fs, w, fault) := w.close fs
    (fs, w, match fault with | some e => .error e | none => result)

end Writer

end ClassBrowser.Export
