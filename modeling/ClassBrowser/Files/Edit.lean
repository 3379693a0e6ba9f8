import ClassBrowser.Files.Basic

/-!
# Changes to the file tree

Making directories and writing files.  A file keeps the right to be executed when it is written
again; a directory is made together with those above it, the highest missing one first, and what was
made before an obstacle was met stays.

A file that is written takes the place of the one before as soon as it is opened.  If the device
breaks it off, a first part of what was to be written stands there (`Files.write`); nothing is put
back.  `Files.put` and `Files.append` are for what the program writes on its own account, an
archive's end and the lines of a log, where it is not the file tree that fails.

The number of directories that may be missing is bounded (`maxMissing`), because a call is made
inside another for each of them, and so is the nesting of JSON values.  Where else calls are nested
for each level, through packages, their outline and the items of a window, no bound is part of the
library: hierarchies are taken to be of moderate depth.
-/

namespace ClassBrowser.Files

def makeAt (fs : Files) (p : Path) (place : Place) : Files × Except FileError Place :=
  match fs.node? place with
  | none => match fs.device.refusal? place with
    | none => (fs.set place .directory, .ok place)
    | some obstacle => (fs, .error (.refused obstacle p))
  | some .directory => (fs, .ok place)
  | some _ => (fs, .error (.refused .exists p))

/-- Makes sure that there is a directory where a path leads, which lies in the directory `above`. -/
def makeIn (fs : Files) (p : Path) (above : Place) : Files × Except FileError Place :=
  if maxNameBytes < p.name.byteSize then (fs, .error (.refused .nameTooLong p))
  else fs.makeAt p (Path.step above p.name)

/-- Makes a directory and, where they are missing, those above it, of which at most `left` may be
missing.  The first one that is there is looked for before anything is made. -/
def makeMissing (fs : Files) (p : Path) (left : Nat) : Files × Except FileError Place :=
  match fs.locate p with
  | .ok place => fs.makeAt p place
  | .error (.refused .notFound q) =>
    if p.parent = p then (fs, .error (.refused .notFound q))
    else match left with
      | 0 => (fs, .error .tooDeep)
      | left + 1 => match makeMissing fs p.parent left with
        | (fs, .ok above) => fs.makeIn p above
        | (fs, .error e) => (fs, .error e)
  | .error e => (fs, .error e)

/-- How many directories may be missing above one that is to be made. -/
def maxMissing : Nat := 986

/-- Makes sure that there is a directory where a path leads, with those above it, and gives its
place.  Directories that were made before an obstacle was met stay. -/
def makeDirectories (fs : Files) (p : Path) : Files × Except FileError Place :=
  fs.makeMissing p maxMissing

def Node.isExecutable : Node → Bool
  | .directory => false
  | .file _ executable => executable
  | .program _ _ => true

/-- Puts a content where a file may stand already; the file keeps the right to be executed. -/
def setContent (fs : Files) (place : Place) (content : Content) : Files :=
  fs.set place (.file content ((fs.node? place).any Node.isExecutable))

/-- Puts bytes in the place of the file where a path leads, if there is one. -/
def replace (fs : Files) (p : Path) (data : ByteArray) : Except FileError Files := do
  let place ← fs.locate p
  match fs.node? place with
  | some .directory => .error (.refused .isDirectory p)
  | _ => match fs.device.refusal? place with
    | none => return fs.setContent place (.bytes data)
    | some obstacle => .error (.refused obstacle p)

/-- Writes a file in the place of the one where a path leads, if there is one.  Where it is broken
off, the file has what was written by then. -/
def write (fs : Files) (p : Path) (data : ByteArray) : Files × Option FileError :=
  let (taken, obstacle?) := fs.device.take p.place data
  match fs.replace p taken with
  | .error e => (fs, some e)
  | .ok fs => (fs, obstacle?.map .brokenOff)

def put (fs : Files) (p : Path) (content : Content) : Files :=
  match fs.locate p with
  | .ok place => fs.setContent place content
  | .error _ => fs

/-- Adds to the end of the file where a path leads; it is made if it is missing.  An archive keeps
its entries, whatever is behind them. -/
def append (fs : Files) (p : Path) (data : ByteArray) : Except FileError Files := do
  let place ← fs.locate p
  match fs.node? place with
  | some .directory => .error (.refused .isDirectory p)
  | some (.file (.bytes old) _) => return fs.setContent place (.bytes (old ++ data))
  | some _ => return fs
  | none => return fs.setContent place (.bytes data)

def above (place : Place) : List Place :=
  (List.range place.length).map fun n => place.take n

/-- Puts something at a place, with directories on the way to it where nothing stands. -/
def plant (fs : Files) (place : Place) (node : Node) : Files :=
  let fs := (above place).foldl
    (fun fs p => if (fs.node? p).isNone then fs.set p .directory else fs) fs
  fs.set place node

end ClassBrowser.Files
