import ClassBrowser.Session

/-!
# The window

What the window holds and shows: the items of its class tree with the members that the leaves stand
for, the source view, the activity log, the status line, the progress bar, the cursor and the File
menu.  The window works on a session; `handle` is the number of the task whose messages it is
waiting for, and the window is idle when there is none.

The widgets are kept as far as the program sets or asks them: their texts, tags, states and values.
How they are laid out and drawn, and what the keyboard and the mouse do, is the toolkit's own
affair.  A view that is locked drops whatever is inserted into it, as the toolkit does, so that a
forgotten unlocking would show.

Parts of the toolkit may refuse to be configured (`Refusals`); whatever else was meant to happen in
the same attempt is then left out as well.
-/

namespace ClassBrowser

/-- An item of the class tree; items without a parent stand at the top. -/
structure Item where
  id : Nat
  parent : Option Nat
  text : String
deriving DecidableEq, Repr, Inhabited

/-- A progress bar: whether it only shows that something goes on, how far it is and of how much, and
whether it moves by itself. -/
structure ProgressBar where
  indeterminate : Bool
  value : Int
  maximum : Int
  running : Bool
deriving DecidableEq, Repr, Inhabited

def ProgressBar.idle : ProgressBar := ⟨false, 0, 100, false⟩

/-- A view of a text: its characters with their tags, plain ones without, and whether it is locked.
A locked view cannot be changed. -/
structure TextView where
  chars : List (Char × Option Source.Kind)
  locked : Bool
deriving DecidableEq, Repr, Inhabited

/-- A piece of a view; plain text has no tag. -/
structure Piece where
  text : List Char
  tag : Option Source.Kind
deriving DecidableEq, Repr, Inhabited

namespace TextView

def empty : TextView := ⟨[], true⟩

def setLocked (v : TextView) (locked : Bool) : TextView := { v with locked }

/-- Removes all characters, unless the view is locked. -/
def clear (v : TextView) : TextView := if v.locked then v else { v with chars := [] }

/-- Adds a text of one tag at the end, unless the view is locked. -/
def insert (v : TextView) (text : List Char) (tag : Option Source.Kind) : TextView :=
  if v.locked then v else { v with chars := v.chars ++ text.map (·, tag) }

/-- Fills a view in the place of what was in it, and locks it again. -/
def refill (v : TextView) (fill : TextView → TextView) : TextView :=
  (fill (v.setLocked false).clear).setLocked true

/-- Puts a character in front of pieces; neighbours of one tag are in one piece. -/
def joinChar (c : Char × Option Source.Kind) : List Piece → List Piece
  | [] => [⟨[c.1], c.2⟩]
  | p :: rest => if c.2 = p.tag then ⟨c.1 :: p.text, p.tag⟩ :: rest else ⟨[c.1], c.2⟩ :: p :: rest

def pieces (v : TextView) : List Piece := v.chars.foldr joinChar []

end TextView

inductive Dialog
  | openFile (title directory : String) (types : List (String × String))
  | chooseDirectory (title : String)
  | saveFile (title name extension : String) (types : List (String × String))
  | info (title text : String)
  | warning (title text : String)
  | error (title text : String)
deriving DecidableEq, Repr, Inhabited

/-- Which parts of the toolkit refuse to be configured. -/
structure Refusals where
  progress : Bool
  cursor : Bool
  menu : Bool
  tree : Bool
deriving DecidableEq, Repr, Inhabited

def Refusals.none : Refusals := ⟨false, false, false, false⟩

inductive Timer
  | poll
  | openArchive (archive : Path)
deriving DecidableEq, Repr, Inhabited

/-- The window and what it works on; `errors` is what its callbacks could not deal with. -/
structure Window where
  session : Session
  handle : Option Nat
  items : List Item
  nextItem : Nat
  members : Assoc Nat Member
  treeDisabled : Bool
  editor : TextView
  log : String
  status : String
  failed : Bool
  progress : ProgressBar
  cursor : Option String
  menuDisabled : Bool
  lastDirectory : Option Path
  refusals : Refusals
  timers : List (Nat × Timer)
  now : Nat
  dialogs : List Dialog
  errors : List Thrown
  alive : Bool
deriving Inhabited

namespace Window

/-! ## Fixed texts -/

/-- The entries of the File menu; a separator has no label. -/
def menuLabels : List (Option String) :=
  [some "Open archive...", none, some "Save to folder...", some "Save to ZIP...", none, some "Exit"]

/-- The entries of the File menu that are disabled while a task runs. -/
def busyEntries : List Nat := [0, 2, 3]

def statusColour : String := "#0a5c0a"

def errorColour : String := "#a00"

def busyCursor : String := "watch"

def tagStyles : List (Source.Kind × String × Option String) :=
  [(.keyword, "#7f0055", some "bold"), (.string, "#2a00ff", none),
    (.lineComment, "#3f7f5f", some "italic"), (.blockComment, "#3f7f5f", some "italic")]

def tagFont : String × Nat := ("TkFixedFont", 10)

def archiveTypes : List (String × String) :=
  [("Java archives", "*.jar *.war *.ear"), ("Zip archives", "*.zip"), ("All files", "*")]

def zipTypes : List (String × String) := [("Zip archives", "*.zip")]

def failureDetail : String := "<traceback>"

/-! ## Widgets -/

def setStatus (w : Window) (text : String) : Window := { w with status := text, failed := false }

def setError (w : Window) (text : String) : Window := { w with status := text, failed := true }

def note (w : Window) (text : String) : Window := { w with log := w.log ++ text }

def clearLog (w : Window) : Window := { w with log := "" }

def say (w : Window) (d : Dialog) : Window := { w with dialogs := w.dialogs ++ [d] }

/-- Configures the progress bar, unless it refuses. -/
def setProgress (w : Window) (change : ProgressBar → ProgressBar) : Window :=
  if w.refusals.progress then w else { w with progress := change w.progress }

/-- Shows that a task goes on: how far is not known, or nothing is done yet. -/
def startProgress (w : Window) (indeterminate : Bool) : Window :=
  w.setProgress fun p =>
    if indeterminate then { p with indeterminate := true, running := true }
    else { p with indeterminate := false, value := 0, maximum := 100 }

def stopProgress (w : Window) : Window := w.setProgress fun _ => .idle

def showProgress (w : Window) (completed : Nat) (total : Int) : Window :=
  w.setProgress fun _ => ⟨false, completed, total, false⟩

/-- Takes what could disturb a running task away from the user, or gives it back. -/
def setBusy (w : Window) (busy : Bool) : Window :=
  { w with
    cursor := if w.refusals.cursor then w.cursor else some (if busy then busyCursor else "")
    menuDisabled := if w.refusals.menu then w.menuDisabled else busy
    treeDisabled := if w.refusals.tree then w.treeDisabled else busy }

/-- Whether a File menu entry may be chosen; nothing is known of separators. -/
def isEnabled (w : Window) (index : Nat) : Bool := !(w.menuDisabled && busyEntries.contains index)

def menu (w : Window) : List (Option (String × Bool)) :=
  menuLabels.mapIdx fun index label => label.map (·, w.isEnabled index)

def statusLine (w : Window) : String × String :=
  (w.status, if w.failed then errorColour else statusColour)

def after (w : Window) (delay : Nat) (timer : Timer) : Window :=
  { w with timers := w.timers ++ [(w.now + delay, timer)] }

/-! ## The source view -/

/-- The tag of a span: its kind, if there is a style for that. -/
def tagOf (s : Source.Span) : Option Source.Kind :=
  if tagStyles.any fun t => t.1 = s.kind then some s.kind else none

/-- Shows a text in the place of what was shown before: its spans with their tags, if they are
given, and else the plain text. -/
def showText (w : Window) (text : String) (spans : Option (List Source.Span)) : Window :=
  { w with editor := w.editor.refill fun v => match spans with
      | none => v.insert text.toList none
      | some spans => spans.foldl (fun v s => v.insert s.text (tagOf s)) v }

/-! ## The class tree -/

def clearTree (w : Window) : Window := { w with items := [], members := [] }

def insertItem (w : Window) (parent : Option Nat) (text : String) : Window × Nat :=
  ({ w with items := w.items ++ [⟨w.nextItem, parent, text⟩], nextItem := w.nextItem + 1 },
    w.nextItem)

def insertContents (w : Window) (parent : Option Nat) : Contents → Window
  | .nil => w
  | .member m rest =>
    let (w, id) := w.insertItem parent m.display
    insertContents { w with members := w.members.insert id m } parent rest
  | .package segment inner rest =>
    let (w, id) := w.insertItem parent segment
    insertContents (insertContents w (some id) inner) parent rest

def showTree (w : Window) (tree : Package) : Window :=
  w.clearTree.insertContents none tree.contents

def childItems (w : Window) (parent : Option Nat) : List Item :=
  w.items.filter fun i => i.parent = parent

/-- The item that a list of positions leads to; `none` where one of them leads nowhere. -/
def itemAt? (w : Window) (parent : Option Nat) : List Nat → Option (Option Nat)
  | [] => some parent
  | n :: path => (w.childItems parent)[n]?.bind fun i => itemAt? w (some i.id) path

/-! ## The frame -/

/-- What the window is made of, apart from what it shows, and when it looks for news. -/
structure Frame where
  title : String
  minimalSize : Nat × Nat
  tabs : List String
  menuBar : List String
  menu : List (Option String)
  clearLabel : String
  tags : List (String × String × Option (String × Nat × String))
  nextPolls : List Nat
deriving DecidableEq, Repr, Inhabited

/-- The frame of a window; the tags are sorted by their names. -/
def frame (w : Window) : Frame where
  title := "Decompiler Viewer"
  minimalSize := (900, 600)
  tabs := ["Source", "Activity log"]
  menuBar := ["File"]
  menu := menuLabels
  clearLabel := "Clear"
  tags := (tagStyles.mergeSort fun a b => decide (a.1.name ≤ b.1.name)).map
    fun (kind, colour, style) =>
      (kind.name, colour, style.map fun style => (tagFont.1, tagFont.2, style))
  nextPolls := (w.timers.map fun t => t.1 - w.now).mergeSort

end Window

end ClassBrowser
