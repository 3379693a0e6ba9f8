import ClassBrowser.Text.Glyph
import ClassBrowser.Text.Split
import ClassBrowser.Text.Utf8

/-!
# Loose texts

A loose text is what settings and file names are made of: a whole text in nearly all cases, else a
torn one, which holds a half of a pair of code units.  `ofGlyphs` tells the two apart, and a text
has one form only (`ofGlyphs_glyphs`).

A torn text has no encoding (`encodeFault?`).  The names of files are less strict: each of 128
halves stands there for one byte that belongs to no character (`Glyph.isByte`), so that every name
the system may hold can be read as a loose text (`ofBytes`) and be handed back.  `nameFault?` says
why a text is not the name of any file.

Class names and texts of classes are whole: the engines report them as such.  Loose texts come from
settings (delimiter, extension, options), from the command line and from the environment.
-/

namespace ClassBrowser.Text

/-! ## Halves -/

def Glyph.isHalf : Glyph → Bool
  | .char _ => false
  | .half _ => true

/-- The code unit of the half that stands for the byte 0. -/
def byteBase : Nat := 0xdc00

/-- Whether a glyph stands for a byte that belongs to no character. -/
def Glyph.isByte : Glyph → Bool
  | .char _ => false
  | .half unit => byteBase + 0x80 ≤ unit && unit ≤ byteBase + 0xff

/-- The number of bytes of a glyph in a name. -/
def Glyph.byteSize : Glyph → Nat
  | .char c => c.utf8Size
  | .half _ => 1

/-! ## Texts and their faults -/

/-- A text that may hold halves. -/
inductive Loose
  | whole (s : String)
  | torn (glyphs : List Glyph) (isTorn : glyphs.any Glyph.isHalf = true)
deriving DecidableEq, Repr

instance : Inhabited Loose := ⟨.whole ""⟩

instance : Coe String Loose := ⟨.whole⟩

/-- Where encoding stops: the first half, its position, and how many halves stand there in a
row. -/
structure EncodeFault where
  unit : Nat
  position : Nat
  length : Nat
deriving DecidableEq, Repr, Inhabited

namespace EncodeFault

def message (f : EncodeFault) : String :=
  if f.length = 1 then
    s!"'utf-8' codec can't encode character '\\u{String.ofList (hexDigits 4 f.unit)}' " ++
      s!"in position {f.position}: surrogates not allowed"
  else
    "'utf-8' codec can't encode characters " ++
      s!"in position {f.position}-{f.position + f.length - 1}: surrogates not allowed"

def shift (n : Nat) (f : EncodeFault) : EncodeFault := { f with position := n + f.position }

end EncodeFault

/-- The first fault of glyphs, from a given position on; halves that stand for bytes may be
allowed. -/
def encodeFaultFrom (bytesAllowed : Bool) (position : Nat) : List Glyph → Option EncodeFault
  | [] => none
  | .char _ :: rest => encodeFaultFrom bytesAllowed (position + 1) rest
  | .half unit :: rest =>
    if bytesAllowed && (Glyph.half unit).isByte then
      encodeFaultFrom bytesAllowed (position + 1) rest
    else some ⟨unit, position, (rest.takeWhile Glyph.isHalf).length + 1⟩

inductive NameFault
  | nullByte
  | unencodable (fault : EncodeFault)
deriving DecidableEq, Repr, Inhabited

namespace NameFault

def message : NameFault → String
  | .nullByte => "embedded null byte"
  | .unencodable fault => fault.message

def shift (n : Nat) : NameFault → NameFault
  | .nullByte => .nullByte
  | .unencodable fault => .unencodable (fault.shift n)

end NameFault

def hasNull (s : String) : Bool := s.toList.contains '\x00'

/-! ## Reading and writing -/

def splitGlyphs (isMark : Glyph → Bool) : List Glyph → List (List Glyph)
  | [] => [[]]
  | g :: rest =>
    match splitGlyphs isMark rest with
    | [] => [[g]]
    | piece :: pieces =>
      if isMark g then [] :: piece :: pieces else (g :: piece) :: pieces

/-- Bytes as glyphs, with a half for every byte that belongs to no character; the first `skip` bytes
belong to what was read before. -/
def glyphsOfBytes (skip : Nat) : List UInt8 → List Glyph
  | [] => []
  | b :: rest =>
    match skip with
    | skip + 1 => glyphsOfBytes skip rest
    | 0 => match Utf8.head b rest with
      | .char value length => .char (Char.ofNat value) :: glyphsOfBytes (length - 1) rest
      | .fault _ _ => .half (byteBase + b.toNat) :: glyphsOfBytes 0 rest

namespace Loose

def ofGlyphs (gs : List Glyph) : Loose :=
  if h : gs.any Glyph.isHalf = true then .torn gs h else .whole (Glyph.text gs)

def glyphs : Loose → List Glyph
  | .whole s => s.toList.map .char
  | .torn gs _ => gs

/-- The text with every half replaced. -/
def text : Loose → String
  | .whole s => s
  | .torn gs _ => Glyph.text gs

instance : ToString Loose := ⟨text⟩

def ofBytes (bytes : List UInt8) : Loose := ofGlyphs (glyphsOfBytes 0 bytes)

def append : Loose → Loose → Loose
  | .whole s, .whole t => .whole (s ++ t)
  | s, t => ofGlyphs (s.glyphs ++ t.glyphs)

instance : Append Loose := ⟨append⟩

def isEmpty : Loose → Bool
  | .whole s => s.isEmpty
  | .torn _ _ => false

def length : Loose → Nat
  | .whole s => s.length
  | .torn gs _ => gs.length

def byteSize : Loose → Nat
  | .whole s => s.utf8ByteSize
  | .torn gs _ => gs.foldl (fun n g => n + g.byteSize) 0

def quoted : Loose → String
  | .whole s => Text.quoted s
  | .torn gs _ => String.ofList (quotedGlyphs gs)

/-- The pieces of a text between slashes. -/
def pieces : Loose → List Loose
  | .whole s => (splitAt '/' s).map .whole
  | .torn gs _ => (splitGlyphs (· == .char '/') gs).map ofGlyphs

/-- What stands before the first NUL. -/
def beforeNull : Loose → Loose
  | .whole s => .whole (String.ofList (s.toList.takeWhile (· != '\x00')))
  | .torn gs _ => ofGlyphs (gs.takeWhile (· != .char '\x00'))

def encodeFault? : Loose → Option EncodeFault
  | .whole _ => none
  | .torn gs _ => encodeFaultFrom false 0 gs

def nameFault? : Loose → Option NameFault
  | .whole s => if hasNull s then some .nullByte else none
  | .torn gs _ =>
    match encodeFaultFrom true 0 gs with
    | some fault => some (.unencodable fault)
    | none => if gs.contains (.char '\x00') then some .nullByte else none

/-! ## One form for each text -/

theorem text_map_char (s : String) : Glyph.text (s.toList.map Glyph.char) = s := by
  have h : (Glyph.shown ∘ Glyph.char) = id := rfl
  simp [Glyph.text, h]

/-- Every text is the text of its glyphs. -/
theorem ofGlyphs_glyphs (s : Loose) : ofGlyphs s.glyphs = s := by
  cases s with
  | whole s =>
    have h : (s.toList.map Glyph.char).any Glyph.isHalf = false := by
      simp [Glyph.isHalf]
    simp [ofGlyphs, glyphs, h, text_map_char]
  | torn gs h => simp [ofGlyphs, glyphs, h]

theorem glyphText_append (gs hs : List Glyph) :
    Glyph.text (gs ++ hs) = Glyph.text gs ++ Glyph.text hs := by
  simp [Glyph.text]

@[simp] theorem text_ofGlyphs (gs : List Glyph) : (ofGlyphs gs).text = Glyph.text gs := by
  unfold ofGlyphs
  split <;> rfl

theorem glyphText_glyphs (s : Loose) : Glyph.text s.glyphs = s.text := by
  rw [← text_ofGlyphs, ofGlyphs_glyphs]

/-- Whole texts are joined as they are. -/
theorem whole_append (s t : String) : Loose.whole s ++ Loose.whole t = .whole (s ++ t) := rfl

@[simp] theorem text_append (s t : Loose) : (s ++ t).text = s.text ++ t.text := by
  cases s with
  | whole s => cases t with
    | whole t => rfl
    | torn gs h =>
      exact (text_ofGlyphs _).trans ((glyphText_append _ _).trans (by rw [glyphText_glyphs,
        glyphText_glyphs]))
  | torn gs h =>
    exact (text_ofGlyphs _).trans ((glyphText_append _ _).trans (by rw [glyphText_glyphs,
      glyphText_glyphs]))

theorem encodeFaultFrom_ne_none (gs : List Glyph) (position : Nat)
    (h : gs.any Glyph.isHalf = true) : encodeFaultFrom false position gs ≠ none := by
  induction gs generalizing position with
  | nil => simp at h
  | cons g rest ih =>
    cases g with
    | char c => exact ih (position + 1) (by simpa [Glyph.isHalf] using h)
    | half unit => simp [encodeFaultFrom]

/-- Whole texts are those that have an encoding. -/
theorem encodeFault?_eq_none_iff (s : Loose) : s.encodeFault? = none ↔ ∃ t, s = .whole t := by
  cases s with
  | whole t => simp [encodeFault?]
  | torn gs h => simpa [encodeFault?] using encodeFaultFrom_ne_none gs 0 h

end Loose

end ClassBrowser.Text
