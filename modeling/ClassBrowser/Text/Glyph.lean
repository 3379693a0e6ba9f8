import ClassBrowser.Text.Quoted

/-!
# Texts with half characters

A text that is written with escaped code units may hold one half of a pair that belongs together
without the other.  Such a half is no character, so these texts are lists of glyphs: characters and
halves.  Quoted, a half is written by its code unit (`quotedGlyphs`); as a plain text it is shown by
the replacement character (`Glyph.text`).
-/

namespace ClassBrowser.Text

/-- A character, or one half of a pair of code units. -/
inductive Glyph
  | char (c : Char)
  | half (unit : Nat)
deriving DecidableEq, Repr, Inhabited

def Glyph.shown : Glyph → Char
  | .char c => c
  | .half _ => '\uFFFD'

def Glyph.text (gs : List Glyph) : String := String.ofList (gs.map Glyph.shown)

def escapeGlyph (quote : Char) : Glyph → List Char
  | .char c => escapeChar quote c
  | .half unit => '\x5c' :: 'u' :: hexDigits 4 unit

def quotedGlyphs (gs : List Glyph) : List Char :=
  let quote := quoteFor (gs.map Glyph.shown)
  quote :: gs.flatMap (escapeGlyph quote) ++ [quote]

/-- Without halves the glyphs are quoted as the text is. -/
theorem quotedGlyphs_map_char (cs : List Char) :
    quotedGlyphs (cs.map Glyph.char) = quotedChars cs := by
  have h : (Glyph.shown ∘ Glyph.char) = id := rfl
  simp [quotedGlyphs, quotedChars, h, List.flatMap_map, escapeGlyph]

end ClassBrowser.Text
