import ClassBrowser.Path
import ClassBrowser.Proofs.Text.Pieces
import Mathlib.Data.List.TakeWhile

/-!
# Loose texts by their glyphs

A loose text is determined by its glyphs (`glyphs_injective`), whether it is whole or torn, and one
text behind another has the glyphs of both (`glyphs_append`).  The pieces of a text are cut at the
slashes among its glyphs (`pieces_eq`).  A text without a slash is one component of a path, and
components that hold none can be told from the text in which slashes stand between them
(`joined_injective`).
-/

namespace ClassBrowser

theorem Text.utf8ByteSize_replicate (n : Nat) (c : Char) :
    (String.ofList (List.replicate n c)).utf8ByteSize = n * c.utf8Size := by
  induction n with
  | zero => simp
  | succ n ih =>
    calc
      (String.ofList (List.replicate (n + 1) c)).utf8ByteSize =
          c.utf8Size + (String.ofList (List.replicate n c)).utf8ByteSize := by
        rw [List.replicate_succ, String.ofList_cons, String.utf8ByteSize_append,
          String.utf8ByteSize_singleton]
      _ = c.utf8Size + n * c.utf8Size := by rw [ih]
      _ = (n + 1) * c.utf8Size := by rw [Nat.succ_mul, Nat.add_comm]

namespace Text.Loose

theorem toList_glyphText {gs : List Glyph} (h : ¬ gs.any Glyph.isHalf = true) :
    (Glyph.text gs).toList.map Glyph.char = gs := by
  rw [Glyph.text, String.toList_ofList, List.map_map]
  refine (List.map_congr_left ?_).trans (List.map_id gs)
  intro g hg
  cases g with
  | char c => rfl
  | half unit => exact absurd (List.any_eq_true.2 ⟨_, hg, rfl⟩) h

@[simp] theorem glyphs_whole (s : String) : (whole s).glyphs = s.toList.map Glyph.char := rfl

@[simp] theorem glyphs_ofGlyphs (gs : List Glyph) : (ofGlyphs gs).glyphs = gs := by
  unfold ofGlyphs
  split
  · rfl
  · next h => exact toList_glyphText h

theorem glyphs_injective {s t : Loose} (h : s.glyphs = t.glyphs) : s = t := by
  rw [← ofGlyphs_glyphs s, h, ofGlyphs_glyphs]

@[simp] theorem glyphs_append (s t : Loose) : (s ++ t).glyphs = s.glyphs ++ t.glyphs := by
  cases s with
  | whole s => cases t with
    | whole t =>
      show (s ++ t).toList.map Glyph.char = _
      rw [String.toList_append, List.map_append]
      rfl
    | torn gs h => exact glyphs_ofGlyphs _
  | torn gs h => exact glyphs_ofGlyphs _

theorem splitGlyphs_of_not_mem {g : Glyph} {gs : List Glyph} (h : g ∉ gs) :
    splitGlyphs (· == g) gs = [gs] := by
  induction gs with
  | nil => rfl
  | cons first rest ih =>
    obtain ⟨hfirst, hrest⟩ := List.ne_and_not_mem_of_not_mem_cons h
    rw [splitGlyphs, ih hrest]
    simp [Ne.symm hfirst]

/-- A text without a NUL is all that stands before the first one. -/
theorem beforeNull_of_not_mem {s : Loose} (h : .char '\x00' ∉ s.glyphs) : s.beforeNull = s := by
  cases s with
  | whole s =>
    have hall : s.toList.takeWhile (· != '\x00') = s.toList := by
      rw [List.takeWhile_eq_self_iff]
      intro c hc
      simpa using fun hnull : c = '\x00' => h (List.mem_map.2 ⟨c, hc, hnull ▸ rfl⟩)
    rw [beforeNull, hall, String.ofList_toList]
  | torn gs isTorn =>
    have hall : gs.takeWhile (· != .char '\x00') = gs := by
      rw [List.takeWhile_eq_self_iff]
      intro g hg
      simpa using fun hnull : g = .char '\x00' => h (hnull ▸ hg)
    rw [beforeNull, hall]
    exact ofGlyphs_glyphs (.torn gs isTorn)

end Text.Loose

/-! ## Pieces -/

namespace Text

theorem splitGlyphs_ne_nil (isMark : Glyph → Bool) (gs : List Glyph) :
    splitGlyphs isMark gs ≠ [] := by
  cases gs with
  | nil => exact List.cons_ne_nil _ _
  | cons g rest =>
    rw [splitGlyphs]
    split
    · exact List.cons_ne_nil _ _
    · split <;> exact List.cons_ne_nil _ _

/-- What stands in front of the first mark becomes part of the first piece. -/
theorem splitGlyphs_append {g : Glyph} {gs : List Glyph} (h : g ∉ gs) (hs : List Glyph) :
    splitGlyphs (· == g) (gs ++ hs) = (splitGlyphs (· == g) hs).modifyHead (gs ++ ·) := by
  induction gs with
  | nil => exact (congrFun List.modifyHead_id _).symm
  | cons first rest ih =>
    obtain ⟨hfirst, hrest⟩ := List.ne_and_not_mem_of_not_mem_cons h
    rw [List.cons_append, splitGlyphs, ih hrest]
    cases hpieces : splitGlyphs (· == g) hs with
    | nil => exact absurd hpieces (splitGlyphs_ne_nil _ hs)
    | cons piece pieces => simp [Ne.symm hfirst]

/-- Characters and their glyphs are cut at the same places. -/
theorem map_splitFrom (d : Char) (piece cs : List Char) :
    (splitFrom d [] piece cs).map (List.map Glyph.char) =
      (splitGlyphs (· == .char d) (cs.map Glyph.char)).modifyHead
        (piece.reverse.map Glyph.char ++ ·) := by
  induction cs generalizing piece with
  | nil => simp [splitFrom, splitGlyphs]
  | cons c rest ih =>
    rw [List.map_cons, splitGlyphs]
    cases hpieces : splitGlyphs (· == .char d) (rest.map Glyph.char) with
    | nil => exact absurd hpieces (splitGlyphs_ne_nil _ _)
    | cons first others =>
      by_cases hc : c = d
      · subst hc
        have hrest := ih []
        rw [hpieces] at hrest
        have hfound := @splitFrom_cons_of_found c [] piece rest
        rw [List.singleton_append] at hfound
        rw [hfound, List.map_cons, hrest]
        simp
      · have habsent : ¬ [d] <+: c :: rest := by
          rintro ⟨r, hr⟩
          exact hc (List.cons.inj hr).1.symm
        rw [splitFrom_cons_of_absent piece habsent, ih, hpieces]
        simp [hc]

end Text

namespace Text.Loose

/-- The pieces of a text are those of its glyphs. -/
theorem pieces_eq (s : Loose) :
    s.pieces = (splitGlyphs (· == .char '/') s.glyphs).map ofGlyphs := by
  cases s with
  | torn gs h => rfl
  | whole s =>
    have hchars := map_splitFrom '/' [] s.toList
    have hpieces : splitGlyphs (· == .char '/') (s.toList.map Glyph.char) =
        (splitChars '/' [] s.toList).map (List.map Glyph.char) := by
      rw [splitChars, hchars]
      cases splitGlyphs (· == .char '/') (s.toList.map Glyph.char) <;> rfl
    have hwhole (cs : List Char) :
        whole (String.ofList cs) = ofGlyphs (cs.map Glyph.char) := by
      have h := ofGlyphs_glyphs (whole (String.ofList cs))
      rw [glyphs_whole, String.toList_ofList] at h
      exact h.symm
    calc
      (whole s).pieces = (splitChars '/' [] s.toList).map fun cs => whole (String.ofList cs) := by
        rw [pieces, splitAt, List.map_map]
        rfl
      _ = (splitChars '/' [] s.toList).map fun cs => ofGlyphs (cs.map Glyph.char) :=
        List.map_congr_left fun cs _ => hwhole cs
      _ = ((splitChars '/' [] s.toList).map (List.map Glyph.char)).map ofGlyphs := by
        rw [List.map_map]
        rfl
      _ = (splitGlyphs (· == .char '/') (whole s).glyphs).map ofGlyphs := by
        rw [glyphs_whole, hpieces]

/-- What stands in front of the first slash becomes part of the first piece. -/
theorem pieces_append {s t : Loose} (h : .char '/' ∉ s.glyphs) :
    (s ++ t).pieces = t.pieces.modifyHead (s ++ ·) := by
  rw [pieces_eq, pieces_eq, glyphs_append, splitGlyphs_append h]
  cases splitGlyphs (· == .char '/') t.glyphs with
  | nil => rfl
  | cons piece pieces =>
    have hfirst : ofGlyphs (s.glyphs ++ piece) = s ++ ofGlyphs piece :=
      glyphs_injective (by simp)
    exact congrArg (· :: pieces.map ofGlyphs) hfirst

end Text.Loose

open Text (Glyph Loose)

/-- A text without a slash that is neither empty nor a dot is one component. -/
theorem Path.components_of_not_mem {s : Loose} (hslash : .char '/' ∉ s.glyphs)
    (hempty : s.glyphs ≠ []) (hdot : s ≠ .whole ".") : components s = [s] := by
  have hpieces : s.pieces = [s] := by
    rw [Loose.pieces_eq, Loose.splitGlyphs_of_not_mem hslash, List.map_singleton,
      Loose.ofGlyphs_glyphs]
  have hnonempty : s.isEmpty = false := by
    cases s with
    | whole s => simpa [Loose.glyphs, Loose.isEmpty] using hempty
    | torn gs h => rfl
  have hkept : (s != .whole ".") = true := by
    simpa using hdot
  rw [components, hpieces, List.filter_singleton, hnonempty, hkept]
  rfl

namespace Path

variable {parts parts' : List Loose}

/-- Whole components make a whole text. -/
theorem exists_joined_map_whole (names : List String) :
    ∃ s : String, joined (names.map Loose.whole) = .whole s := by
  have hrest (rest : List String) (first : String) : ∃ s : String,
      (rest.map Loose.whole).foldl (fun (s : Loose) part => s ++ "/" ++ part) (.whole first) =
        .whole s := by
    induction rest generalizing first with
    | nil => exact ⟨first, rfl⟩
    | cons name rest ih => exact ih (first ++ "/" ++ name)
  cases names with
  | nil => exact ⟨"", rfl⟩
  | cons first rest => exact hrest rest first

/-- Joined components have the glyphs of all, with slashes between them. -/
theorem glyphs_joined (parts : List Loose) :
    (joined parts).glyphs = [Glyph.char '/'].intercalate (parts.map Loose.glyphs) := by
  cases parts with
  | nil => rfl
  | cons part rest =>
    rw [joined]
    induction rest generalizing part with
    | nil => simp
    | cons next rest ih =>
      rw [List.foldl_cons, ih]
      cases rest <;> simp

/-- Components without slashes can be told from what they are joined to. -/
theorem joined_injective (hparts : ∀ part ∈ parts, .char '/' ∉ part.glyphs)
    (hparts' : ∀ part ∈ parts', .char '/' ∉ part.glyphs) (hne : parts ≠ []) (hne' : parts' ≠ [])
    (h : joined parts = joined parts') : parts = parts' := by
  have hglyphs : [Glyph.char '/'].intercalate (parts.map Loose.glyphs) =
      [Glyph.char '/'].intercalate (parts'.map Loose.glyphs) := by
    rw [← glyphs_joined, ← glyphs_joined, h]
  have hsplit : ∀ ps : List Loose, (∀ part ∈ ps, .char '/' ∉ part.glyphs) → ps ≠ [] →
      ([Glyph.char '/'].intercalate (ps.map Loose.glyphs)).splitOn (.char '/') =
        ps.map Loose.glyphs := by
    intro ps hps hne
    refine List.splitOn_intercalate _ ?_ (by simpa using hne)
    rintro _ hl
    obtain ⟨part, hpart, rfl⟩ := List.mem_map.1 hl
    exact hps part hpart
  have hmap : parts.map Loose.glyphs = parts'.map Loose.glyphs := by
    rw [← hsplit parts hparts hne, hglyphs, hsplit parts' hparts' hne']
  exact List.map_injective_iff.2 (fun _ _ => Loose.glyphs_injective) hmap

theorem joined_cons {part : Loose} (h : parts ≠ []) :
    joined (part :: parts) = part ++ "/" ++ joined parts := by
  obtain ⟨next, rest, rfl⟩ := List.exists_cons_of_ne_nil h
  apply Loose.glyphs_injective
  calc
    (joined (part :: next :: rest)).glyphs =
        part.glyphs ++ [.char '/'] ++
          [Glyph.char '/'].intercalate ((next :: rest).map Loose.glyphs) := by
      rw [glyphs_joined, List.map_cons, List.map_cons, List.intercalate_cons_cons]
    _ = (part ++ "/" ++ joined (next :: rest)).glyphs := by
      rw [Loose.glyphs_append, Loose.glyphs_append, glyphs_joined]
      rfl

theorem mem_glyphs_joined_of_mem {part : Loose} (hpart : part ∈ parts) {g : Glyph}
    (hg : g ∈ part.glyphs) : g ∈ (joined parts).glyphs := by
  induction parts with
  | nil => cases hpart
  | cons first rest ih =>
    by_cases hrest : rest = []
    · subst hrest
      obtain rfl := List.mem_singleton.1 hpart
      exact hg
    · rw [joined_cons hrest, Loose.glyphs_append, Loose.glyphs_append, List.mem_append,
        List.mem_append]
      obtain rfl | hmem := List.mem_cons.1 hpart
      · exact .inl (.inl hg)
      · exact .inr (ih hmem)

theorem mem_glyphs_joined {g : Glyph} (h : g ∈ (joined parts).glyphs) :
    g = .char '/' ∨ ∃ part ∈ parts, g ∈ part.glyphs := by
  rw [glyphs_joined] at h
  induction parts with
  | nil => cases h
  | cons part rest ih =>
    have hpart : g ∈ part.glyphs → ∃ q ∈ part :: rest, g ∈ q.glyphs := fun hg =>
      ⟨part, List.mem_cons_self, hg⟩
    cases rest with
    | nil => exact .inr (hpart (by simpa using h))
    | cons next rest =>
      rw [List.map_cons, List.map_cons, List.intercalate_cons_cons, List.append_assoc,
        List.mem_append, List.mem_append, ← List.map_cons] at h
      rcases h with hg | hg | hg
      · exact .inr (hpart hg)
      · exact .inl (List.mem_singleton.1 hg)
      · rcases ih hg with hslash | ⟨q, hq, hgq⟩
        · exact .inl hslash
        · exact .inr ⟨q, List.mem_cons_of_mem _ hq, hgq⟩

end Path

end ClassBrowser
