import ClassBrowser.Proofs.Text.Pieces
import ClassBrowser.QualifiedName

/-!
# Segments of qualified names

The first segments of a name, joined, are a text that has just these segments
(`pieces_join`), whatever the delimiter is.  So a joined prefix says which package it stands for.
The names below one package, sorted, stand together (`pieces_between`).
-/

namespace ClassBrowser.QualifiedName

open Text (Loose)

variable {delimiter : Loose} {name : String} {parts ps qs : List String}

/-- Segments with the delimiter between neighbours. -/
def join (delimiter : Loose) (segments : List String) : String :=
  String.ofList (Text.joinChars delimiter.text.toList (segments.map String.toList))

/-! ## Names and their pieces -/

theorem segments_eq_ok_iff :
    segments delimiter name = .ok parts ↔
      pieces delimiter name = .ok parts ∧ name ≠ "" ∧ "" ∉ parts := by
  unfold segments
  cases pieces delimiter name with
  | error e => simp [bind, Except.bind]
  | ok found =>
    show (if name.isEmpty || found.any String.isEmpty then Except.error _ else Except.ok found) =
      Except.ok parts ↔ _
    have hany : found.any String.isEmpty = true ↔ "" ∈ found := by
      simp [List.any_eq_true, String.isEmpty_iff]
    by_cases hbad : name = "" ∨ "" ∈ found
    · rw [if_pos (by simpa [hany, String.isEmpty_iff] using hbad)]
      constructor
      · intro h
        cases h
      · rintro ⟨hfound, hname, hparts⟩
        rw [Except.ok.injEq] at hfound
        subst hfound
        exact absurd hbad (by simp [hname, hparts])
    · rw [if_neg (by simpa [hany, String.isEmpty_iff] using hbad)]
      rw [not_or] at hbad
      constructor
      · intro h
        rw [Except.ok.injEq] at h
        subst h
        exact ⟨rfl, hbad⟩
      · exact fun h => h.1

/-- A name that can be cut is refused for one reason only. -/
theorem eq_invalid_of_segments {e : NameError} (hpieces : pieces delimiter name = .ok parts)
    (h : segments delimiter name = .error e) : e = .invalid name := by
  rw [segments, hpieces] at h
  change (if _ then Except.error _ else Except.ok _) = _ at h
  split at h
  · exact (Except.error.inj h).symm
  · cases h

theorem isValid_iff :
    isValid delimiter name = true ↔ ∃ parts, segments delimiter name = .ok parts := by
  unfold isValid
  cases segments delimiter name <;> simp

theorem isValid_iff_pieces :
    isValid delimiter name = true ↔
      name ≠ "" ∧ ∃ parts, pieces delimiter name = .ok parts ∧ "" ∉ parts := by
  rw [isValid_iff]
  constructor
  · rintro ⟨parts, hparts⟩
    obtain ⟨hpieces, hname, hvalid⟩ := segments_eq_ok_iff.1 hparts
    exact ⟨hname, parts, hpieces, hvalid⟩
  · rintro ⟨hname, parts, hpieces, hvalid⟩
    exact ⟨parts, segments_eq_ok_iff.2 ⟨hpieces, hname, hvalid⟩⟩

theorem pieces_torn {gs : List Text.Glyph} {h : gs.any Text.Glyph.isHalf = true} :
    pieces (.torn gs h) name = .ok parts ↔ parts = [name] := by
  rw [pieces, Except.ok.injEq, eq_comm]

theorem pieces_whole {d : String} :
    pieces (.whole d) name = .ok parts ↔
      ∃ c cs, d.toList = c :: cs ∧ Text.splitChars c cs name.toList = parts.map String.toList := by
  have hmap : ∀ ps : List (List Char),
      ps.map String.ofList = parts ↔ ps = parts.map String.toList := by
    intro ps
    constructor
    · rintro rfl
      simp [Function.comp_def]
    · rintro rfl
      simp [Function.comp_def]
  cases hd : d.toList with
  | nil => simp [pieces, Text.split?, hd]
  | cons c cs => simp [pieces, Text.split?, hd, hmap]

/-- A delimiter that is not empty cuts every name. -/
theorem exists_pieces (hdelimiter : delimiter ≠ .whole "") (name : String) :
    ∃ parts, pieces delimiter name = .ok parts := by
  cases delimiter with
  | torn gs h => exact ⟨[name], rfl⟩
  | whole d =>
    obtain ⟨c, cs, hd⟩ : ∃ c cs, d.toList = c :: cs :=
      List.exists_cons_of_ne_nil fun hnil => hdelimiter (by rw [String.toList_eq_nil_iff.1 hnil])
    exact ⟨(Text.splitChars c cs name.toList).map String.ofList, by
      simp [pieces, Text.split?, hd]⟩

/-- A name has at least one piece. -/
theorem ne_nil_of_pieces (h : pieces delimiter name = .ok parts) : parts ≠ [] := by
  cases delimiter with
  | torn gs hgs => simp [pieces_torn.1 h]
  | whole d =>
    obtain ⟨c, cs, -, hsplit⟩ := pieces_whole.1 h
    rintro rfl
    exact Text.splitFrom_ne_nil _ _ _ _ hsplit

/-- Two names with the same pieces are equal. -/
theorem join_of_pieces (h : pieces delimiter name = .ok parts) : join delimiter parts = name := by
  cases delimiter with
  | torn gs hgs =>
    rw [pieces_torn.1 h]
    simp [join, Text.joinChars]
  | whole d =>
    obtain ⟨c, cs, hd, hsplit⟩ := pieces_whole.1 h
    rw [join, ← hsplit, show Loose.text (.whole d) = d from rfl, hd, Text.joinChars_splitChars]
    exact String.ofList_toList

/-! ## The first pieces of a name -/

/-- The first pieces of a name are all the pieces of what they are joined to. -/
theorem pieces_join (h : pieces delimiter name = .ok (ps ++ qs)) (hps : ps ≠ []) :
    pieces delimiter (join delimiter ps) = .ok ps := by
  cases delimiter with
  | torn gs hgs =>
    obtain ⟨p, rfl, rfl⟩ : ∃ p, ps = [p] ∧ p = name := by
      cases ps with
      | nil => exact absurd rfl hps
      | cons p ps =>
        obtain ⟨rfl, rfl, -⟩ : p = name ∧ ps = [] ∧ qs = [] := by simpa using pieces_torn.1 h
        exact ⟨p, rfl, rfl⟩
    simp [pieces_torn, join, Text.joinChars]
  | whole d =>
    obtain ⟨c, cs, hd, hsplit⟩ := pieces_whole.1 h
    rw [List.map_append] at hsplit
    have hpieces := (Text.splitChars_eq_iff.1 hsplit).1.take (by simpa using hps)
    refine pieces_whole.2 ⟨c, cs, hd, ?_⟩
    rw [join, show Loose.text (.whole d) = d from rfl, hd, String.toList_ofList]
    exact Text.splitChars_joinChars hpieces

/-- Joining goes on where it stopped. -/
theorem join_concat (s : String) (hps : ps ≠ []) :
    join delimiter (ps ++ [s]) = join delimiter ps ++ delimiter.text ++ s := by
  have hchars : ∀ l : List (List Char), l ≠ [] → Text.joinChars delimiter.text.toList
      (l ++ [s.toList]) =
        Text.joinChars delimiter.text.toList l ++ (delimiter.text.toList ++ s.toList) := by
    intro l hl
    induction l with
    | nil => exact absurd rfl hl
    | cons p l ih =>
      rcases eq_or_ne l [] with rfl | hne
      · simp [Text.joinChars]
      · rw [List.cons_append, Text.joinChars_cons _ _ (by simp), ih hne,
          Text.joinChars_cons _ _ hne]
        simp
  rw [← String.toList_inj]
  simp only [join, List.map_append, List.map_cons, List.map_nil, String.toList_ofList,
    String.toList_append, List.append_assoc]
  exact hchars _ (by simpa using hps)

theorem join_singleton (s : String) : join delimiter [s] = s := by
  simp [join, Text.joinChars]

theorem join_ne_empty {s : String} (hs : s ≠ "") (ps : List String) :
    join delimiter (s :: ps) ≠ "" := by
  have hchars : s.toList ≠ [] := by simpa using hs
  intro hempty
  have hnil := congrArg String.toList hempty
  rw [join, String.toList_ofList, List.map_cons] at hnil
  cases ps with
  | nil => exact hchars hnil
  | cons p ps =>
    rw [Text.joinChars_cons _ _ (by simp)] at hnil
    exact hchars (List.append_eq_nil_iff.1 hnil).1

/-- A name between two names of one package is a name of that package. -/
theorem pieces_between {a b c : String} {xs ys zs : List String}
    (ha : pieces delimiter a = .ok (ps ++ xs)) (hxs : xs ≠ [])
    (hc : pieces delimiter c = .ok (ps ++ ys)) (hys : ys ≠ []) (hab : a ≤ b) (hbc : b ≤ c)
    (hb : pieces delimiter b = .ok zs) : ∃ rest, rest ≠ [] ∧ zs = ps ++ rest := by
  cases delimiter with
  | torn gs hgs =>
    have hps : ps = [] := by
      cases ps with
      | nil => rfl
      | cons p ps =>
        have hlen := congrArg List.length (pieces_torn.1 ha)
        have hpos := List.length_pos_iff.2 hxs
        rw [List.length_append, List.length_cons, List.length_singleton] at hlen
        omega
    exact ⟨zs, ne_nil_of_pieces hb, by simp [hps]⟩
  | whole d =>
    obtain ⟨e, es, hd, ha⟩ := pieces_whole.1 ha
    obtain ⟨e₁, es₁, hd₁, hb⟩ := pieces_whole.1 hb
    obtain ⟨e₂, es₂, hd₂, hc⟩ := pieces_whole.1 hc
    obtain ⟨rfl, rfl⟩ := List.cons.inj (hd.symm.trans hd₁)
    obtain ⟨rfl, rfl⟩ := List.cons.inj (hd.symm.trans hd₂)
    rw [List.map_append] at ha hc
    obtain ⟨rest, hrest, hsplit⟩ := Text.splitChars_between ha (by simpa using hxs) hc
      (by simpa using hys) (String.le_iff_toList_le.1 hab) (String.le_iff_toList_le.1 hbc)
    rw [hb] at hsplit
    obtain ⟨us, vs, rfl, hus, rfl⟩ := List.map_eq_append_iff.1 hsplit
    have hinj : us = ps := List.map_injective_iff.2 (fun _ _ => String.toList_injective) hus
    exact ⟨vs, by simpa using hrest, by rw [hinj]⟩

end ClassBrowser.QualifiedName
