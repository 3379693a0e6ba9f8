import ClassBrowser.Proofs.Export.EntryNames
import ClassBrowser.Proofs.Files.Ways

/-!
# Places of entries

No two classes are exported to one place: names are told apart by their segments, and the segments
by the components of a path, of which each leads one directory down from the target.  Nor have two
classes one entry of an archive, because no component holds a slash.
-/

namespace ClassBrowser.Export

open Text (Glyph Loose)

variable {delimiter extension : Loose} {name name' : String} {p p' target : Path}
  {segments segments' : List String}

theorem withExtension_injective
    (h : withExtension extension segments = withExtension extension segments') :
    segments = segments' := by
  rcases List.eq_nil_or_concat' segments with rfl | ⟨front, last, rfl⟩ <;>
    rcases List.eq_nil_or_concat' segments' with rfl | ⟨front', last', rfl⟩
  · rfl
  · rw [withExtension_concat] at h
    exact absurd h.symm (by simp [withExtension])
  · rw [withExtension_concat] at h
    exact absurd h (by simp [withExtension])
  · rw [withExtension_concat, withExtension_concat] at h
    obtain ⟨hfront, hlast⟩ := List.append_inj' h rfl
    have hglyphs := congrArg Loose.glyphs (List.singleton_inj.1 hlast)
    rw [Loose.glyphs_append, Loose.glyphs_append] at hglyphs
    have hwhole := Loose.glyphs_injective (List.append_cancel_right hglyphs)
    rw [List.map_injective_iff.2 (fun _ _ => Loose.whole.inj) hfront, Loose.whole.inj hwhole]

/-- The path of a class tells its name. -/
theorem name_eq_of_parts (hslash : .char '/' ∉ extension.glyphs)
    (h : entryPath delimiter extension name = .ok p)
    (h' : entryPath delimiter extension name' = .ok p') (hparts : p.parts = p'.parts) :
    name = name' := by
  obtain ⟨segments, hpieces, -, rfl⟩ := exists_parts_of_entryPath hslash h
  obtain ⟨segments', hpieces', -, rfl⟩ := exists_parts_of_entryPath hslash h'
  obtain rfl := withExtension_injective hparts
  calc
    name = QualifiedName.join delimiter segments := (QualifiedName.join_of_pieces hpieces).symm
    _ = name' := QualifiedName.join_of_pieces hpieces'

theorem foldl_step_of_down {parts : List Loose} (hdown : ∀ part ∈ parts, part ≠ .whole "..")
    (above : Place) : parts.foldl Path.step above = above ++ parts := by
  induction parts generalizing above with
  | nil => simp
  | cons part rest ih =>
    obtain ⟨hpart, hrest⟩ := List.forall_mem_cons.1 hdown
    calc
      (part :: rest).foldl Path.step above = Path.step above part ++ rest := by
        rw [List.foldl_cons, ih hrest]
      _ = above ++ [part] ++ rest := by rw [Path.step, if_neg hpart]
      _ = above ++ part :: rest := by rw [List.append_assoc, List.singleton_append]

/-- The place of a class lies below that of the target. -/
theorem place_append (hslash : .char '/' ∉ extension.glyphs)
    (h : entryPath delimiter extension name = .ok p) (target : Path) :
    (target.append p).place = target.place ++ p.parts := by
  obtain ⟨segments, -, hall, rfl⟩ := exists_parts_of_entryPath hslash h
  have hdown := foldl_step_of_down fun part hpart => (component_of_mem hslash hall hpart).2.2.2
  rw [Path.append, if_pos rfl, Path.place, List.foldl_append, hdown]
  rfl

/-- The place of a class tells its name. -/
theorem name_eq_of_place (hslash : .char '/' ∉ extension.glyphs)
    (h : entryPath delimiter extension name = .ok p)
    (h' : entryPath delimiter extension name' = .ok p')
    (hplace : (target.append p).place = (target.append p').place) : name = name' := by
  rw [place_append hslash h, place_append hslash h'] at hplace
  exact name_eq_of_parts hslash h h' (List.append_cancel_left hplace)

/-! ## Names of entries -/

/-- The text of the path of a class tells its name. -/
theorem name_eq_of_toLoose (hslash : .char '/' ∉ extension.glyphs)
    (h : entryPath delimiter extension name = .ok p)
    (h' : entryPath delimiter extension name' = .ok p') (htext : p.toLoose = p'.toLoose) :
    name = name' := by
  obtain ⟨hne, hjoined⟩ := toLoose_of_entryPath hslash h
  obtain ⟨hne', hjoined'⟩ := toLoose_of_entryPath hslash h'
  have hnoslash : ∀ {name : String} {p : Path}, entryPath delimiter extension name = .ok p →
      ∀ part ∈ p.parts, .char '/' ∉ part.glyphs := by
    intro name p h part hpart
    obtain ⟨segments, -, hall, rfl⟩ := exists_parts_of_entryPath hslash h
    exact (component_of_mem hslash hall hpart).1
  refine name_eq_of_parts hslash h h' ?_
  have hsame : Path.joined p.parts = Path.joined p'.parts := by rw [← hjoined, htext, hjoined']
  exact Path.joined_injective (hnoslash h) (hnoslash h') hne hne' hsame

theorem mem_of_pieces {s : String} {c : Char}
    (h : QualifiedName.pieces delimiter name = .ok segments) (hs : s ∈ segments)
    (hc : c ∈ s.toList) : c ∈ name.toList := by
  have hmem : ∀ (d : List Char) (ps : List (List Char)), s.toList ∈ ps →
      c ∈ Text.joinChars d ps := by
    intro d ps hp
    fun_induction Text.joinChars d ps with
    | case1 => cases hp
    | case2 p => exact List.mem_singleton.1 hp ▸ hc
    | case3 p q ps ih =>
      rcases List.mem_cons.1 hp with rfl | hmore
      · simp [hc]
      · exact List.mem_append_right _ (ih hmore)
  rw [← QualifiedName.join_of_pieces h, QualifiedName.join, String.toList_ofList]
  exact hmem _ _ (List.mem_map_of_mem hs)

theorem null_not_mem_toLoose (hslash : .char '/' ∉ extension.glyphs)
    (hext : .char '\x00' ∉ extension.glyphs) (hname : Text.hasNull name = false)
    (h : entryPath delimiter extension name = .ok p) : .char '\x00' ∉ p.toLoose.glyphs := by
  have hchar : '\x00' ∉ name.toList := by
    simpa [Text.hasNull] using hname
  obtain ⟨segments, hpieces, -, hp⟩ := exists_parts_of_entryPath hslash h
  rw [(toLoose_of_entryPath hslash h).2, hp]
  intro hmem
  rcases Path.mem_glyphs_joined hmem with hslash' | ⟨part, hpart, hnull⟩
  · cases hslash'
  rcases List.eq_nil_or_concat' segments with rfl | ⟨front, last, rfl⟩
  · cases hpart
  have hsegment : ∀ s ∈ front ++ [last], .char '\x00' ∉ (Loose.whole s).glyphs := by
    intro s hs hmem
    obtain ⟨c, hc, hglyph⟩ := List.mem_map.1 hmem
    exact hchar (mem_of_pieces hpieces hs (Glyph.char.inj hglyph ▸ hc))
  rw [withExtension_concat, List.mem_append, List.mem_singleton] at hpart
  rcases hpart with hfront | rfl
  · obtain ⟨s, hs, rfl⟩ := List.mem_map.1 hfront
    exact hsegment s (by simp [hs]) hnull
  · rw [Loose.glyphs_append, List.mem_append] at hnull
    rcases hnull with hlast | hextension
    · exact hsegment last (by simp) hlast
    · exact hext hextension

/-- An archive keeps an entry under the text of its path. -/
theorem toLoose_of_storedName {stored : String} (hslash : .char '/' ∉ extension.glyphs)
    (hext : .char '\x00' ∉ extension.glyphs) (hname : Text.hasNull name = false)
    (h : entryPath delimiter extension name = .ok p) (hstored : Writer.storedName p = .ok stored) :
    p.toLoose = .whole stored := by
  have hkept : entryName p.toLoose = p.toLoose :=
    Loose.beforeNull_of_not_mem (null_not_mem_toLoose hslash hext hname h)
  rw [Writer.storedName, hkept] at hstored
  split at hstored
  · cases hstored
  · next hfault =>
    obtain ⟨t, ht⟩ := (Loose.encodeFault?_eq_none_iff _).1 hfault
    split at hstored
    · cases hstored
    · rw [ht] at hstored ⊢
      exact congrArg Loose.whole (Except.ok.inj hstored)

/-- An archive can keep an entry whose name is not too long. -/
theorem storedName_of_entryPath {text : String} (hslash : .char '/' ∉ extension.glyphs)
    (hext : .char '\x00' ∉ extension.glyphs) (hname : Text.hasNull name = false)
    (h : entryPath delimiter extension name = .ok p) (htext : p.toLoose = .whole text)
    (hlength : text.utf8ByteSize ≤ maxEntryBytes) : Writer.storedName p = .ok text := by
  have hnull := null_not_mem_toLoose hslash hext hname h
  rw [htext] at hnull
  exact storedName_eq_ok htext (by simpa [Text.hasNull] using hnull) hlength

end ClassBrowser.Export
