import ClassBrowser.Export.Writer
import ClassBrowser.Proofs.Package.Segments
import ClassBrowser.Proofs.Text.Glyphs
import Mathlib.Data.List.Induction
import Mathlib.Data.List.TakeWhile

/-!
# Names of entries

The text of the path under which a class is exported: the segments of its name with slashes between
them, and the extension (`toLoose_entryPath`).  Nothing is lost when that text is read as a path,
because an accepted segment is one component.  Where the delimiter is the slash itself, the text is
the name with the extension behind it.
-/

namespace ClassBrowser.Export

open Text (Glyph Loose)

variable {delimiter extension : Loose} {name s : String} {p : Path} {segments : List String}

theorem isComponent_iff :
    isComponent s = true ↔
      s ≠ "" ∧ s ≠ "." ∧ s ≠ ".." ∧ '/' ∉ s.toList ∧ '\x5c' ∉ s.toList := by
  have hany : (s.toList.any fun c => c == '/' || c == '\x5c') = true ↔
      '/' ∈ s.toList ∨ '\x5c' ∈ s.toList := by
    rw [List.any_eq_true]
    constructor
    · rintro ⟨c, hc, hmark⟩
      rcases Bool.or_eq_true_iff.1 hmark with h | h
      · exact .inl (beq_iff_eq.1 h ▸ hc)
      · exact .inr (beq_iff_eq.1 h ▸ hc)
    · rintro (h | h)
      · exact ⟨_, h, rfl⟩
      · exact ⟨_, h, rfl⟩
  calc
    isComponent s = true ↔
        ¬ (s.isEmpty || s == "." || s == ".." ||
          s.toList.any fun c => c == '/' || c == '\x5c') = true := by
      rw [isComponent, Bool.not_eq_true', ← Bool.not_eq_true]
    _ ↔ ¬ (((s = "" ∨ s = ".") ∨ s = "..") ∨ '/' ∈ s.toList ∨ '\x5c' ∈ s.toList) := by
      rw [Bool.or_eq_true, Bool.or_eq_true, Bool.or_eq_true, hany, String.isEmpty_iff,
        beq_iff_eq, beq_iff_eq]
    _ ↔ s ≠ "" ∧ s ≠ "." ∧ s ≠ ".." ∧ '/' ∉ s.toList ∧ '\x5c' ∉ s.toList := by tauto

theorem entryPath_eq_ok_iff :
    entryPath delimiter extension name = .ok p ↔
      ∃ segments, QualifiedName.pieces delimiter name = .ok segments ∧
        (∀ s ∈ segments, isComponent s = true) ∧
        p = ⟨.relative, (withExtension extension segments).flatMap Path.components⟩ := by
  unfold entryPath
  cases QualifiedName.pieces delimiter name with
  | error e => simp
  | ok found =>
    by_cases hall : found.all isComponent = true
    · have hfound := List.all_eq_true.1 hall
      simp only [hall, if_true, Except.ok.injEq, exists_eq_left']
      exact ⟨fun h => ⟨hfound, h.symm⟩, fun h => h.2.symm⟩
    · have hfound : ¬ ∀ s ∈ found, isComponent s = true := fun h => hall (List.all_eq_true.2 h)
      simp [hfound]

/-- An accepted name is a valid one. -/
theorem isValid_of_entryPath (h : entryPath delimiter extension name = .ok p) :
    QualifiedName.isValid delimiter name = true := by
  obtain ⟨segments, hpieces, hall, -⟩ := entryPath_eq_ok_iff.1 h
  have hempty : "" ∉ segments := fun hmem => (isComponent_iff.1 (hall "" hmem)).1 rfl
  refine QualifiedName.isValid_iff_pieces.2 ⟨?_, segments, hpieces, hempty⟩
  rintro rfl
  -- the empty name has one segment, which is empty
  have hjoin := QualifiedName.join_of_pieces hpieces
  cases hsegments : segments with
  | nil => exact QualifiedName.ne_nil_of_pieces hpieces hsegments
  | cons first rest =>
    rw [hsegments] at hjoin hempty
    refine QualifiedName.join_ne_empty (s := first) ?_ rest hjoin
    rintro rfl
    simp at hempty

/-! ## Paths as texts -/

theorem withExtension_concat (extension : Loose) (segments : List String) (last : String) :
    withExtension extension (segments ++ [last]) =
      segments.map Loose.whole ++ [.whole last ++ extension] := by
  induction segments with
  | nil => rfl
  | cons first rest ih =>
    cases rest with
    | nil => rfl
    | cons second rest =>
      rw [List.cons_append, List.cons_append, withExtension, ← List.cons_append, ih]
      rfl

theorem length_withExtension (extension : Loose) (segments : List String) :
    (withExtension extension segments).length = segments.length := by
  rcases List.eq_nil_or_concat' segments with rfl | ⟨front, last, rfl⟩
  · simp [withExtension]
  · simp [withExtension_concat]

/-- The components of a path, joined, are the segments of the name, joined, with the extension. -/
theorem joined_withExtension (hne : segments ≠ []) (extension : Loose) :
    Path.joined (withExtension extension segments) =
      .whole (QualifiedName.join "/" segments) ++ extension := by
  refine Loose.glyphs_injective ?_
  rw [Path.glyphs_joined, Loose.glyphs_append, Loose.glyphs_whole]
  induction segments with
  | nil => exact absurd rfl hne
  | cons first rest ih =>
    cases rest with
    | nil => simp [withExtension, QualifiedName.join_singleton]
    | cons second rest =>
      have hjoin : (QualifiedName.join "/" (first :: second :: rest)).toList =
          first.toList ++ '/' :: (QualifiedName.join "/" (second :: rest)).toList := by
        simp [QualifiedName.join, Text.joinChars_cons, Loose.text]
      have hmore : (withExtension extension (second :: rest)).map Loose.glyphs ≠ [] := by
        simpa using List.ne_nil_of_length_eq_add_one (length_withExtension extension _)
      obtain ⟨part, parts, hparts⟩ := List.exists_cons_of_ne_nil hmore
      have hrest := ih (List.cons_ne_nil _ _)
      rw [hparts] at hrest
      rw [withExtension, List.map_cons, hparts, List.intercalate_cons_cons, hrest, hjoin]
      simp

/-- No extension makes an accepted segment a text of dots. -/
theorem append_ne_dots {s t : String} (hs : isComponent s = true) (ht : t.toList <+: ['.', '.'])
    (extension : Loose) : Loose.whole s ++ extension ≠ .whole t := by
  obtain ⟨h₁, h₂, h₃, -⟩ := isComponent_iff.1 hs
  intro heq
  have hglyphs := congrArg Loose.glyphs heq
  rw [Loose.glyphs_append, Loose.glyphs_whole, Loose.glyphs_whole] at hglyphs
  have hstart : s.toList <+: ['.', '.'] :=
    ((List.prefix_map_iff_of_injective fun _ _ => Glyph.char.inj).1 ⟨_, hglyphs⟩).trans ht
  rcases List.prefix_cons_iff.1 hstart with hnil | ⟨rest, hrest, hstart⟩
  · exact h₁ (String.toList_eq_nil_iff.1 hnil)
  · rcases List.prefix_cons_iff.1 hstart with rfl | ⟨last, rfl, hempty⟩
    · exact h₂ (String.toList_inj.1 hrest)
    · obtain rfl := List.prefix_nil.1 hempty
      exact h₃ (String.toList_inj.1 hrest)

theorem slash_notMem_of_isComponent {s : String} (hs : isComponent s = true) :
    .char '/' ∉ (Loose.whole s).glyphs := by
  obtain ⟨-, -, -, hslash, -⟩ := isComponent_iff.1 hs
  intro hmem
  obtain ⟨c, hc, hglyph⟩ := List.mem_map.1 hmem
  exact hslash (Glyph.char.inj hglyph ▸ hc)

/-- What a component of the path of a class is like: it stands for itself in the text of a path, and
leads one directory down. -/
theorem component_of_mem (hslash : .char '/' ∉ extension.glyphs)
    (hall : ∀ s ∈ segments, isComponent s = true) {part : Loose}
    (hpart : part ∈ withExtension extension segments) :
    .char '/' ∉ part.glyphs ∧ part.glyphs ≠ [] ∧ part ≠ .whole "." ∧ part ≠ .whole ".." := by
  rcases List.eq_nil_or_concat' segments with rfl | ⟨front, last, rfl⟩
  · cases hpart
  rw [withExtension_concat, List.mem_append, List.mem_singleton] at hpart
  rcases hpart with hfront | rfl
  · obtain ⟨s, hs, rfl⟩ := List.mem_map.1 hfront
    have haccepted := hall s (by simp [hs])
    obtain ⟨hempty, hdot, hdots, -⟩ := isComponent_iff.1 haccepted
    exact ⟨slash_notMem_of_isComponent haccepted, by simpa using hempty, by simpa using hdot,
      by simpa using hdots⟩
  · have haccepted := hall last (by simp)
    have hempty := (isComponent_iff.1 haccepted).1
    refine ⟨?_, by simp [hempty], append_ne_dots haccepted (by decide) extension,
      append_ne_dots haccepted (by decide) extension⟩
    rw [Loose.glyphs_append, List.mem_append, not_or]
    exact ⟨slash_notMem_of_isComponent haccepted, hslash⟩

/-- The components of the path of a class are its segments, the last one with the extension. -/
theorem exists_parts_of_entryPath (hslash : .char '/' ∉ extension.glyphs)
    (h : entryPath delimiter extension name = .ok p) :
    ∃ segments, QualifiedName.pieces delimiter name = .ok segments ∧
      (∀ s ∈ segments, isComponent s = true) ∧
      p = ⟨.relative, withExtension extension segments⟩ := by
  obtain ⟨segments, hpieces, hall, rfl⟩ := entryPath_eq_ok_iff.1 h
  refine ⟨segments, hpieces, hall, ?_⟩
  have hparts : ∀ part ∈ withExtension extension segments, Path.components part = [part] := by
    intro part hpart
    obtain ⟨h₁, h₂, h₃, -⟩ := component_of_mem hslash hall hpart
    exact Path.components_of_not_mem h₁ h₂ h₃
  rw [List.flatMap_congr hparts, List.flatMap_singleton']

theorem toLoose_of_entryPath (hslash : .char '/' ∉ extension.glyphs)
    (h : entryPath delimiter extension name = .ok p) :
    p.parts ≠ [] ∧ p.toLoose = Path.joined p.parts := by
  obtain ⟨segments, hpieces, -, rfl⟩ := exists_parts_of_entryPath hslash h
  dsimp only
  rcases List.eq_nil_or_concat' segments with rfl | ⟨front, last, rfl⟩
  · exact absurd rfl (QualifiedName.ne_nil_of_pieces hpieces)
  cases hparts : withExtension extension (front ++ [last]) with
  | nil => simp [withExtension_concat] at hparts
  | cons part rest =>
    refine ⟨by simp, Loose.glyphs_injective ?_⟩
    show (Loose.whole "" ++ Path.joined (part :: rest)).glyphs = _
    rw [Loose.glyphs_append]
    rfl

/-- The text of the path of a class. -/
theorem toLoose_entryPath (hslash : .char '/' ∉ extension.glyphs)
    (h : entryPath delimiter extension name = .ok p)
    (hpieces : QualifiedName.pieces delimiter name = .ok segments) :
    p.toLoose = .whole (QualifiedName.join "/" segments) ++ extension := by
  obtain ⟨found, hfound, -, rfl⟩ := exists_parts_of_entryPath hslash h
  obtain rfl : found = segments := Except.ok.inj (hfound.symm.trans hpieces)
  rw [(toLoose_of_entryPath hslash h).2,
    joined_withExtension (QualifiedName.ne_nil_of_pieces hpieces)]

/-- Under the slash as the delimiter, a class is exported under its name. -/
theorem toLoose_entryPath_slash {extension : String} (hslash : '/' ∉ extension.toList)
    (h : entryPath "/" extension name = .ok p) : p.toLoose = .whole (name ++ extension) := by
  obtain ⟨segments, hpieces, -⟩ := entryPath_eq_ok_iff.1 h
  rw [toLoose_entryPath (by simpa using hslash) h hpieces, QualifiedName.join_of_pieces hpieces,
    Loose.whole_append]

/-! ## Entries of archives -/

/-- A text without NUL that is not too long is the name of an entry as it is. -/
theorem storedName_eq_ok (hp : p.toLoose = .whole s) (hnull : Text.hasNull s = false)
    (hlength : s.utf8ByteSize ≤ maxEntryBytes) : Writer.storedName p = .ok s := by
  have hname : entryName p.toLoose = .whole s := by
    rw [hp, entryName, Loose.beforeNull_of_not_mem]
    simpa [Text.hasNull] using hnull
  rw [Writer.storedName]
  simp only [hname]
  show (if maxEntryBytes < s.utf8ByteSize then Except.error ExportError.longEntry
    else .ok s) = .ok s
  rw [if_neg (by omega)]

end ClassBrowser.Export
