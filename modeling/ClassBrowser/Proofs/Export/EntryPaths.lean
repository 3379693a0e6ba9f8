import ClassBrowser.Proofs.Except
import ClassBrowser.Proofs.Export.ArchiveTarget
import ClassBrowser.Proofs.Export.EntryPlaces

/-!
# Paths of classes

Which names have a path, and what it is like.  A name is refused for one of its segments, and for
nothing else; the path of any other name has just its segments for components, because no accepted
segment is read as anything but itself.  So a path tells its name (`entryPath_spec`), and a writer
that refuses the names that it was given before never gives one path to two classes
(`Writer.pairwise_claimAll`).
-/

namespace ClassBrowser.Export

open QualifiedName (exists_pieces)
open Text (Glyph Loose)

variable {delimiter extension : Loose} {name : String} {segments : List String}

/-- Whether a name is refused for the sake of this segment. -/
def IsRefused (segment : String) : Prop :=
  segment = "" ∨ segment = "." ∨ segment = ".." ∨ '/' ∈ segment.toList ∨ '\x5c' ∈ segment.toList

/-- Whether a path leads down from a directory, by so many components that are names of their
own. -/
structure LeadsDown (p : Path) (count : Nat) : Prop where
  anchor : p.anchor = .relative
  length : p.parts.length = count
  parts : ∀ part ∈ p.parts,
    part ≠ .whole "" ∧ part ≠ .whole "." ∧ part ≠ .whole ".." ∧ .char '/' ∉ part.glyphs

theorem isComponent_iff_not_isRefused {s : String} : isComponent s = true ↔ ¬ IsRefused s := by
  rw [isComponent_iff, IsRefused]
  tauto

/-- The path of a class leads down by the segments of its name. -/
theorem leadsDown_of_entryPath (hslash : .char '/' ∉ extension.glyphs) {p : Path}
    (h : entryPath delimiter extension name = .ok p)
    (hpieces : QualifiedName.pieces delimiter name = .ok segments) :
    LeadsDown p segments.length := by
  obtain ⟨found, hfound, hall, rfl⟩ := exists_parts_of_entryPath hslash h
  obtain rfl : found = segments := Except.ok.inj (hfound.symm.trans hpieces)
  refine ⟨rfl, length_withExtension extension found, fun part hpart => ?_⟩
  obtain ⟨hown, hempty, hdot, hdots⟩ := component_of_mem hslash hall hpart
  refine ⟨?_, hdot, hdots, hown⟩
  rintro rfl
  exact hempty rfl

/-- A name is refused if and only if one of its segments is. -/
theorem entryPath_eq_error_iff (hpieces : QualifiedName.pieces delimiter name = .ok segments) :
    entryPath delimiter extension name = .error (.invalidName name) ↔
      ∃ s ∈ segments, IsRefused s := by
  have hall : segments.all isComponent = true ↔ ¬ ∃ s ∈ segments, IsRefused s := by
    simp [isComponent_iff_not_isRefused]
  unfold entryPath
  rw [hpieces]
  by_cases hsegments : segments.all isComponent = true
  · simp [hsegments, hall.1 hsegments]
  · simp [hsegments, not_not.1 fun hnone => hsegments (hall.2 hnone)]

/-! ## Repeated names -/

/-- The paths that a writer gives for names that it is given one after the other; a name that it
refuses has none. -/
def Writer.claimAll (w : Writer) : List String → List Path
  | [] => []
  | name :: rest =>
    match w.claim name with
    | .ok (p, w) => p :: w.claimAll rest
    | .error _ => w.claimAll rest

theorem Writer.exists_of_mem_claimAll {w : Writer} {names : List String} {p : Path}
    (hp : p ∈ w.claimAll names) :
    ∃ name, name ∉ w.claimed ∧ entryPath w.delimiter w.extension name = .ok p := by
  induction names generalizing w with
  | nil => simp [claimAll] at hp
  | cons name rest ih =>
    rw [claimAll] at hp
    split at hp
    · next found w' hclaim =>
      obtain ⟨hpath, hnew, rfl⟩ := claim_eq_ok_iff.1 hclaim
      rcases List.mem_cons.1 hp with rfl | hrest
      · exact ⟨name, hnew, hpath⟩
      · obtain ⟨name', hnew', hpath'⟩ := ih hrest
        exact ⟨name', fun hmem => hnew' (List.mem_cons_of_mem _ hmem), hpath'⟩
    · exact ih hp

/-- No path is given twice. -/
theorem Writer.pairwise_claimAll {w : Writer} (hslash : .char '/' ∉ w.extension.glyphs)
    (names : List String) : (w.claimAll names).Pairwise fun p p' => p.toLoose ≠ p'.toLoose := by
  induction names generalizing w with
  | nil => exact .nil
  | cons name rest ih =>
    rw [claimAll]
    split
    · next p w' hclaim =>
      obtain ⟨hpath, -, rfl⟩ := claim_eq_ok_iff.1 hclaim
      refine .cons (fun p' hp' htext => ?_) (ih hslash)
      obtain ⟨name', hnew, hpath'⟩ := exists_of_mem_claimAll hp'
      have hname := name_eq_of_toLoose hslash hpath hpath' htext
      simp [hname] at hnew
    · exact ih hslash

/-! ## All names -/

/-- What a delimiter that is not empty and an extension without a slash make of a name.  It is
refused if and only if one of its segments is; else the text of its path is the segments with
slashes between them and the extension behind, the path leads down by just as many components, and
the name is a valid one.  The path tells the name, so that a writer gives no path twice, whatever
names it is given. -/
theorem entryPath_spec (hdelimiter : delimiter ≠ .whole "")
    (hslash : .char '/' ∉ extension.glyphs) :
    (∀ name, ∃ segments, QualifiedName.pieces delimiter name = .ok segments ∧
      (entryPath delimiter extension name = .error (.invalidName name) ↔
        ∃ s ∈ segments, IsRefused s) ∧
      ((¬ ∃ s ∈ segments, IsRefused s) → ∃ p, entryPath delimiter extension name = .ok p ∧
        p.toLoose = .whole (QualifiedName.join "/" segments) ++ extension ∧
        LeadsDown p segments.length ∧ QualifiedName.isValid delimiter name = true)) ∧
    (∀ name name' p p', entryPath delimiter extension name = .ok p →
      entryPath delimiter extension name' = .ok p' → p.toLoose = p'.toLoose → name = name') ∧
    ∀ format target names, ((⟨format, target, delimiter, extension, []⟩ : Writer).claimAll
      names).Pairwise fun p p' => p.toLoose ≠ p'.toLoose := by
  refine ⟨fun name => ?_, fun _ _ _ _ => name_eq_of_toLoose hslash,
    fun _ _ names => Writer.pairwise_claimAll hslash names⟩
  obtain ⟨segments, hpieces⟩ := exists_pieces hdelimiter name
  refine ⟨segments, hpieces, entryPath_eq_error_iff hpieces, fun hnone => ?_⟩
  have hall : ∀ s ∈ segments, isComponent s = true := fun s hs =>
    isComponent_iff_not_isRefused.2 fun hrefused => hnone ⟨s, hs, hrefused⟩
  obtain ⟨p, hpath⟩ : ∃ p, entryPath delimiter extension name = .ok p :=
    ⟨_, entryPath_eq_ok_iff.2 ⟨segments, hpieces, hall, rfl⟩⟩
  exact ⟨p, hpath, toLoose_entryPath hslash hpath hpieces,
    leadsDown_of_entryPath hslash hpath hpieces,
    isValid_of_entryPath hpath⟩

/-- The delimiter is found from the left, so that a segment may begin with one of its dots. -/
theorem entryPath_spec_dots : ∃ p, entryPath ".." ".java" "a..b...c" = .ok p ∧
    p.toLoose = "a/b/.c.java" ∧ LeadsDown p 3 := by
  obtain ⟨hnames, -⟩ :=
    @entryPath_spec (.whole "..") (.whole ".java") (by decide) (by decide)
  obtain ⟨segments, hpieces, -, haccepted⟩ := hnames "a..b...c"
  have hsegments : QualifiedName.pieces ".." "a..b...c" = .ok ["a", "b", ".c"] :=
    eq_ok_of_toOption (by decide +kernel)
  obtain rfl : segments = ["a", "b", ".c"] := Except.ok.inj (hpieces.symm.trans hsegments)
  obtain ⟨p, hpath, htext, hdown, -⟩ := haccepted (by simp [IsRefused])
  exact ⟨p, hpath, htext.trans (by decide +kernel), hdown⟩

end ClassBrowser.Export
