import ClassBrowser.Archive
import Mathlib.Data.String.Basic

/-!
# Entries of archives

Which entries of an archive are listed, and which of several entries with one name counts.
-/

namespace ClassBrowser

theorem Text.dropEnding?_eq_some_iff {ending s r : String} :
    Text.dropEnding? ending s = some r ↔ s = r ++ ending := by
  have hrev : ∀ cs : List Char, s.toList.reverse = ending.toList.reverse ++ cs ↔
      s.toList = cs.reverse ++ ending.toList := by
    intro cs
    rw [List.reverse_eq_iff, List.reverse_append, List.reverse_reverse]
  rw [dropEnding?, Option.map_eq_some_iff]
  constructor
  · rintro ⟨cs, hcs, rfl⟩
    rw [← String.toList_inj, String.toList_append, String.toList_ofList]
    exact (hrev cs).1 (dropStart?_eq_some_iff.1 hcs)
  · rintro rfl
    refine ⟨r.toList.reverse, dropStart?_eq_some_iff.2 ((hrev _).2 (by simp)), by simp⟩

namespace Archive

variable {suffix name : String} {data : Except ZipFault ByteArray} {entries : Entries}

/-- Whether an entry is the last one of its name. -/
def IsLast {α : Type} (entries : List (String × α)) (e : String × α) : Prop :=
  ∃ before behind, entries = before ++ e :: behind ∧ ∀ x ∈ behind, x.1 ≠ e.1

theorem IsLast.mem {α : Type} {entries : List (String × α)} {e : String × α}
    (h : IsLast entries e) : e ∈ entries := by
  obtain ⟨before, behind, rfl, -⟩ := h
  simp

theorem hasSuffix_iff : hasSuffix suffix name = true ↔ ∃ n, name = n ++ suffix := by
  rw [hasSuffix, Option.isSome_iff_exists]
  simp only [Text.dropEnding?_eq_some_iff]

theorem isLast_iff :
    lastEntry? entries name = some data ↔ IsLast entries (name, data) := by
  unfold lastEntry?
  rw [Option.map_eq_some_iff]
  constructor
  · rintro ⟨⟨found, bytes⟩, hfound, rfl⟩
    obtain ⟨hname, behind, before, hsplit, hbehind⟩ := List.find?_eq_some_iff_append.1 hfound
    obtain rfl : found = name := by simpa using hname
    rw [List.reverse_eq_iff] at hsplit
    refine ⟨before.reverse, behind.reverse, by simpa using hsplit, ?_⟩
    intro x hx
    simpa using hbehind x (List.mem_reverse.1 hx)
  · rintro ⟨before, behind, rfl, hbehind⟩
    refine ⟨(name, data), List.find?_eq_some_iff_append.2 ⟨by simp, behind.reverse,
      before.reverse, by simp, fun x hx => ?_⟩, rfl⟩
    simpa using hbehind x (List.mem_reverse.1 hx)

theorem exists_isLast (h : name ∈ entries.map Prod.fst) : ∃ data, IsLast entries (name, data) := by
  obtain ⟨e, he, rfl⟩ := List.mem_map.1 h
  have hsome : (entries.reverse.find? fun x => x.1 == e.1).isSome := by
    rw [List.find?_isSome]
    exact ⟨e, List.mem_reverse.2 he, by simp⟩
  obtain ⟨x, hx⟩ := Option.isSome_iff_exists.1 hsome
  refine ⟨x.2, isLast_iff.1 ?_⟩
  unfold lastEntry?
  rw [hx]
  rfl

/-- The listing of an archive in which every entry has a name. -/
theorem filesWithSuffix_of_named (h : ∀ e ∈ entries, e.1 ≠ "") :
    filesWithSuffix suffix entries = .ok ((entries.map Prod.fst).filter fun name =>
      !isDirectoryEntry name && hasSuffix suffix name) := by
  have hnone : ¬ (entries.map Prod.fst).contains "" = true := by
    rw [List.contains_iff_mem, List.mem_map]
    rintro ⟨e, he, hname⟩
    exact h e he hname
  unfold filesWithSuffix
  exact if_neg hnone

/-- An archive with a nameless entry cannot be listed. -/
theorem filesWithSuffix_of_nameless {e : String × Except ZipFault ByteArray} (he : e ∈ entries)
    (h : e.1 = "") :
    filesWithSuffix suffix entries = .error .namelessEntry := by
  have hsome : (entries.map Prod.fst).contains "" = true := by
    rw [List.contains_iff_mem, List.mem_map]
    exact ⟨e, he, h⟩
  unfold filesWithSuffix
  exact if_pos hsome

end Archive

end ClassBrowser
