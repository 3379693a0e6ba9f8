import ClassBrowser.Proofs.Package.Hierarchy

/-!
# Looking up members

A name leads to a member of a hierarchy by its segments.  In a hierarchy of names it leads to the
member of just this name, and there is one if and only if the name is one of those
(`Package.isSome_find?_ofValidNames`, `Package.lookup_ofValidNames`).  The members are built by the
prefixes of their names and searched for by segments; both ways end at the same package because the
labels around a member are the segments of its name (`Package.Builder.Holds.mem_located_iff`).
-/

namespace ClassBrowser

open QualifiedName
open Text (Loose)

variable {c : Contents} {path : List String} {m : Member} {delimiter : Loose} {name : String}
  {names : List String}

/-- The labels around a member lead to the contents that it is in. -/
theorem Contents.mem_located_iff (h : c.Unrepeated) : (path, m) ∈ c.located ↔
    ∃ inner, c.descend? path = some inner ∧ inner.member? m.display = some m := by
  induction path generalizing c with
  | nil => simp [mem_located_nil_iff h, descend?]
  | cons s path ih =>
    rw [mem_located_cons_iff h]
    constructor
    · rintro ⟨inner, hs, hm⟩
      obtain ⟨last, hlast, hmember⟩ := (ih (h.package? hs)).1 hm
      exact ⟨last, by simp [descend?, hs, hlast], hmember⟩
    · rintro ⟨last, hlast, hmember⟩
      obtain ⟨inner, hs, hdescend⟩ := Option.bind_eq_some_iff.1 hlast
      exact ⟨inner, hs, (ih (h.package? hs)).2 ⟨last, hdescend, hmember⟩⟩

namespace Package

theorem find?_of_segments {last : String} (p : Package)
    (h : segments delimiter name = .ok (path ++ [last])) :
    p.find? delimiter name = (p.contents.descend? path).bind (·.member? last) := by
  simp [find?, h]

/-- A name leads to its own member, if there is one. -/
theorem Builder.Holds.find?_eq_some_iff {b : Builder} (h : b.Holds delimiter names)
    (hvalid : ∀ n ∈ names, isValid delimiter n = true) :
    b.toPackage.find? delimiter name = some m ↔
      m ∈ b.contents.members ∧ m.qualified = name := by
  rw [Contents.members_eq_map_located, List.mem_map]
  constructor
  · intro hfind
    have hname := hfind
    unfold find? at hname
    split at hname
    · cases hname
    · next parts hparts =>
      have hpieces := (segments_eq_ok_iff.1 hparts).1
      obtain ⟨path, last, rfl⟩ :=
        parts.eq_nil_or_concat'.resolve_left (ne_nil_of_pieces hpieces)
      rw [find?_of_segments _ hparts] at hfind
      obtain ⟨inner, hinner, hmember⟩ := Option.bind_eq_some_iff.1 hfind
      obtain rfl := Contents.display_of_member? hmember
      have hlocated := (Contents.mem_located_iff h.placed.unrepeated).2 ⟨inner, hinner, hmember⟩
      refine ⟨⟨(path, m), hlocated, rfl⟩, ?_⟩
      rw [← join_of_pieces hpieces, ← join_of_pieces (h.placed.pieces _ hlocated), List.nil_append]
  · rintro ⟨⟨⟨path, m⟩, hlocated, rfl⟩, rfl⟩
    rw [find?_of_segments _ (h.segments_eq hlocated hvalid)]
    exact Option.bind_eq_some_iff.2 ((Contents.mem_located_iff h.placed.unrepeated).1 hlocated)

/-- A name leads to a member of the hierarchy of the valid ones of some names if and only if it is
one of these. -/
theorem isSome_find?_ofValidNames (delimiter : Loose) (names : List String) (name : String) :
    ((ofValidNames delimiter names).1.find? delimiter name).isSome ↔
      name ∈ names ∧ isValid delimiter name = true := by
  obtain ⟨b, hpackage, hb⟩ := holds_ofValidNames delimiter names
  have hvalid : ∀ n ∈ names.filter (isValid delimiter), isValid delimiter n = true :=
    fun _ hn => List.of_mem_filter hn
  simp only [hpackage, Option.isSome_iff_exists, hb.find?_eq_some_iff hvalid]
  rw [← List.mem_filter, ← hb.names name, List.mem_map]

/-- The members of a hierarchy of names are those of its names, behind their segments. -/
theorem Builder.Holds.mem_located_iff {b : Builder} (h : b.Holds delimiter names) :
    (path, m) ∈ b.contents.located ↔
      m.qualified ∈ names ∧ pieces delimiter m.qualified = .ok (path ++ [m.display]) := by
  have hnames : m.qualified ∈ names ↔ ∃ x ∈ b.contents.located, x.2.qualified = m.qualified := by
    rw [← h.names, Contents.members_eq_map_located, List.map_map, List.mem_map]
    rfl
  rw [hnames]
  constructor
  · exact fun hm => ⟨⟨_, hm, rfl⟩, h.placed.pieces _ hm⟩
  · rintro ⟨⟨⟨path', m'⟩, hm', hqualified⟩, hpieces⟩
    have hpieces' := h.placed.pieces _ hm'
    rw [hqualified, hpieces, List.nil_append] at hpieces'
    obtain ⟨rfl, hdisplay⟩ := List.append_inj' (Except.ok.inj hpieces') rfl
    obtain rfl : m' = m := by
      rw [Member.mk.injEq]
      exact ⟨(List.singleton_injective hdisplay).symm, hqualified⟩
    exact hm'

/-- **Looking up a name**: it leads to a member exactly if it is a valid one of the names, and then
to the member that has this name, and its last piece for a label. -/
theorem lookup_ofValidNames (delimiter : Loose) (names : List String) (name : String) :
    (∀ m, (ofValidNames delimiter names).1.find? delimiter name = some m ↔
      name ∈ names ∧ name ≠ "" ∧ m.qualified = name ∧
        ∃ path, pieces delimiter name = .ok (path ++ [m.display]) ∧ "" ∉ path ++ [m.display]) ∧
    ((ofValidNames delimiter names).1.find? delimiter name = none ↔
      ¬ (name ∈ names ∧ isValid delimiter name = true)) := by
  obtain ⟨b, hpackage, hb⟩ := holds_ofValidNames delimiter names
  have hvalid : ∀ n ∈ names.filter (isValid delimiter), isValid delimiter n = true :=
    fun _ hn => List.of_mem_filter hn
  refine ⟨fun m => ?_, ?_⟩
  · have hmember : m ∈ b.contents.members ↔ ∃ path, (path, m) ∈ b.contents.located := by
      simp [Contents.members_eq_map_located]
    rw [hpackage, hb.find?_eq_some_iff hvalid, hmember]
    simp only [hb.mem_located_iff, List.mem_filter, isValid_iff_pieces]
    constructor
    · rintro ⟨⟨path, ⟨hname, hne, parts, hparts, hempty⟩, hpieces⟩, rfl⟩
      obtain rfl := Except.ok.inj (hparts.symm.trans hpieces)
      exact ⟨hname, hne, rfl, path, hpieces, hempty⟩
    · rintro ⟨hname, hne, rfl, path, hpieces, hempty⟩
      exact ⟨⟨path, ⟨hname, hne, _, hpieces, hempty⟩, hpieces⟩, rfl⟩
  · rw [← isSome_find?_ofValidNames, Bool.not_eq_true, Option.isSome_eq_false_iff,
      Option.isNone_iff_eq_none]

-- a member beside a package of its label, a package alone, and a name that goes on behind a member
example : (ofValidNames "/" ["a/b", "a/b/c"]).1.find? "/" "a/b" = some ⟨"b", "a/b"⟩ ∧
    (ofValidNames "/" ["a/b", "a/b/c"]).1.find? "/" "a" = none ∧
    (ofValidNames "/" ["a/b", "a/b/c"]).1.find? "/" "a/b/c/d" = none := by
  have hsorted : sorted ["a/b", "a/b/c"] = ["a/b", "a/b/c"] :=
    List.mergeSort_of_pairwise (by decide +kernel)
  rw [ofValidNames, hsorted]
  decide +kernel

end Package

end ClassBrowser
