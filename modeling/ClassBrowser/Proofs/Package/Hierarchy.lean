import ClassBrowser.Package.Build
import ClassBrowser.Proofs.Package.Located
import Mathlib.Data.List.Dedup
import Mathlib.Data.List.Sort

/-!
# Hierarchies of names

The hierarchy of some names holds the valid ones, each once, and its depth-first order is the order
of the code points.

Two things carry this.  The table of the hierarchy under construction binds each prefix to the
package of the segments that the prefix is joined from (`Builder.Sound`), so a name is always added
at its own place (`Builder.addSegments_spec`).  And names arrive in ascending order, so what is
added goes to the end of the depth-first list.
-/

namespace ClassBrowser.Package

open Text (Loose)
open QualifiedName (pieces segments isValid sorted join)

variable {delimiter : Loose} {b : Builder} {name : String} {parts path segs rest : List String}

/-! ## The table of prefixes -/

/-- Every prefix in the table is bound to the package of its own segments. -/
def Builder.Sound (delimiter : Loose) (b : Builder) : Prop :=
  ∀ key path, b.packages.get? key = some path →
    pieces delimiter key = .ok path ∧ (b.contents.descend? path).isSome

theorem Builder.sound_empty (delimiter : Loose) : Builder.empty.Sound delimiter := by
  intro key path h
  cases h

theorem Builder.Sound.of_contents {c : Contents} (h : b.Sound delimiter)
    (hc : ∀ path, (b.contents.descend? path).isSome → (c.descend? path).isSome) :
    Builder.Sound delimiter ⟨c, b.packages⟩ := by
  intro key path hkey
  obtain ⟨hpieces, hpath⟩ := h key path hkey
  exact ⟨hpieces, hc path hpath⟩

/-- The prefix of one segment more. -/
theorem join_next (s : String) (hpath : "" ∉ path) :
    (if (join delimiter path).isEmpty then s
      else join delimiter path ++ delimiter.text ++ s) = join delimiter (path ++ [s]) := by
  cases path with
  | nil => exact (QualifiedName.join_singleton s).symm
  | cons p path =>
    have hp : p ≠ "" := by
      rintro rfl
      simp at hpath
    have hne : ¬ (join delimiter (p :: path)).isEmpty = true := by
      simpa [String.isEmpty_iff] using QualifiedName.join_ne_empty hp path
    rw [if_neg hne, QualifiedName.join_concat s (by simp)]

/-- A new package is bound to the prefix that its labels are the pieces of. -/
theorem Builder.Sound.addPackage {key s : String} (h : b.Sound delimiter)
    (hkey : pieces delimiter key = .ok (path ++ [s])) (hpath : (b.contents.descend? path).isSome) :
    Builder.Sound delimiter ⟨b.contents.modifyAt path (Contents.addPackage s),
      b.packages.insert key (path ++ [s])⟩ := by
  have hnew := Contents.isSome_descend?_concat hpath s
  intro k found hfound
  rw [Assoc.get?_insert] at hfound
  split at hfound
  · next heq =>
    obtain rfl := Option.some.inj hfound
    rw [← heq]
    exact ⟨hkey, hnew⟩
  · obtain ⟨hpieces, hdescend⟩ := h k found hfound
    exact ⟨hpieces, (Contents.keepsPackages_addPackage s).modifyAt path found _ hdescend⟩

/-- Going down from a package whose prefix is known gives the package of the further segments. -/
theorem Builder.enter_spec (h : b.Sound delimiter)
    (hname : pieces delimiter name = .ok (path ++ (segs ++ rest))) (hvalid : "" ∉ path ++ segs)
    (hpath : (b.contents.descend? path).isSome) :
    ∃ b' : Builder, enter delimiter segs (join delimiter path) path b = (path ++ segs, b') ∧
      b'.Sound delimiter ∧
      b'.contents = Contents.modifyAt path (Contents.ensureAt segs id) b.contents := by
  induction segs generalizing path b with
  | nil =>
    refine ⟨b, by simp [enter], h, ?_⟩
    exact (Contents.modifyAt_eq_self fun _ _ => rfl).symm
  | cons s segs ih =>
    have hnext : pieces delimiter name = .ok ((path ++ [s]) ++ (segs ++ rest)) := by
      simpa using hname
    have hkey := QualifiedName.pieces_join hnext (by simp)
    have hvalid' : "" ∉ (path ++ [s]) ++ segs := by simpa using hvalid
    have hcompose : ∀ c : Contents, Contents.modifyAt (path ++ [s]) (Contents.ensureAt segs id)
        (Contents.modifyAt path (Contents.addPackage s) c) =
          Contents.modifyAt path (Contents.ensureAt (s :: segs) id) c := by
      intro c
      rw [Contents.modifyAt_append, Contents.modifyAt_modifyAt]
      rfl
    rw [enter, join_next s (fun hmem => hvalid (List.mem_append_left _ hmem))]
    cases hfound : b.packages.get? (join delimiter (path ++ [s])) with
    | some found =>
      obtain ⟨hpieces, hdescend⟩ := h _ found hfound
      obtain rfl : found = path ++ [s] := Except.ok.inj (hpieces.symm.trans hkey)
      obtain ⟨b', henter, hsound, hcontents⟩ := ih h hnext hvalid' hdescend
      refine ⟨b', by simpa using henter, hsound, ?_⟩
      rw [hcontents, ← hcompose]
      -- the package is there already, so adding it changes nothing
      congr 1
      refine (Contents.modifyAt_eq_self fun inner hinner => Contents.addPackage_eq_self ?_).symm
      rwa [Contents.descend?_concat, hinner] at hdescend
    | none =>
      have hnew := Contents.isSome_descend?_concat hpath s
      obtain ⟨b', henter, hsound', hcontents⟩ :=
        ih (h.addPackage hkey hpath) hnext hvalid' hnew
      refine ⟨b', by simpa using henter, hsound', ?_⟩
      rw [hcontents]
      exact hcompose b.contents

/-- The member of a valid name is added behind its first segments. -/
theorem Builder.addSegments_spec (h : b.Sound delimiter)
    (hname : segments delimiter name = .ok parts) :
    (b.addSegments delimiter name parts).Sound delimiter ∧
      (b.addSegments delimiter name parts).contents = Contents.ensureAt parts.dropLast
        (Contents.addMember ⟨parts.getLastD "", name⟩) b.contents := by
  obtain ⟨hpieces, -, hvalid⟩ := QualifiedName.segments_eq_ok_iff.1 hname
  have hparts := List.dropLast_append_getLast (QualifiedName.ne_nil_of_pieces hpieces)
  have hpieces' : pieces delimiter name = .ok ([] ++ (parts.dropLast ++
      [parts.getLast (QualifiedName.ne_nil_of_pieces hpieces)])) := by
    rw [List.nil_append, hparts]
    exact hpieces
  have hinner : "" ∉ [] ++ parts.dropLast := fun hmem => hvalid (List.dropLast_subset parts hmem)
  obtain ⟨b', henter, hsound, hcontents⟩ := Builder.enter_spec h hpieces' hinner rfl
  have hadd : b.addSegments delimiter name parts = ⟨Contents.modifyAt parts.dropLast
      (Contents.addMember ⟨parts.getLastD "", name⟩) b'.contents, b'.packages⟩ := by
    rw [addSegments, show enter delimiter parts.dropLast "" [] b = _ from henter]
    rfl
  rw [hadd]
  refine ⟨hsound.of_contents ?_, ?_⟩
  · intro path hpath
    exact (Contents.keepsPackages_addMember _).modifyAt parts.dropLast path _ hpath
  · show Contents.modifyAt _ _ b'.contents = _
    rw [hcontents]
    exact Contents.modifyAt_ensureAt _ _ id _

/-! ## Names in ascending order -/

/-- The hierarchy under construction holds the given names, in order. -/
structure Builder.Holds (delimiter : Loose) (names : List String) (b : Builder) : Prop where
  sound : b.Sound delimiter
  placed : b.contents.Placed delimiter []
  names : ∀ name, name ∈ b.contents.members.map Member.qualified ↔ name ∈ names

theorem Builder.holds_empty (delimiter : Loose) : Builder.empty.Holds delimiter [] :=
  ⟨sound_empty delimiter, Contents.placed_nil delimiter [], fun _ => Iff.rfl⟩

/-- A name that is not before any name that is held is added. -/
theorem Builder.Holds.addSegments {names : List String} (h : b.Holds delimiter names)
    (hname : segments delimiter name = .ok parts) (hlast : ∀ n ∈ names, n ≤ name) :
    (b.addSegments delimiter name parts).Holds delimiter (names ++ [name]) := by
  obtain ⟨hsound, hcontents⟩ := Builder.addSegments_spec h.sound hname
  obtain ⟨hpieces, -, -⟩ := QualifiedName.segments_eq_ok_iff.1 hname
  have hne := QualifiedName.ne_nil_of_pieces hpieces
  have hparts : parts.dropLast ++ [parts.getLastD ""] = parts := by
    rw [List.getLastD_eq_getLast?, List.getLast?_eq_some_getLast hne]
    exact List.dropLast_append_getLast hne
  have hmembers : ∀ x ∈ b.contents.located, x.2.qualified ∈ names := by
    intro x hx
    rw [← h.names, Contents.members_eq_map_located]
    exact List.mem_map_of_mem (List.mem_map_of_mem hx)
  by_cases hmem : name ∈ names
  · -- the name is held, at the same place
    obtain ⟨m, hm, rfl⟩ := List.mem_map.1 ((h.names name).2 hmem)
    rw [Contents.members_eq_map_located] at hm
    obtain ⟨x, hx, rfl⟩ := List.mem_map.1 hm
    have heq : parts = x.1 ++ [x.2.display] :=
      Except.ok.inj (hpieces.symm.trans (h.placed.pieces x hx))
    have hleaf : (parts.dropLast, (⟨parts.getLastD "", x.2.qualified⟩ : Member)) = x := by
      rw [heq, List.dropLast_concat, List.getLastD_concat]
    have hsame : (b.addSegments delimiter x.2.qualified parts).contents = b.contents := by
      rw [hcontents]
      exact Contents.ensureAt_eq_self h.placed.unrepeated (hleaf ▸ hx)
    refine ⟨hsound, hsame ▸ h.placed, ?_⟩
    intro n
    rw [hsame, h.names, List.mem_append, List.mem_singleton]
    constructor
    · exact .inl
    · rintro (hn | rfl)
      · exact hn
      · exact hmem
  · have hlater : ∀ x ∈ b.contents.located, x.2.qualified < name := by
      intro x hx
      have hx := hmembers x hx
      exact lt_of_le_of_ne (hlast _ hx) fun heq => hmem (heq ▸ hx)
    have hleaf : pieces delimiter name =
        .ok ([] ++ (parts.dropLast ++ [(⟨parts.getLastD "", name⟩ : Member).display])) := by
      rw [List.nil_append, hparts]
      exact hpieces
    have hloc : (b.contents.ensureAt parts.dropLast
        (Contents.addMember ⟨parts.getLastD "", name⟩)).located =
          b.contents.located ++ [(parts.dropLast, ⟨parts.getLastD "", name⟩)] :=
      h.placed.located_ensureAt hleaf hlater
    refine ⟨hsound, hcontents ▸ h.placed.ensureAt hleaf hlater, ?_⟩
    intro n
    rw [hcontents, Contents.members_eq_map_located, hloc]
    simp only [List.map_append, List.map_cons, List.map_nil, List.mem_append, List.mem_singleton]
    rw [← h.names, Contents.members_eq_map_located]

/-- Adds the member of a name, or leaves the name out with a record. -/
def addOrSkip (delimiter : Loose) (state : Builder × List Log.Record) (name : String) :
    Builder × List Log.Record :=
  match state.1.add delimiter name with
  | .ok b => (b, state.2)
  | .error _ => (state.1, state.2 ++ [skippedRecord name])

theorem ofValidNames_eq (delimiter : Loose) (names : List String) :
    ofValidNames delimiter names =
      ((((sorted names).foldl (addOrSkip delimiter) (.empty, [])).1.toPackage),
        ((sorted names).foldl (addOrSkip delimiter) (.empty, [])).2) :=
  rfl

theorem addOrSkip_of_ok (hname : segments delimiter name = .ok parts) (skipped : List Log.Record) :
    addOrSkip delimiter (b, skipped) name = (b.addSegments delimiter name parts, skipped) := by
  have hadd : b.add delimiter name = .ok (b.addSegments delimiter name parts) := by
    rw [Builder.add, hname]
    rfl
  rw [addOrSkip, hadd]

theorem addOrSkip_of_error {e : NameError} (hname : segments delimiter name = .error e)
    (skipped : List Log.Record) :
    addOrSkip delimiter (b, skipped) name = (b, skipped ++ [skippedRecord name]) := by
  have hadd : b.add delimiter name = .error e := by
    rw [Builder.add, hname]
    rfl
  rw [addOrSkip, hadd]

/-- What is built from ascending names holds the valid ones. -/
theorem holds_foldl_addOrSkip {names held : List String} (h : b.Holds delimiter held)
    (skipped : List Log.Record) (hasc : names.Pairwise (· ≤ ·))
    (hlast : ∀ n ∈ held, ∀ n' ∈ names, n ≤ n') :
    (names.foldl (addOrSkip delimiter) (b, skipped)).1.Holds delimiter
      (held ++ names.filter (isValid delimiter)) := by
  induction names generalizing b held skipped with
  | nil => simpa using h
  | cons name names ih =>
    obtain ⟨hfirst, hrest⟩ := List.pairwise_cons.1 hasc
    rw [List.foldl_cons]
    cases hname : segments delimiter name with
    | ok parts =>
      have hvalid : isValid delimiter name = true := QualifiedName.isValid_iff.2 ⟨parts, hname⟩
      rw [addOrSkip_of_ok hname, List.filter_cons_of_pos hvalid]
      have hnow := h.addSegments hname fun n hn => hlast n hn name (by simp)
      have hlater := ih hnow skipped hrest ?_
      · simpa using hlater
      · intro n hn n' hn'
        rcases List.mem_append.1 hn with hold | hnew
        · exact hlast n hold n' (List.mem_cons_of_mem _ hn')
        · obtain rfl := List.mem_singleton.1 hnew
          exact hfirst n' hn'
    | error e =>
      have hvalid : ¬ isValid delimiter name = true := by
        rintro hok
        obtain ⟨parts, hparts⟩ := QualifiedName.isValid_iff.1 hok
        rw [hname] at hparts
        cases hparts
      rw [addOrSkip_of_error hname, List.filter_cons_of_neg hvalid]
      exact ih h _ hrest fun n hn n' hn' => hlast n hn n' (List.mem_cons_of_mem _ hn')

/-- A record is kept of each invalid name, in the order of the names. -/
theorem snd_foldl_addOrSkip (names : List String) (b : Builder) (skipped : List Log.Record) :
    (names.foldl (addOrSkip delimiter) (b, skipped)).2 =
      skipped ++ (names.filter fun name => !isValid delimiter name).map skippedRecord := by
  induction names generalizing b skipped with
  | nil => simp
  | cons name names ih =>
    rw [List.foldl_cons]
    cases hname : segments delimiter name with
    | ok parts =>
      have hvalid : isValid delimiter name = true := QualifiedName.isValid_iff.2 ⟨parts, hname⟩
      rw [addOrSkip_of_ok hname, ih, List.filter_cons_of_neg (by simp [hvalid])]
    | error e =>
      have hvalid : isValid delimiter name = false := by
        rw [isValid, hname]
      rw [addOrSkip_of_error hname, ih, List.filter_cons_of_pos (by simp [hvalid])]
      simp

theorem records_ofValidNames (delimiter : Loose) (names : List String) :
    (ofValidNames delimiter names).2 =
      ((sorted names).filter fun name => !isValid delimiter name).map skippedRecord := by
  rw [ofValidNames_eq]
  exact snd_foldl_addOrSkip (sorted names) .empty []

theorem pairwise_sorted (names : List String) : (sorted names).Pairwise (· ≤ ·) :=
  List.pairwise_mergeSort' (· ≤ ·) names

theorem sorted_congr {names names' : List String} (h : names.Perm names') :
    sorted names = sorted names' := by
  have hsame : (sorted names).Perm (sorted names') :=
    calc
      (sorted names).Perm names := List.mergeSort_perm names _
      names.Perm names' := h
      names'.Perm (sorted names') := (List.mergeSort_perm names' _).symm
  exact hsame.eq_of_pairwise' (pairwise_sorted names) (pairwise_sorted names')

/-- The hierarchy of the valid ones of some names holds these. -/
theorem holds_ofValidNames (delimiter : Loose) (names : List String) :
    ∃ b : Builder, (ofValidNames delimiter names).1 = b.toPackage ∧
      b.Holds delimiter (names.filter (isValid delimiter)) := by
  have h := holds_foldl_addOrSkip (Builder.holds_empty delimiter) [] (pairwise_sorted names)
    (by simp)
  refine ⟨_, congrArg Prod.fst (ofValidNames_eq delimiter names), h.sound, h.placed, ?_⟩
  intro name
  rw [h.names, List.nil_append, List.mem_filter, List.mem_filter, sorted, List.mem_mergeSort]

/-- An ascending list without repetition is the sorted list of its elements. -/
theorem eq_sorted_dedup {names found : List String} (hasc : found.Pairwise (· < ·))
    (hmem : ∀ n, n ∈ found ↔ n ∈ names) : found = sorted names.dedup := by
  have hnodup : found.Nodup := hasc.imp fun h => h.ne
  have hperm : found.Perm (sorted names.dedup) := by
    have hsame : found.Perm names.dedup := by
      apply (List.perm_ext_iff_of_nodup hnodup (List.nodup_dedup names)).2
      intro n
      rw [hmem, List.mem_dedup]
    exact hsame.trans (List.mergeSort_perm _ _).symm
  exact hperm.eq_of_pairwise' (hasc.imp fun h => h.le) (pairwise_sorted _)

theorem Builder.Holds.qualified_eq {names : List String} (h : b.Holds delimiter names) :
    b.contents.members.map Member.qualified = sorted names.dedup := by
  refine eq_sorted_dedup ?_ h.names
  rw [Contents.members_eq_map_located, List.map_map, List.pairwise_map]
  exact h.placed.ascending

theorem Builder.Holds.segments_eq {names : List String} {m : Member} (h : b.Holds delimiter names)
    (hm : (path, m) ∈ b.contents.located) (hvalid : ∀ name ∈ names, isValid delimiter name = true) :
    segments delimiter m.qualified = .ok (path ++ [m.display]) := by
  have hname : m.qualified ∈ names := by
    rw [← h.names, Contents.members_eq_map_located]
    exact List.mem_map_of_mem (List.mem_map_of_mem hm)
  obtain ⟨parts, hparts⟩ := QualifiedName.isValid_iff.1 (hvalid _ hname)
  have hpieces := (QualifiedName.segments_eq_ok_iff.1 hparts).1.symm.trans (h.placed.pieces _ hm)
  rw [hparts, Except.ok.inj hpieces]
  rfl

/-- The members of the hierarchy of some names, depth first, are the distinct valid names in the
order of their code points.  The labels of the packages around a member and its own are the segments
of its name, and every package has a member below it. -/
theorem members_ofValidNames (delimiter : Loose) (names : List String) :
    let p := (ofValidNames delimiter names).1
    p.members.map Member.qualified = sorted (names.filter (isValid delimiter)).dedup ∧
      (∀ name, isValid delimiter name = true ↔
        name ≠ "" ∧ ∃ parts, pieces delimiter name = .ok parts ∧ "" ∉ parts) ∧
      p.members = p.contents.located.map Prod.snd ∧
      (∀ path m, (path, m) ∈ p.contents.located →
        segments delimiter m.qualified = .ok (path ++ [m.display])) ∧
      p.contents.Populated := by
  intro p
  obtain ⟨b, hp, hb⟩ := holds_ofValidNames delimiter names
  have hcontents : p.contents = b.contents := congrArg contents hp
  refine ⟨?_, fun name => QualifiedName.isValid_iff_pieces, Contents.members_eq_map_located _,
    ?_, ?_⟩
  · rw [members, hcontents]
    exact hb.qualified_eq
  · intro path m hm
    rw [hcontents] at hm
    exact hb.segments_eq hm fun name hname => (List.mem_filter.1 hname).2
  · rw [hcontents]
    exact hb.placed.populated

end ClassBrowser.Package
