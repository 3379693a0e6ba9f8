import ClassBrowser.Proofs.Assoc
import ClassBrowser.Proofs.Except
import ClassBrowser.Proofs.Package.Nodes

/-!
# The table of prefixes

While names are arranged, the packages are at each moment those of the first segments of the names
taken so far (`Builder.isSome_descend?_after`), whatever the order of the names.  The table of
prefixes binds each of them, and nothing else, under the text that its segments join to
(`Builder.get?_packages_after`).  That a text is the prefix of one package only is the law that the
first pieces of a name, joined, are cut into the same pieces again, for every delimiter.

For packages kept as nodes this says that a prefix has one node and a node one prefix, and that
the node is linked in one place only, below the node of the prefix before (`Indexes`,
`indexes_take_sorted`).
-/

namespace ClassBrowser

open Text (Loose)
open QualifiedName (pieces segments sorted join)

variable {delimiter : Loose} {name key s : String}
  {names more parts parts' path p segs rest : List String}

/-! ## Packages of first segments -/

/-- Making sure of a package makes sure of the packages around it, and of no other. -/
theorem Contents.isSome_descend?_ensureAt {f : Contents → Contents}
    (hf : ∀ c p, ((f c).descend? p).isSome = (c.descend? p).isSome) (segs p : List String)
    (c : Contents) :
    ((c.ensureAt segs f).descend? p).isSome ↔ p <+: segs ∨ (c.descend? p).isSome := by
  induction segs generalizing c p with
  | nil =>
    rw [ensureAt, hf, List.prefix_nil]
    constructor
    · exact .inr
    · rintro (rfl | h)
      · rfl
      · exact h
  | cons s segs ih =>
    cases p with
    | nil => simp [descend?]
    | cons t p =>
      rw [ensureAt, descend?, descend?, package?_modifyPackage, package?_addPackage,
        List.cons_prefix_cons]
      by_cases hst : s = t
      · subst hst
        cases hs : c.package? s with
        | none =>
          have hempty : ((nil : Contents).descend? p).isSome → p <+: segs := by
            cases p <;> simp [descend?, package?]
          simpa [ih] using hempty
        | some inner => simp [ih]
      · simp [hst, Ne.symm hst, package?_addPackage]

namespace Package

variable {b b' : Builder}

/-- Whether labels are the first segments, but not all, of a valid one of some names. -/
def IsAround (delimiter : Loose) (names path : List String) : Prop :=
  ∃ name ∈ names, ∃ parts, segments delimiter name = .ok parts ∧ path <+: parts.dropLast

theorem isAround_concat_iff : IsAround delimiter (names ++ [name]) path ↔
    IsAround delimiter names path ∨
      ∃ parts, segments delimiter name = .ok parts ∧ path <+: parts.dropLast := by
  simp [IsAround, or_and_right, exists_or]

/-- The first segments of a name are given by their number. -/
theorem isAround_iff : path ≠ [] ∧ IsAround delimiter names path ↔
    ∃ name ∈ names, ∃ parts, segments delimiter name = .ok parts ∧
      ∃ i, 1 ≤ i ∧ i < parts.length ∧ path = parts.take i := by
  constructor
  · rintro ⟨hne, name, hname, parts, hparts, hpath⟩
    have hlen : path.length ≤ parts.length - 1 := by simpa using hpath.length_le
    have hpos := List.length_pos_iff.2 hne
    exact ⟨name, hname, parts, hparts, path.length, hpos, by omega,
      List.prefix_iff_eq_take.1 (hpath.trans (List.dropLast_prefix parts))⟩
  · rintro ⟨name, hname, parts, hparts, i, hpos, hi, rfl⟩
    refine ⟨List.ne_nil_of_length_pos (by rw [List.length_take]; omega),
      name, hname, parts, hparts, ?_⟩
    rw [List.dropLast_eq_take]
    exact List.take_prefix_take_left (by omega)

/-- Every package is in the table, under the text that its labels join to. -/
def Builder.Entered (delimiter : Loose) (b : Builder) : Prop :=
  ∀ path, path ≠ [] → (b.contents.descend? path).isSome →
    b.packages.get? (join delimiter path) = some path

theorem Builder.entered_empty (delimiter : Loose) : Builder.empty.Entered delimiter := by
  intro path hne hpath
  cases path with
  | nil => exact absurd rfl hne
  | cons s path => cases hpath

theorem Builder.Entered.addPackage (h : b.Entered delimiter)
    (hnew : b.packages.get? (join delimiter (path ++ [s])) = none)
    (hpath : (b.contents.descend? path).isSome) :
    Builder.Entered delimiter ⟨b.contents.modifyAt path (Contents.addPackage s),
      b.packages.insert (join delimiter (path ++ [s])) (path ++ [s])⟩ := by
  intro p hne hp
  rw [Assoc.get?_insert]
  by_cases heq : p = path ++ [s]
  · rw [heq, if_pos rfl]
  · rw [Contents.isSome_descend?_addPackage hpath, decide_eq_false heq, Bool.false_or] at hp
    have hold := h p hne hp
    rw [if_neg, hold]
    intro hkey
    rw [hkey, hold] at hnew
    cases hnew

/-- Going down to the packages of further segments enters those that are added. -/
theorem Builder.Entered.enter (h : b.Entered delimiter) (hsound : b.Sound delimiter)
    (hname : pieces delimiter name = .ok (path ++ (segs ++ rest))) (hvalid : "" ∉ path ++ segs)
    (hpath : (b.contents.descend? path).isSome) :
    (Builder.enter delimiter segs (join delimiter path) path b).2.Entered delimiter := by
  induction segs generalizing path b with
  | nil => exact h
  | cons s segs ih =>
    have hnext : pieces delimiter name = .ok ((path ++ [s]) ++ (segs ++ rest)) := by
      simpa using hname
    have hkey := QualifiedName.pieces_join hnext (by simp)
    have hvalid' : "" ∉ (path ++ [s]) ++ segs := by simpa using hvalid
    rw [Builder.enter, join_next s (fun hmem => hvalid (List.mem_append_left _ hmem))]
    cases hfound : b.packages.get? (join delimiter (path ++ [s])) with
    | some found =>
      obtain ⟨hpieces, hdescend⟩ := hsound _ found hfound
      obtain rfl : found = path ++ [s] := Except.ok.inj (hpieces.symm.trans hkey)
      exact ih h hsound hnext hvalid' hdescend
    | none =>
      refine ih (h.addPackage hfound hpath) (hsound.addPackage hkey hpath) hnext hvalid' ?_
      simp [Contents.isSome_descend?_addPackage hpath]

/-! ## After some names -/

namespace Builder

theorem after_concat_of_ok (hname : segments delimiter name = .ok parts) :
    after delimiter (names ++ [name]) =
      (after delimiter names).addSegments delimiter name parts := by
  rw [after, List.foldl_concat]
  exact congrArg Prod.fst (addOrSkip_of_ok hname _)

theorem after_concat_of_error {e : NameError} (hname : segments delimiter name = .error e) :
    after delimiter (names ++ [name]) = after delimiter names := by
  rw [after, List.foldl_concat]
  exact (congrArg Prod.fst (addOrSkip_of_error hname _)).trans rfl

/-- Where no name is refused, all names are taken. -/
theorem eq_after_of_foldlM (h : names.foldlM (Builder.add delimiter) .empty = .ok b) :
    b = after delimiter names := by
  induction names using List.reverseRecOn generalizing b with
  | nil => exact (Except.ok.inj h).symm
  | append_singleton names name ih =>
    rw [List.foldlM_append] at h
    obtain ⟨b₀, hb₀, hlast⟩ := bind_eq_ok_iff.1 h
    simp only [List.foldlM_cons, List.foldlM_nil, bind_pure, Builder.add] at hlast
    obtain ⟨parts, hparts, hb⟩ := bind_eq_ok_iff.1 hlast
    rw [after_concat_of_ok hparts, ← ih hb₀]
    exact (Except.ok.inj hb).symm

/-- The first segments of a name are around its member. -/
theorem Entered.addSegments (h : b.Entered delimiter) (hsound : b.Sound delimiter)
    (hname : segments delimiter name = .ok parts) :
    (b.addSegments delimiter name parts).Entered delimiter := by
  obtain ⟨hpieces, -, hvalid⟩ := QualifiedName.segments_eq_ok_iff.1 hname
  have hparts := List.dropLast_append_getLast (QualifiedName.ne_nil_of_pieces hpieces)
  have hinner : "" ∉ [] ++ parts.dropLast := fun hmem => hvalid (List.dropLast_subset parts hmem)
  have henter : (Builder.enter delimiter parts.dropLast "" [] b).2.Entered delimiter :=
    h.enter hsound (by rw [List.nil_append, hparts]; exact hpieces) hinner rfl
  intro p hne hp
  refine henter p hne ?_
  rw [← hp]
  exact (Contents.isSome_descend?_modifyAt fun c => c.isSome_descend?_addMember _).symm

/-- After any names the table binds each prefix to the package of its segments, and every package
is in it. -/
theorem sound_entered_after (delimiter : Loose) (names : List String) :
    (after delimiter names).Sound delimiter ∧ (after delimiter names).Entered delimiter := by
  induction names using List.reverseRecOn with
  | nil => exact ⟨sound_empty delimiter, entered_empty delimiter⟩
  | append_singleton names name ih =>
    cases hname : segments delimiter name with
    | error e => rwa [after_concat_of_error hname]
    | ok parts =>
      rw [after_concat_of_ok hname]
      exact ⟨(addSegments_spec ih.1 hname).1, ih.2.addSegments ih.1 hname⟩

/-- The packages after some names are those of first segments of the valid ones. -/
theorem isSome_descend?_after : ((after delimiter names).contents.descend? path).isSome ↔
    path = [] ∨ IsAround delimiter names path := by
  induction names using List.reverseRecOn with
  | nil =>
    have hnone : ¬ IsAround delimiter [] path := by simp [IsAround]
    cases path with
    | nil => simp [Contents.descend?]
    | cons s path => simpa [after, empty, Contents.descend?, Contents.package?] using hnone
  | append_singleton names name ih =>
    rw [isAround_concat_iff]
    cases hname : segments delimiter name with
    | error e => simp [after_concat_of_error hname, ih]
    | ok parts =>
      rw [after_concat_of_ok hname,
        (addSegments_spec (sound_entered_after delimiter names).1 hname).2,
        Contents.isSome_descend?_ensureAt, ih]
      · simp only [Except.ok.injEq, exists_eq_left']
        tauto
      · exact fun c => c.isSome_descend?_addMember _

/-- The table of prefixes after some names. -/
theorem get?_packages_after : (after delimiter names).packages.get? key = some path ↔
    path ≠ [] ∧ IsAround delimiter names path ∧ key = join delimiter path := by
  obtain ⟨hsound, hentered⟩ := sound_entered_after delimiter names
  constructor
  · intro hkey
    obtain ⟨hpieces, hpath⟩ := hsound key path hkey
    have hne := QualifiedName.ne_nil_of_pieces hpieces
    exact ⟨hne, (isSome_descend?_after.1 hpath).resolve_left hne,
      (QualifiedName.join_of_pieces hpieces).symm⟩
  · rintro ⟨hne, hpath, rfl⟩
    exact hentered path hne (isSome_descend?_after.2 (.inr hpath))

end Builder

/-! ## Prefixes and nodes -/

/-- How prefixes, packages and nodes go together once some names are taken. -/
structure Indexes (delimiter : Loose) (names : List String) (b : Builder) (g : Nodes) : Prop where
  /-- labels lead to nodes where they lead to packages, and prefixes are bound to both alike -/
  inStep : g.InStep b
  /-- the root has its node under the empty prefix -/
  root : g.lookup.get? "" = some 0
  /-- the other prefixes are those of the valid names, short of the whole -/
  keys : ∀ key, key ≠ "" → (key ∈ g.lookup.keys ↔ ∃ name ∈ names, ∃ parts,
    segments delimiter name = .ok parts ∧
      ∃ i, 1 ≤ i ∧ i < parts.length ∧ key = join delimiter (parts.take i))
  /-- the pieces of a prefix lead to its node and are the labels of its package -/
  bound : ∀ key node, key ≠ "" → g.lookup.get? key = some node → ∃ path,
    pieces delimiter key = .ok path ∧ g.follow? path = some node ∧
      b.packages.get? key = some path
  /-- two names share a node exactly where they share the segments up to it -/
  shared : ∀ name ∈ names, ∀ name' ∈ names, ∀ parts parts',
    segments delimiter name = .ok parts → segments delimiter name' = .ok parts' →
      ∀ i, i < parts.length → i < parts'.length → ∃ node node',
        g.follow? (parts.take i) = some node ∧ g.follow? (parts'.take i) = some node' ∧
          (node = node' ↔ parts.take i = parts'.take i)
  /-- a node has one prefix -/
  named : ∀ node, 0 < node → node < g.size →
    ∃! key, key ≠ "" ∧ g.lookup.get? key = some node
  /-- a node is linked below the node of the prefix before its last segment, and nowhere else -/
  linked : ∀ key node, key ≠ "" → g.lookup.get? key = some node → ∃ path s parent,
    pieces delimiter key = .ok (path ++ [s]) ∧ g.follow? path = some parent ∧
      ∀ x t, g.child? x t = some node ↔ x = parent ∧ t = s
  /-- the way of a further name goes through the nodes of its first segments -/
  through : ∀ name parts i, segments delimiter name = .ok parts → i < parts.length →
    (Nodes.enter delimiter (parts.take i) "" 0 g).2.follow? (parts.take i) =
      some (Nodes.enter delimiter (parts.take i) "" 0 g).1

namespace Nodes

variable {g : Nodes} {node x : Nat} {t : String}

/-- A node has links from one other node only, under one label. -/
theorem Formed.child?_eq_some_iff (h : g.Formed) {parent : Nat}
    (hpath : g.follow? path = some parent) (hnode : g.follow? (path ++ [s]) = some node) :
    g.child? x t = some node ↔ x = parent ∧ t = s := by
  constructor
  · intro hchild
    have hx : x < g.size := by
      by_contra hge
      rw [child?_eq_none (not_lt.1 hge)] at hchild
      cases hchild
    obtain ⟨q, hq⟩ := (h.reached x).1 hx
    have hway : g.follow? (q ++ [t]) = some node := by
      rw [follow?_concat, hq, Option.bind_some, hchild]
    obtain ⟨rfl, ht⟩ := List.append_inj' (h.lone _ _ node hway hnode) rfl
    exact ⟨Option.some.inj (hq.symm.trans hpath), List.singleton_injective ht⟩
  · rintro ⟨rfl, rfl⟩
    rwa [follow?_concat, hpath, Option.bind_some] at hnode

/-- The node of a prefix is that of its package. -/
theorem InStep.get?_lookup_iff (h : g.InStep b) (hkey : key ≠ "") :
    g.lookup.get? key = some node ↔
      ∃ path, b.packages.get? key = some path ∧ g.follow? path = some node := by
  have hbound := h.bound key hkey
  cases hpath : b.packages.get? key with
  | none =>
    rw [hpath, Option.map_none, Option.map_eq_none_iff] at hbound
    simp [hbound]
  | some path =>
    rw [hpath, Option.map_some, Option.map_eq_some_iff] at hbound
    obtain ⟨x, hx, hfollow⟩ := hbound
    simp [hx, ← hfollow]

/-- The first segments of a name that is taken lead to a node. -/
theorem isSome_follow?_after {i : Nat} (hmem : name ∈ names)
    (hname : segments delimiter name = .ok parts) (hi : i < parts.length) :
    ((after delimiter names).follow? (parts.take i)).isSome := by
  rw [(after_spec delimiter names).2.paths, Builder.isSome_descend?_after]
  refine .inr ⟨name, hmem, parts, hname, ?_⟩
  rw [List.dropLast_eq_take]
  exact List.take_prefix_take_left (by omega)

/-- The nodes that have a prefix are those of first segments. -/
theorem get?_lookup_after (hkey : key ≠ "") :
    (after delimiter names).lookup.get? key = some node ↔ ∃ path, path ≠ [] ∧
      IsAround delimiter names path ∧ key = join delimiter path ∧
        (after delimiter names).follow? path = some node := by
  simp only [(after_spec delimiter names).2.get?_lookup_iff hkey, Builder.get?_packages_after,
    and_assoc]

theorem mem_keys_lookup_after (hkey : key ≠ "") :
    key ∈ (after delimiter names).lookup.keys ↔ ∃ name ∈ names, ∃ parts,
      segments delimiter name = .ok parts ∧
        ∃ i, 1 ≤ i ∧ i < parts.length ∧ key = join delimiter (parts.take i) := by
  simp only [Assoc.mem_keys_iff, get?_lookup_after hkey]
  constructor
  · rintro ⟨node, path, hne, haround, rfl, -⟩
    obtain ⟨name, hname, parts, hparts, i, hpos, hi, rfl⟩ := isAround_iff.1 ⟨hne, haround⟩
    exact ⟨name, hname, parts, hparts, i, hpos, hi, rfl⟩
  · rintro ⟨name, hname, parts, hparts, i, hpos, hi, rfl⟩
    obtain ⟨node, hnode⟩ := Option.isSome_iff_exists.1 (isSome_follow?_after hname hparts hi)
    obtain ⟨hne, haround⟩ := isAround_iff.2 ⟨name, hname, parts, hparts, i, hpos, hi, rfl⟩
    exact ⟨node, parts.take i, hne, haround, rfl, hnode⟩

/-- A node other than the root has one prefix. -/
theorem existsUnique_key (hpos : 0 < node) (hnode : node < (after delimiter names).size) :
    ∃! key, key ≠ "" ∧ (after delimiter names).lookup.get? key = some node := by
  obtain ⟨hformed, hstep⟩ := after_spec delimiter names
  obtain ⟨path, hpath⟩ := (hformed.reached node).1 hnode
  have hne : path ≠ [] := by
    rintro rfl
    exact hpos.ne (Option.some.inj hpath)
  have haround : IsAround delimiter names path := by
    refine (Builder.isSome_descend?_after.1 ?_).resolve_left hne
    rw [← hstep.paths, hpath]
    rfl
  obtain ⟨name, hname, parts, hparts, hfirst⟩ := haround
  have hkey : join delimiter path ≠ "" := by
    obtain ⟨s, rest, rfl⟩ := List.exists_cons_of_ne_nil hne
    refine QualifiedName.join_ne_empty ?_ rest
    rintro rfl
    refine (QualifiedName.segments_eq_ok_iff.1 hparts).2.2 ?_
    exact List.dropLast_subset parts (hfirst.subset List.mem_cons_self)
  refine ⟨join delimiter path, ⟨hkey, ?_⟩, ?_⟩
  · exact (get?_lookup_after hkey).2 ⟨path, hne, ⟨name, hname, parts, hparts, hfirst⟩, rfl, hpath⟩
  · rintro key ⟨hkey', hlookup⟩
    obtain ⟨path', -, -, rfl, hpath'⟩ := (get?_lookup_after hkey').1 hlookup
    rw [hformed.lone path' path node hpath' hpath]

/-- A prefix stands for a package with its pieces for labels. -/
theorem exists_pieces_of_lookup (hkey : key ≠ "")
    (h : (after delimiter names).lookup.get? key = some node) :
    ∃ path, pieces delimiter key = .ok path ∧ (after delimiter names).follow? path = some node ∧
      (Builder.after delimiter names).packages.get? key = some path := by
  obtain ⟨path, hpath, hnode⟩ := ((after_spec delimiter names).2.get?_lookup_iff hkey).1 h
  exact ⟨path, ((Builder.sound_entered_after delimiter names).1 key path hpath).1, hnode, hpath⟩

end Nodes

/-- The loop over the segments of a name passes the packages of its first segments. -/
theorem Builder.Sound.enter_take (h : b.Sound delimiter)
    (hname : segments delimiter name = .ok parts) (i : Nat) :
    (Builder.enter delimiter (parts.take i) "" [] b).1 = parts.take i := by
  obtain ⟨hpieces, -, hvalid⟩ := QualifiedName.segments_eq_ok_iff.1 hname
  have hsplit : pieces delimiter name = .ok ([] ++ (parts.take i ++ parts.drop i)) := by
    rw [List.nil_append, List.take_append_drop, hpieces]
  have hinner : "" ∉ [] ++ parts.take i := fun hmem => hvalid (List.take_subset i parts hmem)
  obtain ⟨b', henter, -⟩ := Builder.enter_spec h hsplit hinner rfl
  rw [show Builder.enter delimiter (parts.take i) "" [] b = _ from henter, List.nil_append]

theorem indexes_after (delimiter : Loose) (names : List String) :
    Indexes delimiter names (Builder.after delimiter names) (Nodes.after delimiter names) := by
  obtain ⟨hformed, hstep⟩ := Nodes.after_spec delimiter names
  refine ⟨hstep, ?root, fun key hkey => Nodes.mem_keys_lookup_after hkey,
    fun key node hkey h => Nodes.exists_pieces_of_lookup hkey h, ?shared,
    fun node hpos hnode => Nodes.existsUnique_key hpos hnode, ?linked, ?through⟩
  case root =>
    have hstart : (Nodes.after delimiter []).lookup.get? "" = some 0 := rfl
    exact Nodes.get?_lookup_after_append hstart names
  case shared =>
    intro name hname name' hname' parts parts' hparts hparts' i hi hi'
    obtain ⟨node, hnode⟩ := Option.isSome_iff_exists.1 (Nodes.isSome_follow?_after hname hparts hi)
    obtain ⟨node', hnode'⟩ :=
      Option.isSome_iff_exists.1 (Nodes.isSome_follow?_after hname' hparts' hi')
    refine ⟨node, node', hnode, hnode', ?_, ?_⟩
    · rintro rfl
      exact hformed.lone _ _ node hnode hnode'
    · intro heq
      exact Option.some.inj (hnode.symm.trans (heq ▸ hnode'))
  case linked =>
    intro key node hkey h
    obtain ⟨way, hpieces, hway, -⟩ := Nodes.exists_pieces_of_lookup hkey h
    obtain ⟨path, s, rfl⟩ :=
      way.eq_nil_or_concat'.resolve_left (QualifiedName.ne_nil_of_pieces hpieces)
    obtain ⟨parent, hparent, -⟩ :=
      Option.bind_eq_some_iff.1 ((Nodes.follow?_concat _ path s).symm.trans hway)
    exact ⟨path, s, parent, hpieces, hparent, fun x t => hformed.child?_eq_some_iff hparent hway⟩
  case through =>
    intro name parts i hname hi
    have hvalid : "" ∉ parts.take i := fun hmem =>
      (QualifiedName.segments_eq_ok_iff.1 hname).2.2 (List.take_subset i parts hmem)
    rw [← (hstep.enter_root hformed hvalid).2.2,
      (Builder.sound_entered_after delimiter names).1.enter_take hname i]

/-- **The loop over names**, in sorted order: after each name, the prefixes in the table are those
of the valid names taken so far, each bound to the one node that its pieces lead to, so that two
names share a node exactly where they share the segments up to it.  Whether invalid names are
refused or left out makes no difference to that, and a prefix never changes its node. -/
theorem indexes_take_sorted (delimiter : Loose) (names : List String) (n : Nat) :
    Indexes delimiter ((sorted names).take n) (Builder.after delimiter ((sorted names).take n))
        (Nodes.after delimiter ((sorted names).take n)) ∧
      (∀ b, ((sorted names).take n).foldlM (Builder.add delimiter) .empty = .ok b →
        b = Builder.after delimiter ((sorted names).take n)) ∧
      ∀ m, n ≤ m → ∀ key node,
        (Nodes.after delimiter ((sorted names).take n)).lookup.get? key = some node →
          (Nodes.after delimiter ((sorted names).take m)).lookup.get? key = some node := by
  refine ⟨indexes_after delimiter _, fun b => Builder.eq_after_of_foldlM, ?_⟩
  intro m hnm key node hkey
  obtain ⟨more, hmore⟩ := List.take_prefix_take_left (l := sorted names) hnm
  rw [← hmore]
  exact Nodes.get?_lookup_after_append hkey more

-- where occurrences of the delimiter overlap, the first one separates
example : (Nodes.after "::" ["a:::b", "a::c::d"]).lookup = [("", 0), ("a", 1), ("a::c", 2)] := by
  decide +kernel

end Package

end ClassBrowser
