import ClassBrowser.Proofs.Assoc
import ClassBrowser.Window.Basic
import Mathlib.Data.List.Nodup

/-!
# What the class tree shows

The items of the class tree are a plain list, each with the number of the item that it stands below.
Where a hierarchy is filled in, they are numbered depth first, so that what stands below an item has
its numbers behind it and in one piece (`Contents.itemsFrom`).  Read from the top, such a list shows
the hierarchy that it was made of (`mirrors_showTree`).
-/

namespace ClassBrowser

/-! ## Numbered items -/

namespace Contents

/-- The number of packages and members. -/
def size : Contents → Nat
  | nil => 0
  | member _ rest => rest.size + 1
  | package _ inner rest => inner.size + rest.size + 1

/-- The labels of all packages and members, depth first in the order of siblings. -/
def labels : Contents → List String
  | nil => []
  | member m rest => m.display :: labels rest
  | package s inner rest => s :: (labels inner ++ labels rest)

/-- The items that are filled in below a parent, numbered from `n` on. -/
def itemsFrom (n : Nat) (parent : Option Nat) : Contents → List Item
  | nil => []
  | member m rest => ⟨n, parent, m.display⟩ :: itemsFrom (n + 1) parent rest
  | package s inner rest =>
    ⟨n, parent, s⟩ ::
      (itemsFrom (n + 1) (some n) inner ++ itemsFrom (n + 1 + inner.size) parent rest)

/-- The members that leaves stand for, where the items are numbered from `n` on. -/
def leavesFrom (n : Nat) : Contents → Assoc Nat Member
  | nil => []
  | member m rest => (n, m) :: leavesFrom (n + 1) rest
  | package _ inner rest => leavesFrom (n + 1) inner ++ leavesFrom (n + 1 + inner.size) rest

variable {c : Contents} {n : Nat} {parent p : Option Nat} {i : Item}

theorem map_id_itemsFrom (n : Nat) (parent : Option Nat) (c : Contents) :
    (c.itemsFrom n parent).map Item.id = List.range' n c.size := by
  induction c generalizing n parent with
  | nil => rfl
  | member m rest ih => rw [itemsFrom, List.map_cons, ih, size, List.range'_succ]
  | package s inner rest ihinner ihrest =>
    calc
      ((package s inner rest).itemsFrom n parent).map Item.id =
          n :: ((inner.itemsFrom (n + 1) (some n)).map Item.id ++
            (rest.itemsFrom (n + 1 + inner.size) parent).map Item.id) := by
        rw [itemsFrom, List.map_cons, List.map_append]
      _ = n :: (List.range' (n + 1) inner.size ++
            List.range' (n + 1 + inner.size) rest.size) := by
        rw [ihinner, ihrest]
      _ = List.range' n (package s inner rest).size := by
        rw [List.range'_append_1, size, List.range'_succ]

theorem map_text_itemsFrom (n : Nat) (parent : Option Nat) (c : Contents) :
    (c.itemsFrom n parent).map Item.text = c.labels := by
  induction c generalizing n parent with
  | nil => rfl
  | member m rest ih => rw [itemsFrom, List.map_cons, ih, labels]
  | package s inner rest ihinner ihrest =>
    calc
      ((package s inner rest).itemsFrom n parent).map Item.text =
          s :: ((inner.itemsFrom (n + 1) (some n)).map Item.text ++
            (rest.itemsFrom (n + 1 + inner.size) parent).map Item.text) := by
        rw [itemsFrom, List.map_cons, List.map_append]
      _ = s :: (inner.labels ++ rest.labels) := by rw [ihinner, ihrest]
      _ = (package s inner rest).labels := by rw [labels]

theorem map_snd_leavesFrom (n : Nat) (c : Contents) :
    (c.leavesFrom n).map Prod.snd = c.members := by
  induction c generalizing n with
  | nil => rfl
  | member m rest ih => rw [leavesFrom, List.map_cons, ih, members]
  | package s inner rest ihinner ihrest =>
    rw [leavesFrom, List.map_append, ihinner, ihrest, members]

/-- An item stands below the given parent or below one of the others. -/
theorem parent_of_mem_itemsFrom (h : i ∈ c.itemsFrom n parent) :
    i.parent = parent ∨ ∃ k, i.parent = some k ∧ n ≤ k ∧ k < n + c.size := by
  induction c generalizing n parent with
  | nil => cases h
  | member m rest ih =>
    rw [itemsFrom, List.mem_cons] at h
    rcases h with rfl | hrest
    · exact .inl rfl
    · rcases ih hrest with htop | ⟨k, hk, hlow, hhigh⟩
      · exact .inl htop
      · exact .inr ⟨k, hk, by omega, by rw [size]; omega⟩
  | package s inner rest ihinner ihrest =>
    rw [itemsFrom, List.mem_cons, List.mem_append] at h
    rcases h with rfl | hinner | hrest
    · exact .inl rfl
    · rcases ihinner hinner with hfirst | ⟨k, hk, hlow, hhigh⟩
      · exact .inr ⟨n, hfirst, Nat.le_refl n, by rw [size]; omega⟩
      · exact .inr ⟨k, hk, by omega, by rw [size]; omega⟩
    · rcases ihrest hrest with htop | ⟨k, hk, hlow, hhigh⟩
      · exact .inl htop
      · exact .inr ⟨k, hk, by omega, by rw [size]; omega⟩

/-- None of the items stands below one that is not among them, the given parent apart. -/
theorem filter_itemsFrom_eq_nil (hparent : p ≠ parent)
    (hoff : ∀ k, p = some k → k < n ∨ n + c.size ≤ k) :
    (c.itemsFrom n parent).filter (fun i => i.parent = p) = [] := by
  rw [List.filter_eq_nil_iff]
  intro i hi hp
  rcases parent_of_mem_itemsFrom hi with htop | ⟨k, hk, hlow, hhigh⟩
  · exact hparent ((of_decide_eq_true hp).symm.trans htop)
  · have hrange := hoff k ((of_decide_eq_true hp).symm.trans hk)
    omega

theorem range_of_mem_leavesFrom {k : Nat} (h : k ∈ (c.leavesFrom n).keys) :
    n ≤ k ∧ k < n + c.size := by
  induction c generalizing n with
  | nil => cases h
  | member m rest ih =>
    rw [leavesFrom, Assoc.keys, List.map_cons, List.mem_cons] at h
    rw [size]
    rcases h with rfl | hrest
    · omega
    · have hrange := ih hrest
      omega
  | package s inner rest ihinner ihrest =>
    rw [leavesFrom, Assoc.keys, List.map_append, List.mem_append] at h
    rw [size]
    rcases h with hinner | hrest
    · have hrange := ihinner hinner
      omega
    · have hrange := ihrest hrest
      omega

theorem get?_leavesFrom_eq_none {k : Nat} (h : k < n ∨ n + c.size ≤ k) :
    (c.leavesFrom n).get? k = none := by
  rw [Assoc.get?_eq_none_iff]
  intro hk
  have hrange := range_of_mem_leavesFrom hk
  omega

end Contents

/-! ## Reading the tree -/

namespace Window

variable {w w' : Window} {c : Contents}

/-- Whether some siblings show contents: one item for each package and member, in order, with what a
package holds below its item.  A leaf stands for its member, and no other item for any. -/
def Shows (w : Window) : Contents → List Item → Prop
  | .nil, items => items = []
  | .member m rest, items => ∃ i behind, items = i :: behind ∧ i.text = m.display ∧
      w.childItems (some i.id) = [] ∧ w.members.get? i.id = some m ∧ w.Shows rest behind
  | .package s inner rest, items => ∃ i behind, items = i :: behind ∧ i.text = s ∧
      w.Shows inner (w.childItems (some i.id)) ∧ w.members.get? i.id = none ∧ w.Shows rest behind

/-- Whether the class tree shows contents and nothing else: read from the top it does, the items
have just the labels of the contents, depth first, and nothing is remembered but the members of the
leaves. -/
structure Mirrors (w : Window) (c : Contents) : Prop where
  shown : w.Shows c (w.childItems none)
  texts : w.items.map Item.text = c.labels
  distinct : (w.items.map Item.id).Nodup
  leaves : w.members.map Prod.snd = c.members
  known : ∀ id ∈ w.members.keys, id ∈ w.items.map Item.id

theorem shows_congr (hitems : w'.items = w.items) (hmembers : w'.members = w.members)
    (c : Contents) (items : List Item) : w'.Shows c items ↔ w.Shows c items := by
  have hchildren : w'.childItems = w.childItems := by
    funext parent
    rw [childItems, hitems, childItems]
  induction c generalizing items with
  | nil => rfl
  | member m rest ih => simp only [Shows, hchildren, hmembers, ih]
  | package s inner rest ihinner ihrest => simp only [Shows, hchildren, hmembers, ihinner, ihrest]

/-- What is shown depends on the items and on what they stand for only. -/
theorem Mirrors.congr (h : w.Mirrors c) (hitems : w'.items = w.items)
    (hmembers : w'.members = w.members) : w'.Mirrors c := by
  obtain ⟨hshown, htexts, hdistinct, hleaves, hknown⟩ := h
  rw [← hitems] at htexts hdistinct
  rw [← hmembers] at hleaves
  rw [← hitems, ← hmembers] at hknown
  refine ⟨?_, htexts, hdistinct, hleaves, hknown⟩
  rwa [childItems, hitems, shows_congr hitems hmembers]

/-- An empty tree shows nothing. -/
theorem mirrors_iff_of_items_eq_nil (hitems : w.items = []) (hmembers : w.members = []) :
    w.Mirrors c ↔ c = .nil := by
  constructor
  · intro h
    have htexts := h.texts
    rw [hitems] at htexts
    cases c with
    | nil => rfl
    | member => cases htexts
    | package => cases htexts
  · rintro rfl
    have hchildren : w.childItems none = [] := by
      rw [childItems, hitems]
      rfl
    refine ⟨hchildren, ?_, ?_, ?_, ?_⟩
    · rw [hitems]
      rfl
    · rw [hitems]
      exact List.nodup_nil
    · rw [hmembers]
      rfl
    · intro id hid
      rw [hmembers] at hid
      cases hid

/-! ## Filling the tree -/

theorem insertContents_eq (w : Window) (parent : Option Nat) (c : Contents)
    (h : ∀ id ∈ w.members.keys, id < w.nextItem) :
    w.insertContents parent c =
      { w with
        items := w.items ++ c.itemsFrom w.nextItem parent
        nextItem := w.nextItem + c.size
        members := w.members ++ c.leavesFrom w.nextItem } := by
  induction c generalizing w parent with
  | nil => simp [insertContents, Contents.itemsFrom, Contents.leavesFrom, Contents.size]
  | member m rest ih =>
    have hnew : w.nextItem ∉ w.members.keys := fun hmem => Nat.lt_irrefl _ (h _ hmem)
    rw [insertContents]
    dsimp only [insertItem]
    rw [ih]
    · simp [Contents.itemsFrom, Contents.leavesFrom, Contents.size, Assoc.insert_of_not_mem hnew,
        Nat.add_assoc, Nat.add_comm 1]
    · intro id hid
      rw [Assoc.insert_of_not_mem hnew, Assoc.keys, List.map_append, List.mem_append] at hid
      rcases hid with hold | hlast
      · exact Nat.lt_succ_of_lt (h id hold)
      · rw [List.mem_singleton.1 hlast]
        exact Nat.lt_succ_self _
  | package s inner rest ihinner ihrest =>
    rw [insertContents]
    dsimp only [insertItem]
    rw [ihinner, ihrest]
    · simp [Contents.itemsFrom, Contents.leavesFrom, Contents.size]
      omega
    · intro id hid
      rw [Assoc.keys, List.map_append, List.mem_append] at hid
      rcases hid with hold | hinner
      · have hbound := h id hold
        show id < w.nextItem + 1 + inner.size
        omega
      · exact (Contents.range_of_mem_leavesFrom hinner).2
    · intro id hid
      exact Nat.lt_succ_of_lt (h id hid)

theorem showTree_eq (w : Window) (tree : Package) :
    w.showTree tree =
      { w with
        items := tree.contents.itemsFrom w.nextItem none
        nextItem := w.nextItem + tree.contents.size
        members := tree.contents.leavesFrom w.nextItem } := by
  rw [showTree, insertContents_eq]
  · rfl
  · intro id hid
    cases hid

/-- Whether contents are filled in below a parent, from the number `n` on: the parent comes before
them, and what stands below one of their items, and for what, is told by them alone. -/
structure Holds (w : Window) (n : Nat) (parent : Option Nat) (c : Contents) : Prop where
  before : ∀ k, parent = some k → k < n
  below : ∀ k, n ≤ k → k < n + c.size →
    w.childItems (some k) = (c.itemsFrom n parent).filter fun i => i.parent = some k
  leaves : ∀ k, n ≤ k → k < n + c.size → w.members.get? k = (c.leavesFrom n).get? k

namespace Holds

variable {n k : Nat} {parent : Option Nat} {m : Member} {s : String} {inner rest : Contents}

theorem parent_ne (h : w.Holds n parent c) (hk : n ≤ k) : parent ≠ some k := by
  intro heq
  have hlow := h.before k heq
  omega

/-! ### A member -/

theorem childItems_member (h : w.Holds n parent (.member m rest)) : w.childItems (some n) = [] := by
  have hother := h.parent_ne (Nat.le_refl n)
  rw [h.below n (Nat.le_refl n) (by rw [Contents.size]; omega), Contents.itemsFrom,
    List.filter_cons_of_neg (by simpa using hother)]
  apply Contents.filter_itemsFrom_eq_nil hother.symm
  intro k hk
  cases hk
  omega

theorem get?_member (h : w.Holds n parent (.member m rest)) : w.members.get? n = some m := by
  rw [h.leaves n (Nat.le_refl n) (by rw [Contents.size]; omega), Contents.leavesFrom, Assoc.get?,
    if_pos rfl]

theorem behind_member (h : w.Holds n parent (.member m rest)) : w.Holds (n + 1) parent rest := by
  have hsize : (Contents.member m rest).size = rest.size + 1 := rfl
  refine ⟨?_, ?_, ?_⟩
  · intro k hk
    exact Nat.lt_succ_of_lt (h.before k hk)
  · intro k hlow hhigh
    have hother : parent ≠ some k := h.parent_ne (by omega)
    rw [h.below k (by omega) (by omega), Contents.itemsFrom,
      List.filter_cons_of_neg (by simpa using hother)]
  · intro k hlow hhigh
    rw [h.leaves k (by omega) (by omega), Contents.leavesFrom, Assoc.get?, if_neg (by omega)]

/-! ### A package -/

/-- What stands below an item comes from the contents of the package or from what is behind it. -/
theorem below_package (h : w.Holds n parent (.package s inner rest)) (hlow : n ≤ k)
    (hhigh : k < n + 1 + inner.size + rest.size) :
    w.childItems (some k) =
      (inner.itemsFrom (n + 1) (some n)).filter (fun i => i.parent = some k) ++
        (rest.itemsFrom (n + 1 + inner.size) parent).filter fun i => i.parent = some k := by
  rw [h.below k hlow (by rw [Contents.size]; omega), Contents.itemsFrom,
    List.filter_cons_of_neg (by simpa using h.parent_ne hlow), List.filter_append]

theorem leaves_package (h : w.Holds n parent (.package s inner rest)) (hlow : n ≤ k)
    (hhigh : k < n + 1 + inner.size + rest.size) :
    w.members.get? k = ((inner.leavesFrom (n + 1)).get? k).or
      ((rest.leavesFrom (n + 1 + inner.size)).get? k) := by
  rw [h.leaves k hlow (by rw [Contents.size]; omega), Contents.leavesFrom, Assoc.get?_append]

/-- Nothing behind a package stands below the package or below an item in it. -/
theorem below_inner (h : w.Holds n parent (.package s inner rest)) (hlow : n ≤ k)
    (hhigh : k < n + 1 + inner.size) :
    w.childItems (some k) =
      (inner.itemsFrom (n + 1) (some n)).filter fun i => i.parent = some k := by
  rw [h.below_package hlow (by omega),
    Contents.filter_itemsFrom_eq_nil (h.parent_ne hlow).symm, List.append_nil]
  intro k' hk'
  cases hk'
  omega

theorem get?_package (h : w.Holds n parent (.package s inner rest)) : w.members.get? n = none := by
  rw [h.leaves_package (Nat.le_refl n) (by omega),
    Contents.get?_leavesFrom_eq_none (.inl (Nat.lt_succ_self n)),
    Contents.get?_leavesFrom_eq_none (.inl (by omega)), Option.none_or]

theorem within_package (h : w.Holds n parent (.package s inner rest)) :
    w.Holds (n + 1) (some n) inner := by
  refine ⟨?_, fun k hlow hhigh => h.below_inner (by omega) hhigh, ?_⟩
  · intro k hk
    cases hk
    exact Nat.lt_succ_self n
  · intro k hlow hhigh
    rw [h.leaves_package (by omega) (by omega), Contents.get?_leavesFrom_eq_none (.inl hhigh),
      Option.or_none]

theorem behind_package (h : w.Holds n parent (.package s inner rest)) :
    w.Holds (n + 1 + inner.size) parent rest := by
  refine ⟨?_, ?_, ?_⟩
  · intro k hk
    have hlow := h.before k hk
    omega
  · intro k hlow hhigh
    rw [h.below_package (by omega) hhigh, Contents.filter_itemsFrom_eq_nil, List.nil_append]
    · intro heq
      cases heq
      omega
    · intro k' hk'
      cases hk'
      omega
  · intro k hlow hhigh
    rw [h.leaves_package (by omega) hhigh, Contents.get?_leavesFrom_eq_none (.inr hlow),
      Option.none_or]

/-- The items below the parent, apart from what is filled in elsewhere. -/
theorem filter_package (h : w.Holds n parent (.package s inner rest)) :
    ((Contents.package s inner rest).itemsFrom n parent).filter (fun i => i.parent = parent) =
      ⟨n, parent, s⟩ ::
        (rest.itemsFrom (n + 1 + inner.size) parent).filter fun i => i.parent = parent := by
  have hinner :
      (inner.itemsFrom (n + 1) (some n)).filter (fun i => i.parent = parent) = [] :=
    Contents.filter_itemsFrom_eq_nil (h.parent_ne (Nat.le_refl n)) fun k hk =>
      .inl (Nat.lt_succ_of_lt (h.before k hk))
  calc
    ((Contents.package s inner rest).itemsFrom n parent).filter (fun i => i.parent = parent) =
        ⟨n, parent, s⟩ :: (inner.itemsFrom (n + 1) (some n) ++
          rest.itemsFrom (n + 1 + inner.size) parent).filter fun i => i.parent = parent := by
      rw [Contents.itemsFrom, List.filter_cons_of_pos (by simp)]
    _ = ⟨n, parent, s⟩ ::
          (rest.itemsFrom (n + 1 + inner.size) parent).filter fun i => i.parent = parent := by
      rw [List.filter_append, hinner, List.nil_append]

/-- Items that are numbered depth first show what they were made of. -/
theorem shows (h : w.Holds n parent c) :
    w.Shows c ((c.itemsFrom n parent).filter fun i => i.parent = parent) := by
  induction c generalizing n parent with
  | nil => rfl
  | member m rest ih =>
    exact ⟨⟨n, parent, m.display⟩, _, List.filter_cons_of_pos (by simp), rfl, h.childItems_member,
      h.get?_member, ih h.behind_member⟩
  | package s inner rest ihinner ihrest =>
    refine ⟨⟨n, parent, s⟩, _, h.filter_package, rfl, ?_, h.get?_package, ihrest h.behind_package⟩
    rw [h.below_inner (Nat.le_refl n) (by omega)]
    exact ihinner h.within_package

end Holds

/-- The tree shows the hierarchy that was filled in last. -/
theorem mirrors_showTree (w : Window) (tree : Package) :
    (w.showTree tree).Mirrors tree.contents := by
  have hids := tree.contents.map_id_itemsFrom w.nextItem none
  rw [showTree_eq]
  refine ⟨?_, Contents.map_text_itemsFrom _ _ _, ?_, Contents.map_snd_leavesFrom _ _, ?_⟩
  · exact Holds.shows ⟨nofun, fun _ _ _ => rfl, fun _ _ _ => rfl⟩
  · rw [hids]
    exact List.nodup_range'
  · intro id hid
    rw [hids, List.mem_range'_1]
    exact Contents.range_of_mem_leavesFrom hid

end Window

end ClassBrowser
