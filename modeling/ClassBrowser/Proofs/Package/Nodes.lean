import ClassBrowser.Proofs.Package.Hierarchy
import Mathlib.Data.List.Induction

/-!
# Packages as linked nodes

The packages of a hierarchy under construction can also be kept as nodes of their own.  Nodes are
numbered in the order in which they are made, the root being the node 0; the table of a node leads
from the label of each inner package to the node of that package, and the table of prefixes leads
from each prefix met so far to the node that it stands for (`Nodes`).

A node is linked once, when it is made, so that the labels which lead to it are the only ones
(`Nodes.Formed`).  Because of that both forms of the construction go the same way: nodes lead where
packages do, and a prefix is bound to the node of the package that it is bound to
(`Nodes.InStep`, `Nodes.after_spec`).
-/

namespace ClassBrowser

open Text (Loose)
open QualifiedName (segments)

/-! ## Which packages there are after a change -/

namespace Contents

variable {c : Contents} {path p : List String} {s : String} {f : Contents → Contents}

/-- A member more makes no package. -/
theorem isSome_descend?_addMember (c : Contents) (m : Member) (p : List String) :
    ((c.addMember m).descend? p).isSome = (c.descend? p).isSome := by
  cases p with
  | nil => rfl
  | cons t p => rw [descend?, descend?, package?_addMember]

/-- A change inside a package makes no other package. -/
theorem isSome_descend?_modifyAt
    (h : ∀ c p, ((f c).descend? p).isSome = (c.descend? p).isSome) :
    ((modifyAt path f c).descend? p).isSome = (c.descend? p).isSome := by
  induction path generalizing c p with
  | nil => exact h c p
  | cons s path ih =>
    cases p with
    | nil => rfl
    | cons t p =>
      rw [descend?, descend?, modifyAt, package?_modifyPackage]
      split
      · next hst =>
        subst hst
        cases c.package? s with
        | none => rfl
        | some inner => exact ih
      · rfl

/-- Just one package is there that may not have been there before. -/
theorem isSome_descend?_addPackage (h : (c.descend? path).isSome) :
    ((modifyAt path (addPackage s) c).descend? p).isSome =
      (decide (p = path ++ [s]) || (c.descend? p).isSome) := by
  induction path generalizing c p with
  | nil =>
    cases p with
    | nil => simp [descend?]
    | cons t p =>
      rw [descend?, descend?, modifyAt, package?_addPackage]
      by_cases hst : s = t
      · subst hst
        cases hs : c.package? s with
        | none => cases p <;> simp [descend?, package?]
        | some inner => cases p <;> simp [descend?]
      · simp [hst, Ne.symm hst]
  | cons u path ih =>
    cases p with
    | nil => simp [descend?]
    | cons t p =>
      rw [descend?, descend?, modifyAt, package?_modifyPackage]
      by_cases hut : u = t
      · subst hut
        obtain ⟨inner, hu, hpath⟩ : ∃ inner, c.package? u = some inner ∧
            (inner.descend? path).isSome := by
          rw [descend?] at h
          cases hu : c.package? u with
          | none => simp [hu] at h
          | some inner => exact ⟨inner, rfl, by simpa [hu] using h⟩
        rw [if_pos rfl, hu]
        simpa using ih hpath
      · simp [hut, Ne.symm hut]

end Contents

namespace Package

/-- The hierarchy under construction after some names, the invalid ones being left out. -/
def Builder.after (delimiter : Loose) (names : List String) : Builder :=
  (names.foldl (addOrSkip delimiter) (.empty, [])).1

/-! ## Nodes -/

/-- Packages as nodes: the table of each node by its number, and the node of every prefix. -/
structure Nodes where
  tables : List (Assoc String Nat)
  lookup : Assoc String Nat
deriving DecidableEq, Repr

namespace Nodes

/-- Only the root is there; it stands for the empty prefix. -/
def start : Nodes := ⟨[[]], [("", 0)]⟩

/-- The number of nodes. -/
def size (g : Nodes) : Nat := g.tables.length

/-- The node of the inner package of a label. -/
def child? (g : Nodes) (node : Nat) (s : String) : Option Nat := (g.tables[node]?).bind (·.get? s)

/-- The node that labels lead to from the root. -/
def follow? (g : Nodes) (path : List String) : Option Nat := path.foldlM g.child? 0

/-- Makes sure that a node has an inner package of a label, and gives the node of that. -/
def addPackage (g : Nodes) (node : Nat) (s : String) : Nat × Nodes :=
  match g.child? node s with
  | some found => (found, g)
  | none =>
    (g.size, { g with tables := (g.tables.modify node (·.insert s g.size)) ++ [[]] })

/-- Goes from a node, whose prefix is `joined`, to the nodes of further segments and adds those that
have no node yet; gives the last one. -/
def enter (delimiter : Loose) : List String → (joined : String) → (node : Nat) → Nodes → Nat × Nodes
  | [], _, node, g => (node, g)
  | s :: rest, joined, node, g =>
    let joined := if joined.isEmpty then s else joined ++ delimiter.text ++ s
    match g.lookup.get? joined with
    | some found => enter delimiter rest joined found g
    | none =>
      let added := g.addPackage node s
      enter delimiter rest joined added.1 ⟨added.2.tables, g.lookup.insert joined added.1⟩

/-- Adds the packages of a name, unless it is invalid. -/
def add (delimiter : Loose) (g : Nodes) (name : String) : Nodes :=
  match segments delimiter name with
  | .ok parts => (enter delimiter parts.dropLast "" 0 g).2
  | .error _ => g

/-- The nodes after some names. -/
def after (delimiter : Loose) (names : List String) : Nodes := names.foldl (add delimiter) start

/-- Whether nodes form a tree: each is reached from the root, in one way only. -/
structure Formed (g : Nodes) : Prop where
  reached : ∀ node, node < g.size ↔ ∃ path, g.follow? path = some node
  lone : ∀ p q node, g.follow? p = some node → g.follow? q = some node → p = q

/-- Whether nodes lead where packages do, each prefix being bound to a package and to its node. -/
structure InStep (g : Nodes) (b : Builder) : Prop where
  paths : ∀ path, (g.follow? path).isSome = (b.contents.descend? path).isSome
  bound : ∀ key, key ≠ "" → (g.lookup.get? key).map some = (b.packages.get? key).map g.follow?

variable {g : Nodes} {b : Builder} {delimiter : Loose} {node x : Nat} {s t : String}
  {p path segs : List String}

@[simp] theorem follow?_nil (g : Nodes) : g.follow? [] = some 0 := rfl

theorem follow?_concat (g : Nodes) (p : List String) (s : String) :
    g.follow? (p ++ [s]) = (g.follow? p).bind (g.child? · s) := by
  rw [follow?, follow?, List.foldlM_append]
  simp only [List.foldlM_cons, List.foldlM_nil, bind_pure]
  rfl

theorem child?_eq_none (h : g.size ≤ node) (s : String) : g.child? node s = none := by
  rw [child?, List.getElem?_eq_none h, Option.bind_none]

/-! ## A package more -/

/-- A new node has no inner packages, and one label leads to it. -/
theorem child?_addPackage (h : g.child? node s = none) (hnode : node < g.size) :
    (g.addPackage node s).2.child? x t =
      if x = node ∧ t = s then some (g.addPackage node s).1 else g.child? x t := by
  have hadd : g.addPackage node s = (g.size,
      ⟨g.tables.modify node (·.insert s g.size) ++ [[]], g.lookup⟩) := by
    rw [addPackage, h]
  have hsize : (g.tables.modify node (·.insert s g.size)).length = g.size :=
    List.length_modify _ _ _
  rw [hadd]
  show (((g.tables.modify node (·.insert s g.size) ++ [[]])[x]?).bind (·.get? t)) = _
  rcases lt_or_ge x g.size with hx | hx
  · rw [List.getElem?_append_left (hx.trans_eq hsize.symm), List.getElem?_modify, child?]
    by_cases hxn : node = x
    · subst hxn
      rw [List.getElem?_eq_getElem hx]
      simp [Assoc.get?_insert, eq_comm]
    · simp [hxn, Ne.symm hxn]
  · rw [child?_eq_none hx, if_neg (by omega), List.getElem?_append_right (hsize.trans_le hx)]
    cases x - (g.tables.modify node (·.insert s g.size)).length <;> simp

/-- Labels lead where they led before, and those of the added package lead to its node. -/
theorem Formed.follow?_addPackage (h : g.Formed) (hpath : g.follow? path = some node)
    (s : String) (p : List String) :
    (g.addPackage node s).2.follow? p =
      if p = path ++ [s] then some (g.addPackage node s).1 else g.follow? p := by
  cases hs : g.child? node s with
  | some found =>
    have hadd : g.addPackage node s = (found, g) := by rw [addPackage, hs]
    rw [hadd]
    split
    · next hp => rw [hp, follow?_concat, hpath, Option.bind_some, hs]
    · rfl
  | none =>
    have hnode : node < g.size := (h.reached node).2 ⟨path, hpath⟩
    have hnew : (g.addPackage node s).1 = g.size := by rw [addPackage, hs]
    induction p using List.reverseRecOn with
    | nil => simp
    | append_singleton q t ih =>
      rw [follow?_concat, ih, follow?_concat]
      by_cases hq : q = path ++ [s]
      · -- below the new node there is nothing yet
        subst hq
        have hbelow : (g.addPackage node s).2.child? g.size t = none := by
          rw [child?_addPackage hs hnode, if_neg (by omega), child?_eq_none le_rfl]
        have hmissing : g.follow? (path ++ [s]) = none := by
          rw [follow?_concat, hpath, Option.bind_some, hs]
        rw [if_pos rfl, if_neg (by simp), hnew, hmissing]
        exact hbelow
      · rw [if_neg hq]
        cases hx : g.follow? q with
        | none =>
          have hne : q ++ [t] ≠ path ++ [s] := by
            intro heq
            rw [(List.append_inj' heq rfl).1, hpath] at hx
            cases hx
          rw [if_neg hne]
          rfl
        | some x =>
          -- only the labels of the package lead to the node that is changed
          have hwhere : (x = node ∧ t = s) ↔ q ++ [t] = path ++ [s] := by
            constructor
            · rintro ⟨rfl, rfl⟩
              rw [h.lone q path x hx hpath]
            · intro heq
              obtain ⟨rfl, ht⟩ := List.append_inj' heq rfl
              exact ⟨Option.some.inj (hx.symm.trans hpath), List.singleton_injective ht⟩
          rw [Option.bind_some, Option.bind_some, child?_addPackage hs hnode]
          simp only [hwhere]

/-- Labels that led to a node lead to it still. -/
theorem Formed.follow?_addPackage_of_some (h : g.Formed) (hpath : g.follow? path = some node)
    (s : String) (hp : g.follow? p = some x) : (g.addPackage node s).2.follow? p = some x := by
  rw [h.follow?_addPackage hpath]
  split
  · next heq =>
    rw [heq, follow?_concat, hpath, Option.bind_some] at hp
    rw [addPackage, hp]
  · exact hp

theorem Formed.of_tables (h : g.Formed) (lookup : Assoc String Nat) : Formed ⟨g.tables, lookup⟩ :=
  ⟨h.reached, h.lone⟩

theorem Formed.addPackage (h : g.Formed) (hpath : g.follow? path = some node) (s : String) :
    (g.addPackage node s).2.Formed := by
  cases hs : g.child? node s with
  | some found =>
    have hadd : g.addPackage node s = (found, g) := by rw [Nodes.addPackage, hs]
    rw [hadd]
    exact h
  | none =>
    have hnew : (g.addPackage node s).1 = g.size := by rw [Nodes.addPackage, hs]
    have hsize : (g.addPackage node s).2.size = g.size + 1 := by
      simp [Nodes.addPackage, hs, size]
    have hold : ∀ {q x}, g.follow? q = some x → x < g.size := fun hq => (h.reached _).2 ⟨_, hq⟩
    refine ⟨?_, ?_⟩
    · intro x
      simp only [h.follow?_addPackage hpath, hsize, hnew]
      constructor
      · intro hx
        rcases Nat.lt_succ_iff_lt_or_eq.1 hx with hlt | rfl
        · obtain ⟨q, hq⟩ := (h.reached x).1 hlt
          refine ⟨q, ?_⟩
          rw [if_neg, hq]
          rintro rfl
          simp [follow?_concat, hpath, hs] at hq
        · exact ⟨path ++ [s], if_pos rfl⟩
      · rintro ⟨q, hq⟩
        split at hq
        · obtain rfl := Option.some.inj hq
          exact Nat.lt_succ_self _
        · exact Nat.lt_succ_of_lt (hold hq)
    · intro p q x hp hq
      rw [h.follow?_addPackage hpath, hnew] at hp hq
      split at hp <;> split at hq
      · next hp' hq' => rw [hp', hq']
      · obtain rfl := Option.some.inj hp
        exact absurd (hold hq) (lt_irrefl _)
      · obtain rfl := Option.some.inj hq
        exact absurd (hold hp) (lt_irrefl _)
      · exact h.lone p q x hp hq

/-! ## Both forms in step -/

theorem inStep_start : start.InStep .empty := by
  refine ⟨?_, ?_⟩
  · intro path
    cases path with
    | nil => rfl
    | cons s path =>
      rw [follow?, List.foldlM_cons]
      rfl
  · intro key hkey
    rw [start, Assoc.get?, if_neg (Ne.symm hkey)]
    rfl

theorem formed_start : start.Formed := by
  have hfollow : ∀ path node, start.follow? path = some node ↔ path = [] ∧ node = 0 := by
    intro path node
    cases path with
    | nil => simp [eq_comm]
    | cons s path =>
      rw [follow?, List.foldlM_cons]
      simp [start, child?]
  refine ⟨?_, ?_⟩
  · intro node
    simp only [hfollow]
    simp [size, start]
  · intro p q node hp hq
    rw [((hfollow p node).1 hp).1, ((hfollow q node).1 hq).1]

theorem InStep.addPackage (h : g.InStep b) (hg : g.Formed) (hpath : g.follow? path = some node)
    (key s : String) :
    InStep ⟨(g.addPackage node s).2.tables, g.lookup.insert key (g.addPackage node s).1⟩
      ⟨b.contents.modifyAt path (·.addPackage s), b.packages.insert key (path ++ [s])⟩ := by
  have hfollow : ∀ p, follow? ⟨(g.addPackage node s).2.tables,
      g.lookup.insert key (g.addPackage node s).1⟩ p = (g.addPackage node s).2.follow? p :=
    fun _ => rfl
  have hthere : (b.contents.descend? path).isSome := by rw [← h.paths, hpath]; rfl
  refine ⟨fun p => ?_, fun k hk => ?_⟩
  · rw [hfollow, hg.follow?_addPackage hpath, Contents.isSome_descend?_addPackage hthere,
      ← h.paths]
    split <;> simp [*]
  · rw [Assoc.get?_insert, Assoc.get?_insert]
    split
    · rw [Option.map_some, Option.map_some, hfollow, hg.follow?_addPackage hpath, if_pos rfl]
    · have hold := h.bound k hk
      cases hfound : b.packages.get? k with
      | none => rw [hold, hfound]; rfl
      | some found =>
        rw [hfound, Option.map_some, Option.map_eq_some_iff] at hold
        obtain ⟨x, hx, hfollowed⟩ := hold
        rw [hx, Option.map_some, Option.map_some, hfollow,
          hg.follow?_addPackage_of_some hpath s hfollowed.symm]

/-- Both forms find the packages of further segments in the same tables, or add them there, and
end at the same package. -/
theorem InStep.enter (h : g.InStep b) (hg : g.Formed) (hpath : g.follow? path = some node)
    (hvalid : "" ∉ segs) (joined : String) :
    (enter delimiter segs joined node g).2.Formed ∧
      (enter delimiter segs joined node g).2.InStep (b.enter delimiter segs joined path).2 ∧
      (enter delimiter segs joined node g).2.follow? (b.enter delimiter segs joined path).1 =
        some (enter delimiter segs joined node g).1 := by
  induction segs generalizing path joined node g b with
  | nil => exact ⟨hg, h, hpath⟩
  | cons s segs ih =>
    have hs : s ≠ "" := fun heq => hvalid (by simp [heq])
    have hsegs : "" ∉ segs := fun hmem => hvalid (List.mem_cons_of_mem _ hmem)
    rw [Nodes.enter, Builder.enter]
    generalize hkey : (if joined.isEmpty then s else joined ++ delimiter.text ++ s) = key
    have hne : key ≠ "" := by
      rw [← hkey]
      split <;> simp [hs]
    have hbound := h.bound key hne
    cases hfound : b.packages.get? key with
    | some found =>
      rw [hfound, Option.map_some, Option.map_eq_some_iff] at hbound
      obtain ⟨x, hx, hfollow⟩ := hbound
      rw [hx]
      exact ih h hg hfollow.symm hsegs key
    | none =>
      rw [hfound, Option.map_none, Option.map_eq_none_iff] at hbound
      rw [hbound]
      have hnew : (g.addPackage node s).2.follow? (path ++ [s]) =
          some (g.addPackage node s).1 := by
        rw [hg.follow?_addPackage hpath, if_pos rfl]
      exact ih (h.addPackage hg hpath key s) ((hg.addPackage hpath s).of_tables _) hnew hsegs key

/-- Going down from the root keeps both forms in step. -/
theorem InStep.enter_root (h : g.InStep b) (hg : g.Formed) (hvalid : "" ∉ segs) :
    (Nodes.enter delimiter segs "" 0 g).2.Formed ∧
      (Nodes.enter delimiter segs "" 0 g).2.InStep (b.enter delimiter segs "" []).2 ∧
      (Nodes.enter delimiter segs "" 0 g).2.follow? (b.enter delimiter segs "" []).1 =
        some (Nodes.enter delimiter segs "" 0 g).1 :=
  h.enter hg (follow?_nil g) hvalid ""

theorem InStep.add (h : g.InStep b) (hg : g.Formed) (skipped : List Log.Record) (name : String) :
    (g.add delimiter name).Formed ∧
      (g.add delimiter name).InStep (addOrSkip delimiter (b, skipped) name).1 := by
  cases hname : segments delimiter name with
  | error e =>
    rw [addOrSkip_of_error hname, Nodes.add, hname]
    exact ⟨hg, h⟩
  | ok parts =>
    have hvalid := (QualifiedName.segments_eq_ok_iff.1 hname).2.2
    obtain ⟨hformed, hstep, -⟩ :=
      h.enter_root hg fun hmem => hvalid (List.dropLast_subset parts hmem)
    rw [addOrSkip_of_ok hname, Nodes.add, hname]
    refine ⟨hformed, fun p => ?_, hstep.bound⟩
    rw [hstep.paths]
    exact (Contents.isSome_descend?_modifyAt fun c => c.isSome_descend?_addMember _).symm

/-- **Nodes and packages**: after any names, nodes form a tree in which labels lead where they lead
among packages, and each prefix is bound to the node of its package. -/
theorem after_spec (delimiter : Loose) (names : List String) :
    (after delimiter names).Formed ∧
      (after delimiter names).InStep (Builder.after delimiter names) := by
  induction names using List.reverseRecOn with
  | nil => exact ⟨formed_start, inStep_start⟩
  | append_singleton names name ih =>
    obtain ⟨hformed, hstep⟩ := ih
    rw [after, Builder.after, List.foldl_concat, List.foldl_concat]
    exact hstep.add hformed _ name

/-! ## What stays -/

/-- A prefix keeps its node while further segments are entered. -/
theorem get?_lookup_enter {key : String} (hkey : g.lookup.get? key = some x)
    (segs : List String) (joined : String) (node : Nat) :
    (enter delimiter segs joined node g).2.lookup.get? key = some x := by
  induction segs generalizing joined node g with
  | nil => exact hkey
  | cons s segs ih =>
    rw [enter]
    generalize (if joined.isEmpty then s else joined ++ delimiter.text ++ s) = entered
    cases hfound : g.lookup.get? entered with
    | some found => exact ih hkey entered found
    | none =>
      refine ih ?_ entered _
      rw [Assoc.get?_insert, if_neg, hkey]
      rintro rfl
      rw [hkey] at hfound
      cases hfound

/-- A prefix keeps its node while further names are taken. -/
theorem get?_lookup_after_append {key : String} {names : List String}
    (hkey : (after delimiter names).lookup.get? key = some x) (more : List String) :
    (after delimiter (names ++ more)).lookup.get? key = some x := by
  induction more using List.reverseRecOn with
  | nil => rwa [List.append_nil]
  | append_singleton more name ih =>
    rw [← List.append_assoc, after, List.foldl_concat, add]
    split
    · exact get?_lookup_enter ih _ _ _
    · exact ih

end Nodes

end Package

end ClassBrowser
