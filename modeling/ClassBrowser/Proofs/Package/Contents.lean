import ClassBrowser.Package.Basic
import Mathlib.Data.List.Basic

/-!
# Contents of packages

Laws of looking up, adding and changing what packages hold, and the invariants of a hierarchy that
grows by these: no label is repeated in a package (`Unrepeated`), and every package has a member
somewhere below it (`Populated`).

`located` is the depth-first list of the members with the labels of the packages around each of
them.  `ensureAt` changes the contents behind a list of labels and makes the missing packages on the
way; everything that a growing hierarchy does is of this form.
-/

namespace ClassBrowser.Contents

/-- Nothing in a package has the label of a package or of a member before it. -/
def Unrepeated : Contents → Prop
  | nil => True
  | member m rest => rest.member? m.display = none ∧ rest.Unrepeated
  | package s inner rest => rest.package? s = none ∧ inner.Unrepeated ∧ rest.Unrepeated

/-- Every package has a member below it. -/
def Populated : Contents → Prop
  | nil => True
  | member _ rest => rest.Populated
  | package _ inner rest => inner.members ≠ [] ∧ inner.Populated ∧ rest.Populated

/-- The members, depth first, each with the labels of the packages around it. -/
def located : Contents → List (List String × Member)
  | nil => []
  | member m rest => ([], m) :: rest.located
  | package s inner rest => inner.located.map (fun x => (s :: x.1, x.2)) ++ rest.located

/-- Changes the contents of the package that a list of labels leads to, which is added along with
the packages around it if it is missing. -/
def ensureAt : List String → (Contents → Contents) → Contents → Contents
  | [], change, c => change c
  | s :: path, change, c => (c.addPackage s).modifyPackage s (ensureAt path change)

variable {c inner : Contents} {s t : String} {path : List String} {leaf : Member}
  {f g : Contents → Contents}

theorem members_eq_map_located (c : Contents) : c.members = c.located.map Prod.snd := by
  induction c with
  | nil => rfl
  | member m rest ih => simp [members, located, ih]
  | package s inner rest ihi ihr => simp [members, located, ihi, ihr]

/-! ## Looking up what was added or changed -/

theorem package?_addPackage (c : Contents) (s t : String) :
    (c.addPackage s).package? t =
      if s = t then some ((c.package? s).getD nil) else c.package? t := by
  induction c with
  | nil => simp [addPackage, package?]
  | member m rest ih => simpa [addPackage, package?] using ih
  | package u inner rest _ ih =>
    by_cases hu : u = s
    · subst hu
      by_cases hst : u = t <;> simp [addPackage, package?, hst]
    · calc
        ((package u inner rest).addPackage s).package? t =
            if u = t then some inner
            else if s = t then some ((rest.package? s).getD nil) else rest.package? t := by
          rw [addPackage, if_neg hu, package?, ih]
        _ = if s = t then some ((rest.package? s).getD nil)
            else if u = t then some inner else rest.package? t :=
          ite_ite_comm _ _ _ _ fun hut hst => hu (hut.trans hst.symm)
        _ = if s = t then some (((package u inner rest).package? s).getD nil)
            else (package u inner rest).package? t := by
          rw [package?, package?, if_neg hu]

theorem member?_addPackage (c : Contents) (s d : String) :
    (c.addPackage s).member? d = c.member? d := by
  induction c with
  | nil => simp [addPackage, member?]
  | member m rest ih => simp [addPackage, member?, ih]
  | package u inner rest _ ih =>
    rw [addPackage]
    split
    · rfl
    · simpa [member?] using ih

theorem package?_addMember (c : Contents) (leaf : Member) (s : String) :
    (c.addMember leaf).package? s = c.package? s := by
  induction c with
  | nil => simp [addMember, package?]
  | member m rest ih =>
    rw [addMember]
    split
    · rfl
    · simpa [package?] using ih
  | package u inner rest _ ih => simp [addMember, package?, ih]

theorem member?_addMember (c : Contents) (leaf : Member) (d : String) :
    (c.addMember leaf).member? d = if leaf.display = d then some leaf else c.member? d := by
  induction c with
  | nil => simp [addMember, member?]
  | member m rest ih =>
    by_cases hm : m.display = leaf.display
    · by_cases hd : leaf.display = d <;> simp [addMember, member?, hm, hd]
    · calc
        ((member m rest).addMember leaf).member? d =
            if m.display = d then some m
            else if leaf.display = d then some leaf else rest.member? d := by
          rw [addMember, if_neg hm, member?, ih]
        _ = if leaf.display = d then some leaf
            else if m.display = d then some m else rest.member? d :=
          ite_ite_comm _ _ _ _ fun hmd hd => hm (hmd.trans hd.symm)
        _ = if leaf.display = d then some leaf else (member m rest).member? d := by rw [member?]
  | package u inner rest _ ih => simpa [addMember, member?] using ih

theorem package?_modifyPackage (c : Contents) (s t : String) (f : Contents → Contents) :
    (c.modifyPackage s f).package? t =
      if s = t then (c.package? s).map f else c.package? t := by
  induction c with
  | nil => simp [modifyPackage, package?]
  | member m rest ih => simpa [modifyPackage, package?] using ih
  | package u inner rest _ ih =>
    by_cases hu : u = s
    · subst hu
      by_cases hst : u = t <;> simp [modifyPackage, package?, hst]
    · calc
        ((package u inner rest).modifyPackage s f).package? t =
            if u = t then some inner
            else if s = t then (rest.package? s).map f else rest.package? t := by
          rw [modifyPackage, if_neg hu, package?, ih]
        _ = if s = t then (rest.package? s).map f
            else if u = t then some inner else rest.package? t :=
          ite_ite_comm _ _ _ _ fun hut hst => hu (hut.trans hst.symm)
        _ = if s = t then ((package u inner rest).package? s).map f
            else (package u inner rest).package? t := by
          rw [package?, package?, if_neg hu]

theorem member?_modifyPackage (c : Contents) (s d : String) (f : Contents → Contents) :
    (c.modifyPackage s f).member? d = c.member? d := by
  induction c with
  | nil => simp [modifyPackage]
  | member m rest ih => simp [modifyPackage, member?, ih]
  | package u inner rest _ ih =>
    rw [modifyPackage]
    split <;> simp [member?, ih]

theorem addPackage_eq_self (h : (c.package? s).isSome) : c.addPackage s = c := by
  induction c with
  | nil => simp [package?] at h
  | member m rest ih => rw [addPackage, ih h]
  | package u inner rest _ ih =>
    by_cases hu : u = s
    · simp [addPackage, hu]
    · rw [addPackage, if_neg hu, ih (by simpa [package?, hu] using h)]

theorem addMember_eq_self (h : c.member? leaf.display = some leaf) : c.addMember leaf = c := by
  induction c with
  | nil => simp [member?] at h
  | member m rest ih =>
    by_cases hm : m.display = leaf.display
    · obtain rfl : m = leaf := by simpa [member?, hm] using h
      simp [addMember]
    · rw [addMember, if_neg hm, ih (by simpa [member?, hm] using h)]
  | package u inner rest _ ih => rw [addMember, ih h]

theorem modifyPackage_eq_self (h : ∀ inner, c.package? s = some inner → f inner = inner) :
    c.modifyPackage s f = c := by
  induction c with
  | nil => rfl
  | member m rest ih => rw [modifyPackage, ih h]
  | package u inner rest _ ih =>
    by_cases hu : u = s
    · rw [modifyPackage, if_pos hu, h inner (by simp [package?, hu])]
    · rw [modifyPackage, if_neg hu, ih fun i hi => h i (by simpa [package?, hu] using hi)]

theorem modifyPackage_modifyPackage (c : Contents) (s : String) (f g : Contents → Contents) :
    (c.modifyPackage s g).modifyPackage s f = c.modifyPackage s (f ∘ g) := by
  induction c with
  | nil => rfl
  | member m rest ih => simp only [modifyPackage, ih]
  | package u inner rest _ ih =>
    by_cases hu : u = s
    · simp [modifyPackage, hu]
    · simp only [modifyPackage, if_neg hu, ih]

/-! ## Changes behind a list of labels -/

theorem descend?_append (path path' : List String) (c : Contents) :
    descend? (path ++ path') c = (descend? path c).bind (descend? path') := by
  induction path generalizing c with
  | nil => rfl
  | cons s path ih =>
    rw [List.cons_append, descend?, descend?, Option.bind_assoc]
    congr 1
    funext inner
    exact ih inner

theorem descend?_concat (path : List String) (s : String) (c : Contents) :
    descend? (path ++ [s]) c = (descend? path c).bind (package? s) := by
  rw [descend?_append]
  congr 1
  funext inner
  exact Option.bind_fun_some (inner.package? s)

theorem modifyAt_append (path path' : List String) (f : Contents → Contents) (c : Contents) :
    modifyAt (path ++ path') f c = modifyAt path (modifyAt path' f) c := by
  induction path generalizing c with
  | nil => rfl
  | cons s path ih =>
    rw [List.cons_append, modifyAt, modifyAt]
    congr 1
    funext inner
    exact ih inner

theorem modifyAt_modifyAt (path : List String) (f g : Contents → Contents) (c : Contents) :
    modifyAt path f (modifyAt path g c) = modifyAt path (f ∘ g) c := by
  induction path generalizing c with
  | nil => rfl
  | cons s path ih =>
    rw [modifyAt, modifyAt, modifyAt, modifyPackage_modifyPackage]
    congr 1
    funext inner
    exact ih inner

theorem modifyAt_eq_self (h : ∀ inner, descend? path c = some inner → f inner = inner) :
    modifyAt path f c = c := by
  induction path generalizing c with
  | nil => exact h c rfl
  | cons s path ih =>
    refine modifyPackage_eq_self fun inner hinner => ih fun last hlast => h last ?_
    rw [descend?, hinner]
    exact hlast

theorem descend?_modifyAt (path : List String) (f : Contents → Contents) (c : Contents) :
    descend? path (modifyAt path f c) = (descend? path c).map f := by
  induction path generalizing c with
  | nil => rfl
  | cons s path ih =>
    rw [descend?, modifyAt, package?_modifyPackage, if_pos rfl, descend?]
    cases c.package? s with
    | none => rfl
    | some inner => exact ih inner

/-- A package that was added is there. -/
theorem isSome_descend?_concat (hpath : (c.descend? path).isSome) (s : String) :
    ((c.modifyAt path (addPackage s)).descend? (path ++ [s])).isSome := by
  obtain ⟨inner, hinner⟩ := Option.isSome_iff_exists.1 hpath
  rw [descend?_concat, descend?_modifyAt, hinner]
  simp [package?_addPackage]

/-- Changes that lose no package. -/
def KeepsPackages (f : Contents → Contents) : Prop :=
  ∀ path c, (descend? path c).isSome → (descend? path (f c)).isSome

theorem keepsPackages_of_package?
    (h : ∀ c s inner, c.package? s = some inner → ((f c).package? s) = some inner) :
    KeepsPackages f := by
  intro path c hpath
  cases path with
  | nil => rfl
  | cons s path =>
    rw [descend?] at hpath ⊢
    cases hs : c.package? s with
    | none => simp [hs] at hpath
    | some inner =>
      rw [hs] at hpath
      rw [h c s inner hs]
      exact hpath

theorem keepsPackages_addPackage (s : String) : KeepsPackages (addPackage s) := by
  apply keepsPackages_of_package?
  intro c t inner ht
  rw [package?_addPackage]
  by_cases hst : s = t
  · simp [hst, ht]
  · simp [hst, ht]

theorem keepsPackages_addMember (leaf : Member) : KeepsPackages (addMember leaf) :=
  keepsPackages_of_package? fun c s inner hs => by rw [package?_addMember, hs]

theorem KeepsPackages.modifyPackage (h : KeepsPackages f) (s : String) :
    KeepsPackages (Contents.modifyPackage s f) := by
  intro path c hpath
  cases path with
  | nil => rfl
  | cons t path =>
    rw [descend?] at hpath ⊢
    rw [package?_modifyPackage]
    by_cases hst : s = t
    · subst hst
      cases hs : c.package? s with
      | none => simp [hs] at hpath
      | some inner =>
        rw [hs] at hpath
        simpa using h path inner hpath
    · rw [if_neg hst]
      exact hpath

theorem KeepsPackages.modifyAt (h : KeepsPackages f) (path : List String) :
    KeepsPackages (Contents.modifyAt path f) := by
  induction path with
  | nil => exact h
  | cons s path ih => exact ih.modifyPackage s

theorem modifyAt_ensureAt (path : List String) (f g : Contents → Contents) (c : Contents) :
    modifyAt path f (ensureAt path g c) = ensureAt path (f ∘ g) c := by
  induction path generalizing c with
  | nil => rfl
  | cons s path ih =>
    rw [modifyAt, ensureAt, ensureAt, modifyPackage_modifyPackage]
    congr 1
    funext inner
    exact ih inner

/-! ## Labels stay unrepeated -/

theorem Unrepeated.addPackage (h : c.Unrepeated) (s : String) :
    (c.addPackage s).Unrepeated := by
  induction c with
  | nil => exact ⟨rfl, trivial, trivial⟩
  | member m rest ih =>
    obtain ⟨hm, hrest⟩ := h
    refine ⟨?_, ih hrest⟩
    rw [member?_addPackage]
    exact hm
  | package u inner rest _ ih =>
    obtain ⟨hu, hinner, hrest⟩ := h
    by_cases hus : u = s
    · rw [Contents.addPackage, if_pos hus]
      exact ⟨hu, hinner, hrest⟩
    · rw [Contents.addPackage, if_neg hus]
      refine ⟨?_, hinner, ih hrest⟩
      rw [package?_addPackage, if_neg (Ne.symm hus)]
      exact hu

theorem Unrepeated.addMember (h : c.Unrepeated) (leaf : Member) :
    (c.addMember leaf).Unrepeated := by
  induction c with
  | nil => exact ⟨rfl, trivial⟩
  | member m rest ih =>
    obtain ⟨hm, hrest⟩ := h
    by_cases hd : m.display = leaf.display
    · rw [Contents.addMember, if_pos hd]
      exact ⟨hd ▸ hm, hrest⟩
    · rw [Contents.addMember, if_neg hd]
      refine ⟨?_, ih hrest⟩
      rw [member?_addMember, if_neg (Ne.symm hd)]
      exact hm
  | package u inner rest _ ih =>
    obtain ⟨hu, hinner, hrest⟩ := h
    refine ⟨?_, hinner, ih hrest⟩
    rw [package?_addMember]
    exact hu

theorem Unrepeated.modifyPackage (h : c.Unrepeated)
    (hf : ∀ inner, inner.Unrepeated → (f inner).Unrepeated) (s : String) :
    (c.modifyPackage s f).Unrepeated := by
  induction c with
  | nil => trivial
  | member m rest ih =>
    obtain ⟨hm, hrest⟩ := h
    refine ⟨?_, ih hrest⟩
    rw [member?_modifyPackage]
    exact hm
  | package u inner rest _ ih =>
    obtain ⟨hu, hinner, hrest⟩ := h
    by_cases hus : u = s
    · rw [Contents.modifyPackage, if_pos hus]
      exact ⟨hu, hf inner hinner, hrest⟩
    · rw [Contents.modifyPackage, if_neg hus]
      refine ⟨?_, hinner, ih hrest⟩
      rw [package?_modifyPackage, if_neg (Ne.symm hus)]
      exact hu

theorem Unrepeated.ensureAt (h : c.Unrepeated)
    (hf : ∀ inner, inner.Unrepeated → (f inner).Unrepeated) (path : List String) :
    (c.ensureAt path f).Unrepeated := by
  induction path generalizing c with
  | nil => exact hf c h
  | cons s path ih => exact (h.addPackage s).modifyPackage (fun _ hinner => ih hinner) s

theorem Unrepeated.package? (h : c.Unrepeated) (hs : c.package? s = some inner) :
    inner.Unrepeated := by
  induction c with
  | nil => simp [Contents.package?] at hs
  | member m rest ih => exact ih h.2 hs
  | package u i rest _ ih =>
    obtain ⟨-, hi, hrest⟩ := h
    by_cases hus : u = s
    · obtain rfl : i = inner := by simpa [Contents.package?, hus] using hs
      exact hi
    · exact ih hrest (by simpa [Contents.package?, hus] using hs)

end ClassBrowser.Contents
