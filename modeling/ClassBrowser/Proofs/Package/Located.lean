import ClassBrowser.Proofs.Package.Contents
import ClassBrowser.Proofs.Package.Segments

/-!
# Members in depth-first order

Where the members of a hierarchy stand, and what a new member does to the depth-first list.

A hierarchy of names is `Placed` when the labels around each member and its own are the pieces of
its name and the depth-first list ascends.  A greater name goes to the end of that list
(`Placed.located_ensureAt`), although it may be added deep inside: if the first package on its way
is there already, the names of that package and the new one have all further names in between, so
nothing can stand behind that package.
-/

namespace ClassBrowser.Contents

open Text (Loose)

variable {c inner : Contents} {s : String} {path : List String} {leaf m : Member}
  {f : Contents → Contents}

/-! ## Look-up in the depth-first list -/

theorem head?_ne_of_package?_eq_none (h : c.package? s = none) {x : List String × Member}
    (hx : x ∈ c.located) : x.1.head? ≠ some s := by
  induction c with
  | nil => simp [located] at hx
  | member m rest ih =>
    rcases List.mem_cons.1 hx with rfl | hrest
    · simp
    · exact ih h hrest
  | package u i rest _ ih =>
    have hu : u ≠ s := by
      rintro rfl
      simp [package?] at h
    rcases List.mem_append.1 hx with hinner | hrest
    · obtain ⟨y, -, rfl⟩ := List.mem_map.1 hinner
      simpa using hu
    · exact ih (by simpa [package?, hu] using h) hrest

theorem display_of_member? {d : String} (h : c.member? d = some m) : m.display = d := by
  induction c with
  | nil => simp [member?] at h
  | member n rest ih =>
    by_cases hn : n.display = d
    · obtain rfl : n = m := by simpa [member?, hn] using h
      exact hn
    · exact ih (by simpa [member?, hn] using h)
  | package u i rest _ ih => exact ih h

theorem not_mem_located_of_member?_eq_none (h : c.member? m.display = none) :
    ([], m) ∉ c.located := by
  intro hm
  induction c with
  | nil => simp [located] at hm
  | member n rest ih =>
    have hne : n.display ≠ m.display := by
      intro heq
      simp [member?, heq] at h
    rcases List.mem_cons.1 hm with heq | hrest
    · exact hne (congrArg Member.display (Prod.mk.inj heq).2).symm
    · exact ih (by simpa [member?, hne] using h) hrest
  | package u i rest _ ih =>
    rcases List.mem_append.1 hm with hinner | hrest
    · simp at hinner
    · exact ih h hrest

theorem mem_located_nil_iff (h : c.Unrepeated) :
    ([], m) ∈ c.located ↔ c.member? m.display = some m := by
  induction c with
  | nil => simp [located, member?]
  | member n rest ih =>
    obtain ⟨hn, hrest⟩ := h
    have hrest := ih hrest
    rw [located, List.mem_cons, member?]
    by_cases hd : n.display = m.display
    · rw [if_pos hd, Option.some.injEq]
      constructor
      · rintro (heq | hm)
        · exact (Prod.mk.inj heq).2.symm
        · exact absurd hm (not_mem_located_of_member?_eq_none (hd ▸ hn))
      · rintro rfl
        exact .inl rfl
    · have hne : (([], m) : List String × Member) ≠ ([], n) := by
        intro heq
        exact hd (congrArg Member.display (Prod.mk.inj heq).2).symm
      rw [if_neg hd]
      exact (or_iff_right hne).trans hrest
  | package u i rest _ ih =>
    rw [located, List.mem_append, member?]
    exact (or_iff_right (by simp)).trans (ih h.2.2)

theorem mem_located_cons_iff (h : c.Unrepeated) :
    (s :: path, m) ∈ c.located ↔
      ∃ inner, c.package? s = some inner ∧ (path, m) ∈ inner.located := by
  induction c with
  | nil => simp [located, package?]
  | member n rest ih => simpa [located, package?] using ih h.2
  | package u i rest _ ih =>
    obtain ⟨hu, -, hrest⟩ := h
    rw [located, List.mem_append, ih hrest, package?]
    by_cases hus : u = s
    · subst hus
      simp [hu]
    · simp [hus]

/-- The members of an inner package stand together, and nothing behind them is in a package of its
label. -/
theorem exists_located_eq_append (hs : c.package? s = some inner) (h : c.Unrepeated) :
    ∃ before behind,
      (∀ x ∈ behind, x.1.head? ≠ some s) ∧
      c.located = before ++ inner.located.map (fun x => (s :: x.1, x.2)) ++ behind ∧
      ∀ f, (c.modifyPackage s f).located =
        before ++ (f inner).located.map (fun x => (s :: x.1, x.2)) ++ behind := by
  induction c with
  | nil => simp [package?] at hs
  | member n rest ih =>
    obtain ⟨before, behind, hbehind, hloc, hmod⟩ := ih hs h.2
    refine ⟨([], n) :: before, behind, hbehind, ?_, ?_⟩
    · rw [located, hloc]
      rfl
    · intro f
      rw [modifyPackage, located, hmod]
      rfl
  | package u i rest _ ih =>
    obtain ⟨hu, -, hrest⟩ := h
    by_cases hus : u = s
    · subst hus
      obtain rfl : i = inner := by simpa [package?] using hs
      refine ⟨[], rest.located, fun x hx => head?_ne_of_package?_eq_none hu hx, rfl, fun f => ?_⟩
      rw [modifyPackage, if_pos rfl]
      rfl
    · obtain ⟨before, behind, hbehind, hloc, hmod⟩ := ih (by simpa [package?, hus] using hs) hrest
      refine ⟨i.located.map (fun x => (u :: x.1, x.2)) ++ before, behind, hbehind, ?_, ?_⟩
      · rw [located, hloc]
        simp only [List.append_assoc]
      · intro f
        rw [modifyPackage, if_neg hus, located, hmod]
        simp only [List.append_assoc]

/-! ## Additions at the end -/

theorem located_addMember (h : c.member? leaf.display = none) :
    (c.addMember leaf).located = c.located ++ [([], leaf)] := by
  induction c with
  | nil => rfl
  | member n rest ih =>
    have hne : n.display ≠ leaf.display := by
      intro heq
      simp [member?, heq] at h
    rw [addMember, if_neg hne, located, ih (by simpa [member?, hne] using h)]
    rfl
  | package u i rest _ ih =>
    rw [addMember, located, ih h, located, List.append_assoc]

theorem located_modifyPackage_addPackage (h : c.package? s = none) :
    ((c.addPackage s).modifyPackage s f).located =
      c.located ++ (f nil).located.map (fun x => (s :: x.1, x.2)) := by
  induction c with
  | nil => simp [addPackage, modifyPackage, located]
  | member n rest ih =>
    rw [addPackage, modifyPackage, located, ih h]
    rfl
  | package u i rest _ ih =>
    have hne : u ≠ s := by
      rintro rfl
      simp [package?] at h
    have hrest : rest.package? s = none := by simpa [package?, hne] using h
    calc
      (((package u i rest).addPackage s).modifyPackage s f).located =
          (package u i ((rest.addPackage s).modifyPackage s f)).located := by
        rw [addPackage, if_neg hne, modifyPackage, if_neg hne]
      _ = i.located.map (fun x => (u :: x.1, x.2)) ++
            (rest.located ++ (f nil).located.map (fun x => (s :: x.1, x.2))) := by
        rw [located, ih hrest]
      _ = (package u i rest).located ++ (f nil).located.map (fun x => (s :: x.1, x.2)) := by
        rw [located, List.append_assoc]

/-! ## Every package keeps a member -/

theorem members_modifyPackage_addPackage_ne_nil (hf : ∀ inner, (f inner).members ≠ [])
    (c : Contents) (s : String) : ((c.addPackage s).modifyPackage s f).members ≠ [] := by
  induction c with
  | nil => simpa [addPackage, modifyPackage, members] using hf nil
  | member n rest ih => simp [addPackage, modifyPackage, members]
  | package u i rest _ ih =>
    by_cases hus : u = s
    · rw [addPackage, if_pos hus, modifyPackage, if_pos hus, members]
      simp [hf i]
    · rw [addPackage, if_neg hus, modifyPackage, if_neg hus, members]
      simp [ih]

theorem Populated.modifyPackage_addPackage (h : c.Populated)
    (hf : ∀ inner, inner.Populated → (f inner).Populated)
    (hne : ∀ inner, (f inner).members ≠ []) (s : String) :
    ((c.addPackage s).modifyPackage s f).Populated := by
  induction c with
  | nil =>
    rw [addPackage, modifyPackage, if_pos rfl]
    exact ⟨hne nil, hf nil trivial, trivial⟩
  | member n rest ih => exact ih h
  | package u i rest _ ih =>
    obtain ⟨hi, hinner, hrest⟩ := h
    by_cases hus : u = s
    · rw [addPackage, if_pos hus, modifyPackage, if_pos hus]
      exact ⟨hne i, hf i hinner, hrest⟩
    · rw [addPackage, if_neg hus, modifyPackage, if_neg hus]
      exact ⟨hi, hinner, ih hrest⟩

theorem members_addMember_ne_nil (c : Contents) (leaf : Member) :
    (c.addMember leaf).members ≠ [] := by
  induction c with
  | nil => simp [addMember, members]
  | member n rest ih =>
    rw [addMember]
    split <;> simp [members]
  | package u i rest _ ih => simp [addMember, members, ih]

theorem Populated.addMember (h : c.Populated) (leaf : Member) : (c.addMember leaf).Populated := by
  induction c with
  | nil => trivial
  | member n rest ih =>
    rw [Contents.addMember]
    split
    · exact h
    · exact ih h
  | package u i rest _ ih => exact ⟨h.1, h.2.1, ih h.2.2⟩

theorem members_ensureAt_addMember_ne_nil (path : List String) (leaf : Member) (c : Contents) :
    (c.ensureAt path (addMember leaf)).members ≠ [] := by
  cases path with
  | nil => exact members_addMember_ne_nil c leaf
  | cons s path =>
    exact members_modifyPackage_addPackage_ne_nil
      (fun inner => members_ensureAt_addMember_ne_nil path leaf inner) c s

theorem Populated.ensureAt_addMember (h : c.Populated) (path : List String) (leaf : Member) :
    (c.ensureAt path (Contents.addMember leaf)).Populated := by
  induction path generalizing c with
  | nil => exact h.addMember leaf
  | cons s path ih =>
    exact h.modifyPackage_addPackage (fun _ hinner => ih hinner)
      (members_ensureAt_addMember_ne_nil path leaf) s

theorem Populated.package? (h : c.Populated) (hs : c.package? s = some inner) :
    inner.Populated ∧ inner.located ≠ [] := by
  induction c with
  | nil => simp [Contents.package?] at hs
  | member n rest ih => exact ih h hs
  | package u i rest _ ih =>
    obtain ⟨hi, hinner, hrest⟩ := h
    by_cases hus : u = s
    · obtain rfl : i = inner := by simpa [Contents.package?, hus] using hs
      refine ⟨hinner, fun hnil => hi ?_⟩
      rw [members_eq_map_located, hnil]
      rfl
    · exact ih hrest (by simpa [Contents.package?, hus] using hs)

/-! ## Hierarchies of ascending names -/

/-- The contents of the package `path` are those of a hierarchy of names in ascending order. -/
structure Placed (delimiter : Loose) (path : List String) (c : Contents) : Prop where
  unrepeated : c.Unrepeated
  populated : c.Populated
  pieces : ∀ x ∈ c.located, QualifiedName.pieces delimiter x.2.qualified =
    .ok (path ++ (x.1 ++ [x.2.display]))
  ascending : c.located.Pairwise fun x y => x.2.qualified < y.2.qualified

variable {delimiter : Loose} {around : List String}

theorem placed_nil (delimiter : Loose) (around : List String) : Placed delimiter around nil :=
  ⟨trivial, trivial, by simp [located], .nil⟩

theorem Placed.package? (h : Placed delimiter around c) (hs : c.package? s = some inner) :
    Placed delimiter (around ++ [s]) inner := by
  obtain ⟨before, behind, -, hloc, -⟩ := exists_located_eq_append hs h.unrepeated
  refine ⟨h.unrepeated.package? hs, (h.populated.package? hs).1, ?_, ?_⟩
  · intro x hx
    have hmem : (s :: x.1, x.2) ∈ c.located :=
      (mem_located_cons_iff h.unrepeated).2 ⟨inner, hs, hx⟩
    simpa using h.pieces _ hmem
  · have hasc := h.ascending
    rw [hloc, List.pairwise_append, List.pairwise_append, List.pairwise_map] at hasc
    exact hasc.1.2.1

/-- Behind the package of a greater name there is nothing. -/
theorem Placed.behind_eq_nil (h : Placed delimiter around c) (hs : c.package? s = some inner)
    (hleaf : QualifiedName.pieces delimiter leaf.qualified =
      .ok (around ++ (s :: path ++ [leaf.display])))
    (hlast : ∀ x ∈ c.located, x.2.qualified < leaf.qualified)
    {before behind : List (List String × Member)}
    (hloc : c.located = before ++ inner.located.map (fun x => (s :: x.1, x.2)) ++ behind)
    (hbehind : ∀ x ∈ behind, x.1.head? ≠ some s) : behind = [] := by
  rw [List.eq_nil_iff_forall_not_mem]
  intro z hz
  obtain ⟨y, hy⟩ := List.exists_mem_of_ne_nil _ (h.populated.package? hs).2
  have hymem : (s :: y.1, y.2) ∈ inner.located.map fun x => (s :: x.1, x.2) :=
    List.mem_map.2 ⟨y, hy, rfl⟩
  have hyc : (s :: y.1, y.2) ∈ c.located := by
    rw [hloc]
    exact List.mem_append_left _ (List.mem_append_right _ hymem)
  have hzc : z ∈ c.located := by
    rw [hloc]
    exact List.mem_append_right _ hz
  have hyz : y.2.qualified < z.2.qualified := by
    have hasc := h.ascending
    rw [hloc, List.pairwise_append] at hasc
    exact hasc.2.2 _ (List.mem_append_right _ hymem) z hz
  -- the name of `z` is between two names of the package `s`
  have hfirst : QualifiedName.pieces delimiter y.2.qualified =
      .ok ((around ++ [s]) ++ (y.1 ++ [y.2.display])) := by
    simpa using h.pieces _ hyc
  have hthird : QualifiedName.pieces delimiter leaf.qualified =
      .ok ((around ++ [s]) ++ (path ++ [leaf.display])) := by
    simpa using hleaf
  obtain ⟨rest, hrest, heq⟩ := QualifiedName.pieces_between hfirst (by simp) hthird (by simp)
    hyz.le (hlast z hzc).le (h.pieces z hzc)
  rw [List.append_assoc, List.append_cancel_left_eq] at heq
  rcases hz₁ : z.1 with _ | ⟨u, us⟩
  · rw [hz₁] at heq
    have hlen := congrArg List.length heq
    have hpos := List.length_pos_iff.2 hrest
    rw [List.nil_append, List.length_append, List.length_singleton, List.length_singleton] at hlen
    omega
  · rw [hz₁] at heq
    have hus : u = s := (List.cons.inj heq).1
    exact hbehind z hz (by rw [hz₁, hus]; rfl)

/-- A name greater than all others goes to the end of the depth-first list. -/
theorem Placed.located_ensureAt (h : Placed delimiter around c)
    (hleaf : QualifiedName.pieces delimiter leaf.qualified =
      .ok (around ++ (path ++ [leaf.display])))
    (hlast : ∀ x ∈ c.located, x.2.qualified < leaf.qualified) :
    (c.ensureAt path (addMember leaf)).located = c.located ++ [(path, leaf)] := by
  induction path generalizing c around with
  | nil =>
    refine located_addMember ?_
    rw [Option.eq_none_iff_forall_ne_some]
    intro m hm
    -- a member with the label of the new one has its name too
    have hdisplay := display_of_member? hm
    have hmem : ([], m) ∈ c.located := (mem_located_nil_iff h.unrepeated).2 (hdisplay ▸ hm)
    have hpieces := h.pieces _ hmem
    have hname : m.qualified = leaf.qualified := by
      rw [← QualifiedName.join_of_pieces hpieces, ← QualifiedName.join_of_pieces hleaf, hdisplay]
    exact absurd (hlast _ hmem) (by simp [hname])
  | cons s path ih =>
    rw [ensureAt]
    cases hs : c.package? s with
    | none =>
      have hnew := ih (placed_nil delimiter (around ++ [s])) (by simpa using hleaf)
        (by simp [located])
      rw [located_modifyPackage_addPackage hs, hnew]
      rfl
    | some inner =>
      obtain ⟨before, behind, hbehind, hloc, hmod⟩ := exists_located_eq_append hs h.unrepeated
      obtain rfl := h.behind_eq_nil hs hleaf hlast hloc hbehind
      have hinner := ih (h.package? hs) (by simpa using hleaf) (fun x hx => ?_)
      · rw [addPackage_eq_self (by simp [hs]), hmod, hinner, hloc]
        simp
      · exact hlast (s :: x.1, x.2) ((mem_located_cons_iff h.unrepeated).2 ⟨inner, hs, hx⟩)

theorem Placed.ensureAt (h : Placed delimiter around c)
    (hleaf : QualifiedName.pieces delimiter leaf.qualified =
      .ok (around ++ (path ++ [leaf.display])))
    (hlast : ∀ x ∈ c.located, x.2.qualified < leaf.qualified) :
    Placed delimiter around (c.ensureAt path (addMember leaf)) := by
  have hloc := h.located_ensureAt hleaf hlast
  refine ⟨h.unrepeated.ensureAt (fun _ hinner => hinner.addMember leaf) path,
    h.populated.ensureAt_addMember path leaf, ?_, ?_⟩
  · rw [hloc]
    intro x hx
    rcases List.mem_append.1 hx with hold | hnew
    · exact h.pieces x hold
    · obtain rfl := List.mem_singleton.1 hnew
      exact hleaf
  · rw [hloc, List.pairwise_append]
    refine ⟨h.ascending, List.pairwise_singleton _ _, ?_⟩
    intro x hx y hy
    obtain rfl := List.mem_singleton.1 hy
    exact hlast x hx

/-- Adding a member again changes nothing. -/
theorem ensureAt_eq_self (h : c.Unrepeated) (hmem : (path, leaf) ∈ c.located) :
    c.ensureAt path (addMember leaf) = c := by
  induction path generalizing c with
  | nil => exact addMember_eq_self ((mem_located_nil_iff h).1 hmem)
  | cons s path ih =>
    obtain ⟨inner, hs, hinner⟩ := (mem_located_cons_iff h).1 hmem
    rw [ensureAt, addPackage_eq_self (by simp [hs])]
    apply modifyPackage_eq_self
    intro i hi
    obtain rfl : inner = i := Option.some.inj (hs.symm.trans hi)
    exact ih (h.package? hs) hinner

end ClassBrowser.Contents
