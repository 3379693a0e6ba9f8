import ClassBrowser.Proofs.Assoc
import ClassBrowser.Proofs.Package.Contents

/-!
# The tables of a package

A package can be kept in three tables: its packages by their labels, its members by theirs, and the
labels of both in the order in which they first arrived.  The children are then looked up label by
label, which fails at a label that is in no table, and gives a child twice if its label stands there
twice.

`Contents.tables` are these three.  What is added to a package is added to its tables
(`Contents.tables_addPackage`, `Contents.tables_addMember`), and where no label is repeated the
look-up gives the children, each once and in order (`Contents.Unrepeated.children?_tables`).
-/

namespace ClassBrowser.Contents

/-- What a child of a package is known by there. -/
inductive Label
  | package (segment : String)
  | member (display : String)
deriving DecidableEq, Repr

namespace Label

/-- The label of a package. -/
def segment? : Label → Option String
  | package s => some s
  | member _ => none

/-- The label of a member. -/
def display? : Label → Option String
  | package _ => none
  | member d => some d

end Label

/-- Something that a package holds. -/
inductive Child
  | package (segment : String) (inner : Contents)
  | member (leaf : Member)
deriving DecidableEq, Repr

/-- The label of a child. -/
def Child.label : Child → Label
  | package s _ => .package s
  | member m => .member m.display

/-- The children of a package, in order. -/
def children : Contents → List Child
  | nil => []
  | member m rest => .member m :: rest.children
  | package s inner rest => .package s inner :: rest.children

/-- The tables of a package: packages and members by their labels, and all labels in order. -/
structure Tables where
  packages : Assoc String Contents
  members : Assoc String Member
  order : List Label
deriving DecidableEq, Repr

namespace Tables

/-- Makes sure that there is a package of a label; one that is there is left alone. -/
def addPackage (segment : String) (t : Tables) : Tables :=
  match t.packages.get? segment with
  | some _ => t
  | none => ⟨t.packages.insert segment nil, t.members, t.order ++ [.package segment]⟩

/-- Stores a member under its label, which goes to the end if it is new. -/
def addMember (leaf : Member) (t : Tables) : Tables :=
  ⟨t.packages, t.members.insert leaf.display leaf,
    if t.members.contains leaf.display then t.order else t.order ++ [.member leaf.display]⟩

/-- The child of a label. -/
def child? (t : Tables) : Label → Option Child
  | .package s => (t.packages.get? s).map (.package s)
  | .member d => (t.members.get? d).map .member

/-- The children in order, unless a label is in no table. -/
def children? (t : Tables) : Option (List Child) := t.order.mapM t.child?

end Tables

/-- The tables of what a package holds. -/
def tables : Contents → Tables
  | nil => ⟨[], [], []⟩
  | member m rest =>
    ⟨rest.tables.packages, (m.display, m) :: rest.tables.members,
      .member m.display :: rest.tables.order⟩
  | package s inner rest =>
    ⟨(s, inner) :: rest.tables.packages, rest.tables.members, .package s :: rest.tables.order⟩

variable {c : Contents} {s d : String} {leaf : Member}

/-! ## Looking up -/

theorem get?_packages_tables (c : Contents) (s : String) :
    c.tables.packages.get? s = c.package? s := by
  induction c with
  | nil => rfl
  | member m rest ih => exact ih
  | package u inner rest _ ih => rw [tables, Assoc.get?, package?, ih]

theorem get?_members_tables (c : Contents) (d : String) :
    c.tables.members.get? d = c.member? d := by
  induction c with
  | nil => rfl
  | member m rest ih => rw [tables, Assoc.get?, member?, ih]
  | package u inner rest _ ih => exact ih

/-! ## Adding -/

/-- Adding a package adds it to the tables. -/
theorem tables_addPackage (c : Contents) (s : String) :
    (c.addPackage s).tables = c.tables.addPackage s := by
  induction c with
  | nil => rfl
  | member m rest ih =>
    rw [addPackage, tables, ih, tables, Tables.addPackage, Tables.addPackage]
    cases rest.tables.packages.get? s <;> rfl
  | package u inner rest _ ih =>
    rw [addPackage, tables, Tables.addPackage, Assoc.get?]
    split
    · rfl
    · next hu =>
      rw [tables, ih, Tables.addPackage]
      cases rest.tables.packages.get? s with
      | none => simp [Assoc.insert, hu]
      | some found => rfl

/-- Adding a member adds it to the tables. -/
theorem tables_addMember (c : Contents) (leaf : Member) :
    (c.addMember leaf).tables = c.tables.addMember leaf := by
  induction c with
  | nil => rfl
  | member m rest ih =>
    rw [addMember, tables, Tables.addMember, Assoc.contains, Assoc.get?, Assoc.insert]
    split
    · next hm => simp [tables, hm]
    · rw [tables, ih, Tables.addMember, Assoc.contains]
      split <;> rfl
  | package u inner rest _ ih =>
    rw [addMember, tables, ih, tables, Tables.addMember, Tables.addMember]
    split <;> rfl

/-! ## The tables are in step -/

theorem order_tables (c : Contents) : c.tables.order = c.children.map Child.label := by
  induction c with
  | nil => rfl
  | member m rest ih => rw [tables, children, List.map_cons, ih]; rfl
  | package u inner rest _ ih => rw [tables, children, List.map_cons, ih]; rfl

theorem label_mem_order {child : Child} (h : child ∈ c.children) :
    child.label ∈ c.tables.order := by
  rw [order_tables]
  exact List.mem_map_of_mem h

/-- The packages are those whose labels stand in the order. -/
theorem keys_packages_tables (c : Contents) :
    c.tables.packages.keys = c.tables.order.filterMap Label.segment? := by
  induction c with
  | nil => rfl
  | member m rest ih => exact ih
  | package u inner rest _ ih => exact congrArg (u :: ·) ih

/-- The members are those whose labels stand in the order. -/
theorem keys_members_tables (c : Contents) :
    c.tables.members.keys = c.tables.order.filterMap Label.display? := by
  induction c with
  | nil => rfl
  | member m rest ih => exact congrArg (m.display :: ·) ih
  | package u inner rest _ ih => exact ih

theorem length_children (c : Contents) :
    c.children.length = c.tables.packages.length + c.tables.members.length := by
  induction c with
  | nil => rfl
  | member m rest ih =>
    simp only [children, tables, List.length_cons, ih]
    omega
  | package u inner rest _ ih =>
    simp only [children, tables, List.length_cons, ih]
    omega

theorem package_mem_order_iff (c : Contents) (s : String) :
    .package s ∈ c.tables.order ↔ (c.package? s).isSome := by
  rw [← get?_packages_tables, Option.isSome_iff_exists, ← Assoc.mem_keys_iff,
    keys_packages_tables, List.mem_filterMap]
  constructor
  · exact fun h => ⟨_, h, rfl⟩
  · rintro ⟨label, hlabel, hs⟩
    cases label with
    | member d => cases hs
    | package u => rwa [← Option.some.inj hs]

theorem member_mem_order_iff (c : Contents) (d : String) :
    .member d ∈ c.tables.order ↔ (c.member? d).isSome := by
  rw [← get?_members_tables, Option.isSome_iff_exists, ← Assoc.mem_keys_iff,
    keys_members_tables, List.mem_filterMap]
  constructor
  · exact fun h => ⟨_, h, rfl⟩
  · rintro ⟨label, hlabel, hd⟩
    cases label with
    | package u => cases hd
    | member e => rwa [← Option.some.inj hd]

theorem Unrepeated.nodup_order (h : c.Unrepeated) : c.tables.order.Nodup := by
  induction c with
  | nil => exact .nil
  | member m rest ih =>
    obtain ⟨hm, hrest⟩ := h
    rw [tables, List.nodup_cons, member_mem_order_iff, hm]
    exact ⟨Bool.false_ne_true, ih hrest⟩
  | package u inner rest _ ih =>
    obtain ⟨hu, -, hrest⟩ := h
    rw [tables, List.nodup_cons, package_mem_order_iff, hu]
    exact ⟨Bool.false_ne_true, ih hrest⟩

theorem child?_member_cons {label : Label} (h : label ≠ .member leaf.display) (rest : Contents) :
    (member leaf rest).tables.child? label = rest.tables.child? label := by
  cases label with
  | package s => rfl
  | member d =>
    have hd : leaf.display ≠ d := fun heq => h (heq ▸ rfl)
    rw [Tables.child?, tables, Assoc.get?, if_neg hd, Tables.child?]

theorem child?_package_cons {label : Label} (h : label ≠ .package s) (inner rest : Contents) :
    (package s inner rest).tables.child? label = rest.tables.child? label := by
  cases label with
  | member d => rfl
  | package u =>
    have hu : s ≠ u := fun heq => h (heq ▸ rfl)
    rw [Tables.child?, tables, Assoc.get?, if_neg hu, Tables.child?]

/-- Every child is found by its label. -/
theorem Unrepeated.child?_label (h : c.Unrepeated) :
    ∀ child ∈ c.children, c.tables.child? child.label = some child := by
  have hnodup := h.nodup_order
  induction c with
  | nil => simp [children]
  | member m rest ih =>
    obtain ⟨hm, hrest⟩ := List.nodup_cons.1 hnodup
    refine List.forall_mem_cons.2 ⟨?_, fun child hchild => ?_⟩
    · simp [Child.label, Tables.child?, tables, Assoc.get?]
    · rw [child?_member_cons, ih h.2 hrest child hchild]
      intro heq
      exact hm (heq ▸ label_mem_order hchild)
  | package s inner rest _ ih =>
    obtain ⟨hs, hrest⟩ := List.nodup_cons.1 hnodup
    refine List.forall_mem_cons.2 ⟨?_, fun child hchild => ?_⟩
    · simp [Child.label, Tables.child?, tables, Assoc.get?]
    · rw [child?_package_cons, ih h.2.2 hrest child hchild]
      intro heq
      exact hs (heq ▸ label_mem_order hchild)

theorem mapM_child?_labels {t : Tables} {l : List Child}
    (h : ∀ child ∈ l, t.child? child.label = some child) :
    (l.map Child.label).mapM t.child? = some l := by
  induction l with
  | nil => rfl
  | cons child l ih =>
    obtain ⟨hchild, hrest⟩ := List.forall_mem_cons.1 h
    rw [List.map_cons, List.mapM_cons, hchild, ih hrest]
    rfl

/-- Looking the labels up in order gives the children. -/
theorem Unrepeated.children?_tables (h : c.Unrepeated) :
    c.tables.children? = some c.children := by
  rw [Tables.children?, order_tables]
  exact mapM_child?_labels h.child?_label

end ClassBrowser.Contents
