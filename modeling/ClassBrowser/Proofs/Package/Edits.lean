import ClassBrowser.Proofs.Package.Tables

/-!
# Editing a hierarchy

Packages and members are added one after the other to packages of a hierarchy that is empty at
first.  An edit names the package by the labels that lead to it, and there must be one.

An edit changes what one package holds.  A package around that one keeps its own level, that is all
but what is inside its packages (`exists_descend?_modifyAt`), and one elsewhere is left alone
altogether (`descend?_modifyAt_of_not_isPrefix`).  So the own level of a package is what the changes
made right there come to, whatever else is edited (`Edited.level`).  From this the tables of every
package are in step with each other and with these changes (`afterEdits_inStep`).
-/

namespace ClassBrowser.Contents

/-! ## Changes of one package -/

/-- Something that is added to a package. -/
inductive Change
  | addPackage (segment : String)
  | addMember (leaf : Member)
deriving DecidableEq, Repr

namespace Change

/-- What a package holds after a change. -/
def apply : Change → Contents → Contents
  | addPackage s => Contents.addPackage s
  | addMember m => Contents.addMember m

/-- A change of the tables of a package. -/
def record : Change → Tables → Tables
  | addPackage s => Tables.addPackage s
  | addMember m => Tables.addMember m

/-- The label that is added. -/
def label : Change → Label
  | addPackage s => .package s
  | addMember m => .member m.display

/-- The member that is added, under its label. -/
def entry? : Change → Option (String × Member)
  | addPackage _ => none
  | addMember m => some (m.display, m)

end Change

variable {c c' inner : Contents} {change : Change} {changes : List Change}
  {path place : List String} {s : String} {leaf : Member} {f : Contents → Contents}

theorem tables_apply (change : Change) (c : Contents) :
    (change.apply c).tables = change.record c.tables := by
  cases change with
  | addPackage s => exact tables_addPackage c s
  | addMember m => exact tables_addMember c m

/-- A new label goes to the end. -/
theorem order_apply (change : Change) (c : Contents) :
    (change.apply c).tables.order =
      if change.label ∈ c.tables.order then c.tables.order
      else c.tables.order ++ [change.label] := by
  rw [tables_apply]
  cases change with
  | addPackage s =>
    simp only [Change.record, Tables.addPackage, Change.label, package_mem_order_iff,
      get?_packages_tables]
    cases c.package? s <;> rfl
  | addMember m =>
    simp only [Change.record, Tables.addMember, Change.label, member_mem_order_iff, Assoc.contains,
      get?_members_tables]

theorem Unrepeated.apply (h : c.Unrepeated) (change : Change) : (change.apply c).Unrepeated := by
  cases change with
  | addPackage s => exact h.addPackage s
  | addMember m => exact h.addMember m

/-- What a change makes of the children of a package.  A package that is there stays as it is, a
member that is there is replaced where it stands, and what is new goes to the end. -/
inductive Outcome (c : Contents) : Change → Contents → Prop
  | sharedPackage {s : String} {inner : Contents} (found : c.package? s = some inner) :
    Outcome c (.addPackage s) c
  | newPackage {s : String} {c' : Contents} (new : c.package? s = none)
    (children : c'.children = c.children ++ [.package s nil]) : Outcome c (.addPackage s) c'
  | replacedMember {old leaf : Member} {before behind : List Child} {c' : Contents}
    (found : old.display = leaf.display) (children : c.children = before ++ .member old :: behind)
    (children' : c'.children = before ++ .member leaf :: behind) : Outcome c (.addMember leaf) c'
  | newMember {leaf : Member} {c' : Contents} (new : c.member? leaf.display = none)
    (children : c'.children = c.children ++ [.member leaf]) : Outcome c (.addMember leaf) c'

theorem children_addPackage (h : c.package? s = none) :
    (c.addPackage s).children = c.children ++ [.package s nil] := by
  induction c with
  | nil => rfl
  | member m rest ih => exact congrArg (Child.member m :: ·) (ih h)
  | package u inner rest _ ih =>
    have hu : u ≠ s := by
      rintro rfl
      simp [package?] at h
    rw [addPackage, if_neg hu, children, ih (by simpa [package?, hu] using h)]
    rfl

theorem children_addMember (h : c.member? leaf.display = none) :
    (c.addMember leaf).children = c.children ++ [.member leaf] := by
  induction c with
  | nil => rfl
  | member m rest ih =>
    have hm : m.display ≠ leaf.display := by
      intro heq
      simp [member?, heq] at h
    rw [addMember, if_neg hm, children, ih (by simpa [member?, hm] using h)]
    rfl
  | package u inner rest _ ih => exact congrArg (Child.package u inner :: ·) (ih h)

/-- A member with the label of one that is there takes its place. -/
theorem exists_children_addMember {old : Member} (h : c.member? leaf.display = some old) :
    ∃ before behind, old.display = leaf.display ∧
      c.children = before ++ .member old :: behind ∧
      (c.addMember leaf).children = before ++ .member leaf :: behind := by
  induction c with
  | nil => cases h
  | member m rest ih =>
    rw [addMember]
    by_cases hm : m.display = leaf.display
    · obtain rfl : m = old := by simpa [member?, hm] using h
      exact ⟨[], rest.children, hm, rfl, by rw [if_pos hm]; rfl⟩
    · obtain ⟨before, behind, hold, hc, hc'⟩ := ih (by simpa [member?, hm] using h)
      refine ⟨.member m :: before, behind, hold, congrArg (Child.member m :: ·) hc, ?_⟩
      rw [if_neg hm]
      exact congrArg (Child.member m :: ·) hc'
  | package u inner rest _ ih =>
    obtain ⟨before, behind, hold, hc, hc'⟩ := ih h
    exact ⟨.package u inner :: before, behind, hold, congrArg (Child.package u inner :: ·) hc,
      congrArg (Child.package u inner :: ·) hc'⟩

theorem outcome_apply (change : Change) (c : Contents) : c.Outcome change (change.apply c) := by
  cases change with
  | addPackage s =>
    cases hs : c.package? s with
    | none => exact .newPackage hs (children_addPackage hs)
    | some inner =>
      rw [Change.apply, addPackage_eq_self (by simp [hs])]
      exact .sharedPackage hs
  | addMember leaf =>
    cases hd : c.member? leaf.display with
    | none => exact .newMember hd (children_addMember hd)
    | some old =>
      obtain ⟨before, behind, hold, hc, hc'⟩ := exists_children_addMember hd
      exact .replacedMember hold hc hc'

/-! ## The own level of a package -/

/-- What a package holds without what is inside its packages. -/
def bare : Contents → Contents
  | nil => nil
  | member m rest => member m rest.bare
  | package s _ rest => package s nil rest.bare

theorem tables_bare (c : Contents) :
    c.bare.tables = { c.tables with packages := c.tables.packages.map fun p => (p.1, nil) } := by
  induction c with
  | nil => rfl
  | member m rest ih => rw [bare, tables, tables, ih]
  | package s inner rest _ ih =>
    rw [bare, tables, tables, ih]
    rfl

theorem bare_apply (change : Change) (c : Contents) :
    (change.apply c).bare = change.apply c.bare := by
  induction c with
  | nil => cases change <;> rfl
  | member m rest ih =>
    cases change with
    | addPackage s => exact congrArg (member m) ih
    | addMember leaf =>
      simp only [Change.apply, addMember, bare]
      split
      · rfl
      · exact congrArg (member m) ih
  | package s inner rest _ ih =>
    cases change with
    | addPackage t =>
      simp only [Change.apply, addPackage, bare]
      split
      · rfl
      · exact congrArg (package s nil) ih
    | addMember leaf => exact congrArg (package s nil) ih

theorem bare_modifyPackage (c : Contents) (s : String) (f : Contents → Contents) :
    (c.modifyPackage s f).bare = c.bare := by
  induction c with
  | nil => rfl
  | member m rest ih => rw [modifyPackage, bare, ih, bare]
  | package u inner rest _ ih =>
    rw [modifyPackage]
    split
    · rfl
    · rw [bare, ih, bare]

/-- What changes make of an empty package. -/
def replay (changes : List Change) : Contents :=
  changes.foldl (fun c change => change.apply c) nil

theorem replay_concat (changes : List Change) (change : Change) :
    replay (changes ++ [change]) = change.apply (replay changes) := by
  rw [replay, List.foldl_append, List.foldl_cons, List.foldl_nil, replay]

/-- The labels stand in the order of their first appearance. -/
theorem order_replay (changes : List Change) :
    (replay changes).tables.order = (changes.map Change.label).eraseDups := by
  induction changes using List.reverseRecOn with
  | nil => rfl
  | append_singleton changes change ih =>
    calc
      (replay (changes ++ [change])).tables.order =
          if change.label ∈ (replay changes).tables.order then (replay changes).tables.order
          else (replay changes).tables.order ++ [change.label] := by
        rw [replay_concat, order_apply]
      _ = (changes.map Change.label ++ [change.label]).eraseDups := by
        rw [ih, Assoc.eraseDups_concat]
        simp only [List.mem_eraseDups]
      _ = ((changes ++ [change]).map Change.label).eraseDups := by
        rw [List.map_append, List.map_singleton]

theorem members_replay (changes : List Change) :
    (replay changes).tables.members = Assoc.insertAll [] (changes.filterMap Change.entry?) := by
  induction changes using List.reverseRecOn with
  | nil => rfl
  | append_singleton changes change ih =>
    have hnext : (replay (changes ++ [change])).tables.members =
        (change.record (replay changes).tables).members := by
      rw [replay_concat, tables_apply]
    rw [hnext, List.filterMap_append, Assoc.insertAll_append, ← ih]
    cases change with
    | addPackage s =>
      rw [Change.record, Tables.addPackage]
      split <;> rfl
    | addMember m => rfl

theorem tables_replay (changes : List Change) :
    (replay changes).tables =
      changes.foldl (fun t change => change.record t) ⟨[], [], []⟩ := by
  induction changes using List.reverseRecOn with
  | nil => rfl
  | append_singleton changes change ih =>
    rw [replay_concat, tables_apply, ih, List.foldl_append]
    rfl

/-- The tables of a package are in step with each other and with the changes made there. -/
structure InStep (changes : List Change) (c : Contents) : Prop where
  recorded : c.bare.tables = changes.foldl (fun t change => change.record t) ⟨[], [], []⟩
  order : c.tables.order = (changes.map Change.label).eraseDups
  nodup : c.tables.order.Nodup
  packages : c.tables.packages.keys = c.tables.order.filterMap Label.segment?
  members : c.tables.members.keys = c.tables.order.filterMap Label.display?
  latest : c.tables.members = Assoc.insertAll [] (changes.filterMap Change.entry?)
  children : c.tables.children? = some c.children
  labels : c.children.map Child.label = c.tables.order
  length : c.children.length = c.tables.packages.length + c.tables.members.length

theorem inStep_of_bare (h : c.Unrepeated) (hlevel : c.bare = replay changes) :
    c.InStep changes where
  recorded := by rw [hlevel, tables_replay]
  order := by rw [← order_replay, ← hlevel, tables_bare]
  nodup := h.nodup_order
  packages := keys_packages_tables c
  members := keys_members_tables c
  latest := by rw [← members_replay, ← hlevel, tables_bare]
  children := h.children?_tables
  labels := (order_tables c).symm
  length := length_children c

/-! ## Edits of a hierarchy -/

/-- A change of the package that a list of labels leads to. -/
structure Edit where
  path : List String
  change : Change
deriving DecidableEq, Repr

/-- The hierarchy after an edit of one of its packages. -/
def Edit.perform? (e : Edit) (c : Contents) : Option Contents :=
  (c.descend? e.path).map fun _ => c.modifyAt e.path e.change.apply

/-- The hierarchy that edits one after the other make of an empty package. -/
def afterEdits? (edits : List Edit) : Option Contents :=
  edits.foldlM (fun c e => e.perform? c) nil

/-- The changes made at one package. -/
def changesAt (path : List String) (edits : List Edit) : List Change :=
  (edits.filter (·.path = path)).map Edit.change

/-! ### What an edit leaves alone -/

theorem package?_apply (change : Change) (c : Contents) (s : String) :
    (change.apply c).package? s = c.package? s ∨
      change = .addPackage s ∧ c.package? s = none ∧ (change.apply c).package? s = some nil := by
  cases change with
  | addMember leaf => exact .inl (package?_addMember c leaf s)
  | addPackage t =>
    rw [Change.apply, package?_addPackage]
    by_cases hts : t = s
    · subst hts
      rw [if_pos rfl]
      cases c.package? t with
      | none => exact .inr ⟨rfl, rfl, rfl⟩
      | some inner => exact .inl rfl
    · rw [if_neg hts]
      exact .inl rfl

/-- A package that is neither the changed one nor around it stays as it is, and none comes into
being but an empty one in the changed package. -/
theorem descend?_modifyAt_of_not_isPrefix (h : ¬ path <+: place) (change : Change)
    (c : Contents) :
    descend? path (modifyAt place change.apply c) = descend? path c ∨
      ∃ s, change = .addPackage s ∧ path = place ++ [s] ∧ descend? path c = none ∧
        descend? path (modifyAt place change.apply c) = some nil := by
  induction place generalizing path c with
  | nil =>
    obtain ⟨t, rest, rfl⟩ := List.exists_cons_of_ne_nil fun hnil => h (hnil ▸ List.prefix_rfl)
    rw [modifyAt, descend?, descend?]
    rcases package?_apply change c t with heq | ⟨hchange, hnone, hnil⟩
    · rw [heq]
      exact .inl rfl
    · rw [hnone, hnil]
      cases rest with
      | nil => exact .inr ⟨t, hchange, rfl, rfl, rfl⟩
      | cons u rest => exact .inl rfl
  | cons u place ih =>
    obtain ⟨t, rest, rfl⟩ := List.exists_cons_of_ne_nil fun hnil : path = [] =>
      h (hnil ▸ List.nil_prefix)
    rw [modifyAt, descend?, descend?, package?_modifyPackage]
    by_cases hut : u = t
    · subst hut
      rw [if_pos rfl]
      cases c.package? u with
      | none => exact .inl rfl
      | some inner =>
        have hrest : ¬ rest <+: place := fun hp => h ((List.prefix_cons_inj u).2 hp)
        rcases ih hrest inner with heq | ⟨s, hchange, rfl, hnone, hnil⟩
        · exact .inl heq
        · exact .inr ⟨s, hchange, rfl, hnone, hnil⟩
    · rw [if_neg hut]
      exact .inl rfl

/-- The own level of a package around the changed one stays as it is. -/
theorem exists_descend?_modifyAt (h : path <+: place) (hne : path ≠ place)
    (hinner : descend? path c = some inner) (f : Contents → Contents) :
    ∃ inner', descend? path (modifyAt place f c) = some inner' ∧ inner'.bare = inner.bare := by
  obtain ⟨further, rfl⟩ := h
  obtain ⟨s, rest, rfl⟩ := List.exists_cons_of_ne_nil fun hnil : further = [] =>
    hne (by rw [hnil, List.append_nil])
  refine ⟨_, ?_, bare_modifyPackage inner s (modifyAt rest f)⟩
  rw [modifyAt_append, descend?_modifyAt, hinner]
  rfl

/-- What an edit makes of a hierarchy.  The edited package and its tables change as they are meant
to.  The package that is given for a label is that at the label, and where there was one before, it
is that one and nothing is changed at all.  Every other package is still there with the same own
level, and with the same contents unless it is around the edited one.  No other package comes into
being than an empty one that the edit adds. -/
structure Edit.Effect (e : Edit) (c c' : Contents) : Prop where
  edited : ∃ inner inner', c.descend? e.path = some inner ∧ c'.descend? e.path = some inner' ∧
    inner'.tables = e.change.record inner.tables ∧ inner.Outcome e.change inner'
  given : ∀ s, e.change = .addPackage s → ∃ inner, c.descend? e.path = some inner ∧
    c'.descend? (e.path ++ [s]) = some (inner.givenPackage s) ∧
      ∀ node, c.descend? (e.path ++ [s]) = some node → inner.givenPackage s = node ∧ c' = c
  others : ∀ path node, path ≠ e.path → c.descend? path = some node →
    ∃ node', c'.descend? path = some node' ∧ node'.bare = node.bare ∧
      (¬ path <+: e.path → node' = node)
  opened : ∀ path, c.descend? path = none → (c'.descend? path).isSome →
    ∃ s, e.change = .addPackage s ∧ path = e.path ++ [s] ∧ c'.descend? path = some nil

theorem Edit.exists_of_perform? {e : Edit} (h : e.perform? c = some c') :
    ∃ inner, c.descend? e.path = some inner ∧ c' = c.modifyAt e.path e.change.apply ∧
      c'.descend? e.path = some (e.change.apply inner) := by
  obtain ⟨inner, hinner, rfl⟩ := Option.map_eq_some_iff.1 h
  refine ⟨inner, hinner, rfl, ?_⟩
  rw [descend?_modifyAt, hinner]
  rfl

theorem Edit.effect {e : Edit} (h : e.perform? c = some c') : e.Effect c c' := by
  obtain ⟨inner, hinner, rfl, hedited⟩ := Edit.exists_of_perform? h
  refine ⟨⟨inner, _, hinner, hedited, tables_apply e.change inner, outcome_apply e.change inner⟩,
    ?_, ?_, ?_⟩
  · intro s hchange
    have hgiven : (e.change.apply inner).package? s = some (inner.givenPackage s) := by
      rw [hchange, Change.apply, package?_addPackage, if_pos rfl]
      rfl
    refine ⟨inner, hinner, ?_, ?_⟩
    · rw [descend?_concat, hedited, Option.bind_some, hgiven]
    · intro node hnode
      have hnode : inner.package? s = some node := by
        rwa [descend?_concat, hinner, Option.bind_some] at hnode
      refine ⟨by rw [givenPackage, hnode, Option.getD_some], ?_⟩
      refine modifyAt_eq_self fun found hfound => ?_
      obtain rfl := Option.some.inj (hinner.symm.trans hfound)
      rw [hchange]
      exact addPackage_eq_self (by rw [hnode, Option.isSome_some])
  · intro path node hne hnode
    by_cases hpath : path <+: e.path
    · obtain ⟨node', hnode', hbare⟩ := exists_descend?_modifyAt hpath hne hnode e.change.apply
      exact ⟨node', hnode', hbare, fun hnot => absurd hpath hnot⟩
    · rcases descend?_modifyAt_of_not_isPrefix hpath e.change c with heq | ⟨s, -, -, hnone, -⟩
      · exact ⟨node, heq.trans hnode, rfl, fun _ => rfl⟩
      · rw [hnode] at hnone
        cases hnone
  · intro path hnone hsome
    have hpath : ¬ path <+: e.path := by
      rintro ⟨further, heq⟩
      rw [← heq, descend?_append, hnone] at hinner
      cases hinner
    rcases descend?_modifyAt_of_not_isPrefix hpath e.change c with heq | ⟨s, hs, hat, -, hnil⟩
    · rw [heq, hnone] at hsome
      cases hsome
    · exact ⟨s, hs, hat, hnil⟩

/-! ### Any run of edits -/

theorem Unrepeated.modifyAt (h : c.Unrepeated)
    (hf : ∀ inner, inner.Unrepeated → (f inner).Unrepeated) (path : List String) :
    (c.modifyAt path f).Unrepeated := by
  induction path generalizing c with
  | nil => exact hf c h
  | cons s path ih => exact h.modifyPackage (fun _ hinner => ih hinner) s

theorem Unrepeated.descend? (h : c.Unrepeated) (hpath : c.descend? path = some inner) :
    inner.Unrepeated := by
  induction path generalizing c with
  | nil => exact Option.some.inj hpath ▸ h
  | cons s path ih =>
    obtain ⟨next, hnext, hrest⟩ := Option.bind_eq_some_iff.1 hpath
    exact ih (h.package? hnext) hrest

/-- A hierarchy after edits: every edited package is there, and the own level of every package is
what the changes made right there come to. -/
structure Edited (edits : List Edit) (c : Contents) : Prop where
  unrepeated : c.Unrepeated
  there : ∀ e ∈ edits, (c.descend? e.path).isSome
  level : ∀ path inner, c.descend? path = some inner →
    inner.bare = replay (changesAt path edits)

theorem edited_nil : Edited [] nil := by
  refine ⟨trivial, by simp, fun path inner hinner => ?_⟩
  cases path with
  | nil => exact (Option.some.inj hinner) ▸ rfl
  | cons s path => cases hinner

theorem changesAt_concat_self (edits : List Edit) (e : Edit) :
    changesAt e.path (edits ++ [e]) = changesAt e.path edits ++ [e.change] := by
  simp [changesAt]

theorem changesAt_concat_of_ne (edits : List Edit) {e : Edit} (h : path ≠ e.path) :
    changesAt path (edits ++ [e]) = changesAt path edits := by
  simp [changesAt, Ne.symm h]

theorem Edited.step {edits : List Edit} {e : Edit} (h : Edited edits c)
    (happly : e.perform? c = some c') : Edited (edits ++ [e]) c' := by
  have heffect := Edit.effect happly
  obtain ⟨inner, hinner, rfl, hedited⟩ := Edit.exists_of_perform? happly
  refine ⟨h.unrepeated.modifyAt (fun _ hi => hi.apply e.change) e.path, ?_, ?_⟩
  · intro e' he'
    rcases eq_or_ne e'.path e.path with heq | hne
    · rw [heq, hedited]
      rfl
    · have hmem : e' ∈ edits := by
        rcases List.mem_append.1 he' with hold | hnew
        · exact hold
        · exact absurd (congrArg Edit.path (List.mem_singleton.1 hnew)) hne
      obtain ⟨node, hnode⟩ := Option.isSome_iff_exists.1 (h.there e' hmem)
      obtain ⟨node', hnode', -⟩ := heffect.others _ _ hne hnode
      rw [hnode']
      rfl
  · intro path node hnode
    rcases eq_or_ne path e.path with rfl | hne
    · obtain rfl := Option.some.inj (hedited.symm.trans hnode)
      rw [changesAt_concat_self, replay_concat, bare_apply, h.level _ _ hinner]
    · rw [changesAt_concat_of_ne edits hne]
      cases hbefore : c.descend? path with
      | some old =>
        obtain ⟨node', hnode', hbare, -⟩ := heffect.others _ _ hne hbefore
        obtain rfl := Option.some.inj (hnode'.symm.trans hnode)
        rw [hbare, h.level _ _ hbefore]
      | none =>
        -- a package that has just come into being was not edited before
        obtain ⟨s, -, -, hnil⟩ := heffect.opened path hbefore (by rw [hnode]; rfl)
        obtain rfl := Option.some.inj (hnil.symm.trans hnode)
        have hnever : changesAt path edits = [] := by
          rw [changesAt, List.map_eq_nil_iff, List.filter_eq_nil_iff]
          intro e' he' hat
          have hthere := h.there e' he'
          rw [of_decide_eq_true hat, hbefore] at hthere
          cases hthere
        rw [hnever]
        rfl

theorem afterEdits?_concat (edits : List Edit) (e : Edit) :
    afterEdits? (edits ++ [e]) = (afterEdits? edits).bind e.perform? := by
  rw [afterEdits?, List.foldlM_append, ← afterEdits?]
  cases afterEdits? edits with
  | none => rfl
  | some c => exact bind_pure (e.perform? c)

theorem edited_of_afterEdits? {edits : List Edit} (h : afterEdits? edits = some c) :
    Edited edits c := by
  induction edits using List.reverseRecOn generalizing c with
  | nil => exact Option.some.inj h ▸ edited_nil
  | append_singleton edits e ih =>
    rw [afterEdits?_concat] at h
    obtain ⟨before, hbefore, happly⟩ := Option.bind_eq_some_iff.1 h
    exact (ih hbefore).step happly

/-- **Editing a hierarchy** keeps the tables of every package in step with each other and with the
changes made there, and each edit has its effect on the package that it is made at and on no
other. -/
theorem afterEdits_inStep {edits : List Edit} (h : afterEdits? edits = some c) :
    (∀ path inner, c.descend? path = some inner → inner.InStep (changesAt path edits)) ∧
      ∀ (e : Edit) (c' : Contents), e.perform? c = some c' → e.Effect c c' := by
  have hedited := edited_of_afterEdits? h
  refine ⟨fun path inner hinner => ?_, fun e c' happly => Edit.effect happly⟩
  exact inStep_of_bare (hedited.unrepeated.descend? hinner) (hedited.level path inner hinner)

/-- A package and a class of one label, a class that is replaced, a package that is added again, and
one more edit further down. -/
theorem afterEdits_inStep_sample :
    let edits : List Edit := [⟨[], .addPackage "p"⟩, ⟨["p"], .addMember ⟨"A", "p/A"⟩⟩,
      ⟨["p"], .addPackage "A"⟩, ⟨["p"], .addMember ⟨"B", "p/B"⟩⟩, ⟨[], .addMember ⟨"p", "p"⟩⟩,
      ⟨["p"], .addMember ⟨"A", "p.A"⟩⟩, ⟨[], .addPackage "p"⟩]
    let inner (sub : Contents) := member ⟨"A", "p.A"⟩ (package "A" sub (member ⟨"B", "p/B"⟩ nil))
    let whole (sub : Contents) := package "p" (inner sub) (member ⟨"p", "p"⟩ nil)
    let last : Edit := ⟨["p", "A"], .addMember ⟨"C", "p/A/C"⟩⟩
    afterEdits? edits = some (whole nil) ∧
      (inner nil).tables.order = [.member "A", .package "A", .member "B"] ∧
      (inner nil).InStep [.addMember ⟨"A", "p/A"⟩, .addPackage "A", .addMember ⟨"B", "p/B"⟩,
        .addMember ⟨"A", "p.A"⟩] ∧
      last.Effect (whole nil) (whole (member ⟨"C", "p/A/C"⟩ nil)) := by
  intro edits inner whole last
  have hrun : afterEdits? edits = some (whole nil) := by
    decide +kernel
  obtain ⟨hstep, heffect⟩ := afterEdits_inStep hrun
  exact ⟨hrun, rfl, hstep ["p"] (inner nil) (by decide +kernel), heffect last _ (by decide +kernel)⟩

end ClassBrowser.Contents
