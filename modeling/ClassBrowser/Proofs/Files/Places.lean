import ClassBrowser.Files.Edit

/-!
# Places after a change

A path that can be followed at all goes on from directories only (`locate_cases`,
`walk_cons_eq_ok_iff`).  So what is put in the place of anything but a directory does not change
where other paths lead (`walk_set`), and what is found where a path leads after a file was written
is what was written there.
-/

namespace ClassBrowser

open Text (Loose)

/-- Whether a path can be followed at all: it is a name, and no longer than a path may be. -/
structure Path.IsFollowable (p : Path) : Prop where
  name : p.toLoose.nameFault? = none
  short : p.toLoose.byteSize ≤ Files.maxPathBytes

namespace Files

variable {fs fs' : Files} {p q : Path} {place above at_ : Place} {node : Node} {content : Content}
  {part : Loose} {rest : List Loose}

/-! ## Following a path -/

theorem walk_cons (habove : fs.node? above = some .directory)
    (hpart : ¬ maxNameBytes < part.byteSize) :
    fs.walk p above (part :: rest) = fs.walk p (Path.step above part) rest := by
  rw [walk, habove]
  exact if_neg hpart

/-- A path goes on from a directory only, and only to a component that is not too long. -/
theorem walk_cons_eq_ok_iff :
    fs.walk p above (part :: rest) = .ok place ↔
      fs.node? above = some .directory ∧ ¬ maxNameBytes < part.byteSize ∧
        fs.walk p (Path.step above part) rest = .ok place := by
  constructor
  · intro h
    rw [walk] at h
    split at h
    · cases h
    · next habove =>
      split at h
      · cases h
      · next hpart => exact ⟨habove, hpart, h⟩
    · cases h
  · rintro ⟨habove, hpart, h⟩
    rw [walk_cons habove hpart, h]

/-- A path that cannot be followed is refused whatever there is in the files. -/
theorem locate_cases (fs : Files) (p : Path) :
    (p.IsFollowable ∧
        fs.locate p = fs.walk p (if p.anchor = .relative then cwd.parts else []) p.parts) ∨
      (∃ fault, fs.locate p = .error (.name fault)) ∨
      maxPathBytes < p.toLoose.byteSize ∧ fs.locate p = .error (.refused .nameTooLong p) := by
  unfold locate
  cases hname : p.toLoose.nameFault? with
  | some fault => exact .inr (.inl ⟨fault, rfl⟩)
  | none =>
    by_cases hlong : maxPathBytes < p.toLoose.byteSize
    · exact .inr (.inr ⟨hlong, if_pos hlong⟩)
    · exact .inl ⟨⟨hname, Nat.not_lt.1 hlong⟩, if_neg hlong⟩

theorem locate_of_isFollowable (h : p.IsFollowable) (fs : Files) :
    fs.locate p = fs.walk p (if p.anchor = .relative then cwd.parts else []) p.parts := by
  unfold locate
  rw [h.name]
  exact if_neg (Nat.not_lt.2 h.short)

theorem isFollowable_of_locate (h : fs.locate p = .ok place) : p.IsFollowable := by
  obtain ⟨hp, -⟩ | ⟨fault, herror⟩ | ⟨-, herror⟩ := fs.locate_cases p
  · exact hp
  · cases h.symm.trans herror
  · cases h.symm.trans herror

theorem isFollowable_of_notFound (h : fs.locate p = .error (.refused .notFound q)) :
    p.IsFollowable := by
  obtain ⟨hp, -⟩ | ⟨fault, herror⟩ | ⟨-, herror⟩ := fs.locate_cases p
  · exact hp
  · cases h.symm.trans herror
  · cases h.symm.trans herror

theorem walk_of_locate (h : fs.locate p = .ok place) :
    fs.walk p (if p.anchor = .relative then cwd.parts else []) p.parts = .ok place :=
  (locate_of_isFollowable (isFollowable_of_locate h) fs).symm.trans h

/-! ## Putting something in a place -/

theorem node?_set (fs : Files) (place : Place) (node : Node) (q : Place) :
    (fs.set place node).node? q = if place = q then some node else fs.node? q :=
  Assoc.get?_insert fs.nodes place q node

theorem node?_set_self (fs : Files) (place : Place) (node : Node) :
    (fs.set place node).node? place = some node := by
  rw [node?_set, if_pos rfl]

/-- Where a path leads does not depend on what stands at a place that holds no directory. -/
theorem walk_set {parts : List Loose} (h : fs.walk p above parts = .ok place)
    (hat : fs.node? at_ ≠ some .directory) : (fs.set at_ node).walk p above parts = .ok place := by
  induction parts generalizing above with
  | nil => exact h
  | cons part rest ih =>
    obtain ⟨habove, hpart, hrest⟩ := walk_cons_eq_ok_iff.1 h
    have hne : at_ ≠ above := by
      rintro rfl
      exact hat habove
    have hset : (fs.set at_ node).node? above = some .directory := by
      rw [node?_set, if_neg hne, habove]
    exact walk_cons_eq_ok_iff.2 ⟨hset, hpart, ih hrest⟩

theorem locate_set (h : fs.locate p = .ok place) (hat : fs.node? at_ ≠ some .directory) :
    (fs.set at_ node).locate p = .ok place := by
  rw [locate_of_isFollowable (isFollowable_of_locate h)]
  exact walk_set (walk_of_locate h) hat

theorem get_eq_ok (h : fs.locate p = .ok place) (hnode : fs.node? place = some node) :
    fs.get p = .ok node := by
  rw [get, h]
  dsimp only [bind, Except.bind]
  rw [hnode]

theorem exists_locate_of_get (h : fs.get p = .ok node) :
    ∃ place, fs.locate p = .ok place ∧ fs.node? place = some node := by
  cases hlocate : fs.locate p with
  | error e =>
    rw [get, hlocate] at h
    cases h
  | ok place =>
    rw [get, hlocate] at h
    dsimp only [bind, Except.bind] at h
    split at h
    · next hnode => exact ⟨place, rfl, Except.ok.inj h ▸ hnode⟩
    · cases h

/-- The entries of an archive are those of the node where its path leads. -/
theorem get_of_openZip {entries : Entries} (h : fs.openZip p = .ok (.ok entries)) :
    ∃ executable, fs.get p = .ok (.file (.zip entries) executable) := by
  cases hget : fs.get p with
  | error e =>
    rw [openZip, hget] at h
    cases h
  | ok node =>
    rw [openZip, hget] at h
    cases node with
    | directory => cases h
    | program runs played => cases h
    | file content executable =>
      have hopened : content.opened = .ok entries := Except.ok.inj h
      cases content with
      | bytes data => cases hopened
      | damaged fault => cases hopened
      | zip found =>
        obtain rfl := Except.ok.inj hopened
        exact ⟨executable, rfl⟩

/-- What is left where the path leads when a file was replaced. -/
theorem replace_eq_ok {data : ByteArray} (h : fs.replace p data = .ok fs') :
    ∃ place executable, fs'.locate p = .ok place ∧
      fs'.node? place = some (.file (.bytes data) executable) := by
  cases hlocate : fs.locate p with
  | error e =>
    rw [replace, hlocate] at h
    cases h
  | ok place =>
    rw [replace, hlocate] at h
    have hfile : fs.node? place ≠ some .directory ∧ fs' = fs.setContent place (.bytes data) := by
      dsimp only [bind, Except.bind] at h
      split at h
      · cases h
      · next hne =>
        split at h
        · exact ⟨hne, (Except.ok.inj h).symm⟩
        · cases h
    obtain ⟨hne, rfl⟩ := hfile
    exact ⟨place, _, locate_set hlocate hne, node?_set_self _ _ _⟩

theorem replace_of_locate (h : fs.locate p = .ok place) (hne : fs.node? place ≠ some .directory)
    (htakes : fs.device.refusal? place = none) (data : ByteArray) :
    fs.replace p data = .ok (fs.setContent place (.bytes data)) := by
  rw [replace, h]
  dsimp only [bind, Except.bind]
  split
  · next hdirectory => exact absurd hdirectory hne
  · rw [htakes]
    rfl

theorem put_of_locate (h : fs.locate p = .ok place) (content : Content) :
    fs.put p content = fs.setContent place content := by
  simp only [put, h]

/-- What stands where a path leads once another content was put there. -/
theorem get_setContent (h : fs.locate p = .ok place) (hne : fs.node? place ≠ some .directory)
    (content : Content) :
    ∃ executable, (fs.setContent place content).get p = .ok (.file content executable) :=
  ⟨_, get_eq_ok (locate_set h hne) (node?_set_self _ _ _)⟩

end Files

end ClassBrowser
