import ClassBrowser.Proofs.Log

/-!
# Directories that are there

Where a directory is made, there is one afterwards (`hasDirectory_makeDirectories`), and where there
is one, nothing is made (`HasDirectory.makeDirectories`).  A directory stays as long as the files
change only so that no directory is taken away.
-/

namespace ClassBrowser.Files

open Text (Loose)

variable {fs fs' : Files} {p q : Path} {place above : Place} {parts : List Loose} {part : Loose}
  {left : Nat}

/-- Whether a path leads to a directory. -/
structure HasDirectory (fs : Files) (p : Path) : Prop where
  locate : fs.locate p = .ok p.place
  node : fs.node? p.place = some .directory

namespace HasDirectory

theorem of_directories (h : fs.HasDirectory p)
    (hstay : ∀ q, fs.node? q = some .directory → fs'.node? q = some .directory) :
    fs'.HasDirectory p :=
  ⟨locate_of_directories hstay h.locate, hstay _ h.node⟩

theorem logs {log : Option Place} (h : fs.HasDirectory p) (hlogs : fs.Logs log fs') :
    fs'.HasDirectory p :=
  h.of_directories fun q hq => (hlogs.node q).directory_iff.2 hq

theorem set {node : Node} (h : fs.HasDirectory p) (hne : fs.node? place ≠ some .directory) :
    (fs.set place node).HasDirectory p := by
  have hother : place ≠ p.place := fun heq => hne (heq ▸ h.node)
  exact ⟨locate_set h.locate hne, by rw [node?_set, if_neg hother, h.node]⟩

theorem makeMissing (h : fs.HasDirectory p) (left : Nat) :
    fs.makeMissing p left = (fs, .ok p.place) := by
  unfold Files.makeMissing
  simp only [h.locate, makeAt, h.node]

/-- Where there is a directory, nothing is made. -/
theorem makeDirectories (h : fs.HasDirectory p) : fs.makeDirectories p = (fs, .ok p.place) :=
  h.makeMissing maxMissing

end HasDirectory

/-! ## Making directories -/

/-- What stands in a directory is found from there, for a path that leads to the directory. -/
theorem walk_concat (h : fs.walk p above parts = .ok place)
    (hdirectory : fs.node? place = some .directory) (hname : ¬ maxNameBytes < part.byteSize) :
    fs.walk q above (parts ++ [part]) = .ok (Path.step place part) := by
  induction parts generalizing above with
  | nil =>
    obtain rfl := Except.ok.inj h
    simp [walk, hdirectory, hname]
  | cons first rest ih =>
    obtain ⟨habove, hfirst, hrest⟩ := walk_cons_eq_ok_iff.1 h
    exact walk_cons_eq_ok_iff.2 ⟨habove, hfirst, ih hrest⟩

/-- A path of which some directory is missing is one that can be followed at all. -/
theorem locate_of_parent (hparent : fs.HasDirectory p.parent) (hne : p.parent ≠ p)
    (hname : ¬ maxNameBytes < p.name.byteSize)
    (hmissing : fs'.locate p = .error (.refused .notFound q)) : fs.locate p = .ok p.place := by
  rw [locate_of_isFollowable (isFollowable_of_notFound hmissing), Path.parts_of_parent hne,
    Path.place_of_parent hne]
  exact walk_concat (walk_of_locate hparent.locate) hparent.node hname

theorem hasDirectory_makeAt (hlocate : fs.locate p = .ok place)
    (h : fs.makeAt q place = (fs', .ok above)) : fs'.HasDirectory p := by
  obtain rfl := locate_eq_ok hlocate
  unfold makeAt at h
  split at h
  · next hnone =>
    split at h
    · obtain ⟨rfl, -⟩ := Prod.mk.inj h
      exact ⟨locate_set hlocate (by rw [hnone]; nofun), node?_set_self _ _ _⟩
    · cases (Prod.mk.inj h).2
  · next hdirectory =>
    obtain ⟨rfl, -⟩ := Prod.mk.inj h
    exact ⟨hlocate, hdirectory⟩
  · cases (Prod.mk.inj h).2

/-- A directory that was made is there. -/
theorem hasDirectory_makeMissing (h : fs.makeMissing p left = (fs', .ok place)) :
    fs'.HasDirectory p := by
  fun_induction makeMissing fs p left generalizing fs' place with
  | case1 left p at_ hlocate => exact hasDirectory_makeAt hlocate h
  | case2 => cases (Prod.mk.inj h).2
  | case3 => cases (Prod.mk.inj h).2
  | case4 p q hmissing hparent left fs₁ above hmade ih =>
    have habove := ih hmade
    have hplace := (grows_makeMissing _ p.parent left).2 above (by rw [hmade])
    unfold makeIn at h
    split at h
    · cases (Prod.mk.inj h).2
    · next hname =>
      rw [hplace, ← Path.place_of_parent hparent] at h
      exact hasDirectory_makeAt (locate_of_parent habove hparent hname hmissing) h
  | case5 => cases (Prod.mk.inj h).2
  | case6 => cases (Prod.mk.inj h).2

theorem hasDirectory_makeDirectories (h : fs.makeDirectories p = (fs', .ok place)) :
    fs'.HasDirectory p :=
  hasDirectory_makeMissing h

/-! ## Files that agree -/

/-- Whether files are the same but for some places, and have the same directories and device. -/
structure Agrees (fs fs' : Files) (except : Place → Prop) : Prop where
  node : ∀ place, ¬ except place → fs'.node? place = fs.node? place
  directory : ∀ place, fs'.node? place = some .directory ↔ fs.node? place = some .directory
  device : fs'.device = fs.device

namespace Agrees

variable {fs₁ : Files} {except except' : Place → Prop} {node : Node} {log : Option Place}

theorem refl (fs : Files) (except : Place → Prop) : fs.Agrees fs except :=
  ⟨fun _ _ => rfl, fun _ => .rfl, rfl⟩

theorem logs (h : fs.Agrees fs₁ except) (hlogs : fs₁.Logs log fs')
    (hlog : ∀ place, log = some place → except place) : fs.Agrees fs' except := by
  refine ⟨fun place hplace => ?_, fun place => ?_, hlogs.device.trans h.device⟩
  · rw [(hlogs.node place).eq_of_ne fun heq => hplace (hlog place heq), h.node place hplace]
  · rw [(hlogs.node place).directory_iff, h.directory]

theorem hasDirectory (h : fs.Agrees fs' except) (hp : fs.HasDirectory p) : fs'.HasDirectory p :=
  hp.of_directories fun place => (h.directory place).2

theorem locate (h : fs.Agrees fs' except) (hp : fs.locate p = .ok place) :
    fs'.locate p = .ok place :=
  locate_of_directories (fun q => (h.directory q).2) hp

/-- Something is put at a place that had the same before, or does not count; after that the place is
none of the exceptions any more, unless it should be. -/
theorem set (h : fs.Agrees fs' except) (hexcept : ∀ q, except q → except' q ∨ place = q)
    (hbefore : fs.node? place ≠ some .directory) (hnode : node ≠ .directory)
    (hsame : ¬ except' place → fs.node? place = some node) :
    fs.Agrees (fs'.set place node) except' := by
  refine ⟨fun q hq => ?_, fun q => ?_, h.device⟩
  · rw [node?_set]
    split
    · next heq => rw [← heq, hsame (heq ▸ hq)]
    · next hne => exact h.node q fun hexcepted => (hexcept q hexcepted).elim hq hne
  · rw [node?_set]
    split
    · next heq => simp [← heq, hbefore, hnode]
    · exact h.directory q

end Agrees

end ClassBrowser.Files
