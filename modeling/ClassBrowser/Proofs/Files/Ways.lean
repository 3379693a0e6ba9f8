import ClassBrowser.Proofs.Files.Places

/-!
# Ways to places

A path that leads anywhere leads to one place, whatever stands in the files (`locate_eq_ok`).
Making directories adds some on the way to that place, where nothing stood, and changes nothing else
(`grows_makeDirectories`); writing a file changes what stands at the place and nothing else.
Neither takes a directory away, and so what led somewhere before still leads there
(`locate_of_directories`).
-/

namespace ClassBrowser

open Text (Loose)

/-- Whether a path passes through a place or leads to it. -/
def Path.Passes (p : Path) (q : Place) : Prop := ∃ n, place { p with parts := p.parts.take n } = q

namespace Path

variable {p : Path} {q : Place}

theorem passes_place (p : Path) : p.Passes p.place :=
  ⟨p.parts.length, by rw [List.take_length]⟩

theorem passes_of_parent (h : p.parent.Passes q) : p.Passes q := by
  obtain ⟨n, rfl⟩ := h
  refine ⟨min n (p.parts.length - 1), ?_⟩
  rw [← List.take_take, ← List.dropLast_eq_take]
  rfl

theorem parts_of_parent (h : p.parent ≠ p) : p.parts = p.parent.parts ++ [p.name] := by
  have hne : p.parts ≠ [] := by
    intro hnil
    apply h
    rw [parent, hnil]
    exact congrArg (Path.mk p.anchor) hnil.symm
  rw [name, List.getLastD_eq_getLast?, List.getLast?_eq_some_getLast hne, Option.getD_some]
  exact (List.dropLast_concat_getLast hne).symm

theorem place_of_parent (h : p.parent ≠ p) : p.place = step p.parent.place p.name := by
  rw [place, parts_of_parent h, List.foldl_append, List.foldl_cons, List.foldl_nil]
  rfl

end Path

/-- Whether what has failed is a file that is broken off. -/
def FileError.isBreak : FileError → Bool
  | .brokenOff _ => true
  | .refused _ _ | .name _ | .tooDeep => false

/-- What gets in of a file is its beginning, and all of it if there is no obstacle. -/
theorem Device.take_cases (d : Device) (place : Place) (data : ByteArray) :
    d.take place data = (data, none) ∨
      ∃ obstacle size, d.take place data = (data.extract 0 size, some obstacle) := by
  unfold take
  split
  · exact .inl rfl
  · exact .inr ⟨_, _, rfl⟩

namespace Files

variable {fs fs' fs₁ fs₂ : Files} {p : Path} {place above q : Place} {way way' : Place → Prop}

theorem walk_eq_ok {parts : List Loose} (h : fs.walk p above parts = .ok place) :
    place = parts.foldl Path.step above := by
  induction parts generalizing above with
  | nil => exact (Except.ok.inj h).symm
  | cons part rest ih =>
    obtain ⟨-, -, hrest⟩ := walk_cons_eq_ok_iff.1 h
    exact ih hrest

theorem locate_eq_ok (h : fs.locate p = .ok place) : place = p.place :=
  walk_eq_ok (walk_of_locate h)

/-- A path leads where it led while the directories stay. -/
theorem walk_of_directories {parts : List Loose}
    (hstay : ∀ q, fs.node? q = some .directory → fs'.node? q = some .directory)
    (h : fs.walk p above parts = .ok place) : fs'.walk p above parts = .ok place := by
  induction parts generalizing above with
  | nil => exact h
  | cons part rest ih =>
    obtain ⟨habove, hpart, hrest⟩ := walk_cons_eq_ok_iff.1 h
    exact walk_cons_eq_ok_iff.2 ⟨hstay above habove, hpart, ih hrest⟩

theorem locate_of_directories
    (hstay : ∀ q, fs.node? q = some .directory → fs'.node? q = some .directory)
    (h : fs.locate p = .ok place) : fs'.locate p = .ok place := by
  rw [locate_of_isFollowable (isFollowable_of_locate h)]
  exact walk_of_directories hstay (walk_of_locate h)

/-! ## Making directories -/

/-- Whether all that happened to the files is that directories were made, at places of a kind where
nothing stood. -/
structure Grows (fs fs' : Files) (way : Place → Prop) : Prop where
  node : ∀ q, fs'.node? q = fs.node? q ∨
    (fs.node? q = none ∧ fs'.node? q = some .directory ∧ way q)
  device : fs'.device = fs.device

theorem Grows.refl (fs : Files) (way : Place → Prop) : fs.Grows fs way := ⟨fun _ => .inl rfl, rfl⟩

theorem Grows.mono (h : fs.Grows fs' way) (hway : ∀ q, way q → way' q) : fs.Grows fs' way' := by
  refine ⟨fun q => ?_, h.device⟩
  rcases h.node q with hsame | ⟨hnone, hmade, hq⟩
  · exact .inl hsame
  · exact .inr ⟨hnone, hmade, hway q hq⟩

theorem Grows.trans (h₁ : fs.Grows fs₁ way) (h₂ : fs₁.Grows fs₂ way) : fs.Grows fs₂ way := by
  refine ⟨fun q => ?_, h₂.device.trans h₁.device⟩
  rcases h₂.node q with hsame | ⟨hnone, hmade, hq⟩
  · rw [hsame]
    exact h₁.node q
  · rcases h₁.node q with hsame | ⟨-, hmade₁, -⟩
    · exact .inr ⟨hsame ▸ hnone, hmade, hq⟩
    · rw [hnone] at hmade₁
      cases hmade₁

theorem Grows.directory (h : fs.Grows fs' way) (hq : fs.node? q = some .directory) :
    fs'.node? q = some .directory := by
  rcases h.node q with hsame | ⟨-, hmade, -⟩
  · rw [hsame, hq]
  · exact hmade

theorem grows_makeAt (fs : Files) (p : Path) (place : Place) :
    fs.Grows (fs.makeAt p place).1 (· = place) := by
  unfold makeAt
  split
  · next hnone =>
    split
    · refine ⟨fun q => ?_, rfl⟩
      rw [node?_set]
      split
      · next heq => exact .inr ⟨heq ▸ hnone, rfl, heq.symm⟩
      · exact .inl rfl
    · exact .refl fs _
  · exact .refl fs _
  · exact .refl fs _

theorem makeAt_eq_ok {at_ : Place} (h : (fs.makeAt p place).2 = .ok at_) : at_ = place := by
  unfold makeAt at h
  split at h
  · split at h
    · exact (Except.ok.inj h).symm
    · cases h
  · exact (Except.ok.inj h).symm
  · cases h

theorem grows_makeIn (fs : Files) (p : Path) (above : Place) :
    fs.Grows (fs.makeIn p above).1 (· = Path.step above p.name) := by
  unfold makeIn
  split
  · exact .refl fs _
  · exact grows_makeAt fs p _

theorem makeIn_eq_ok {at_ : Place} (h : (fs.makeIn p above).2 = .ok at_) :
    at_ = Path.step above p.name := by
  unfold makeIn at h
  split at h
  · cases h
  · exact makeAt_eq_ok h

/-- Directories are made on the way only, and the last one stands where the path leads. -/
theorem grows_makeMissing (fs : Files) (p : Path) (left : Nat) :
    fs.Grows (fs.makeMissing p left).1 p.Passes ∧
      ∀ place, (fs.makeMissing p left).2 = .ok place → place = p.place := by
  fun_induction makeMissing fs p left with
  | case1 left p place hlocate =>
    obtain rfl := locate_eq_ok hlocate
    exact ⟨(grows_makeAt fs p _).mono fun q hq => hq ▸ p.passes_place, fun _ => makeAt_eq_ok⟩
  | case4 p q _ hparent left fs₁ above hmade ih =>
    obtain ⟨hgrows, hplace⟩ := ih
    rw [hmade] at hgrows hplace
    obtain rfl := hplace above rfl
    have hfirst : fs.Grows fs₁ p.Passes := hgrows.mono fun q => Path.passes_of_parent
    have hlast : fs₁.Grows (fs₁.makeIn p p.parent.place).1 p.Passes := by
      refine (grows_makeIn fs₁ p _).mono ?_
      rintro q rfl
      rw [← Path.place_of_parent hparent]
      exact p.passes_place
    refine ⟨hfirst.trans hlast, ?_⟩
    intro place h
    rw [makeIn_eq_ok h, Path.place_of_parent hparent]
  | case5 p q _ hparent left fs₁ e hmade ih =>
    rw [hmade] at ih
    exact ⟨ih.1.mono fun q => Path.passes_of_parent, nofun⟩
  | case2 => exact ⟨.refl fs _, nofun⟩
  | case3 => exact ⟨.refl fs _, nofun⟩
  | case6 => exact ⟨.refl fs _, nofun⟩

theorem grows_makeDirectories (fs : Files) (p : Path) :
    fs.Grows (fs.makeDirectories p).1 p.Passes :=
  (grows_makeMissing fs p maxMissing).1

/-! ## Writing files -/

/-- What replacing a file takes, and what it changes: what stands where the path leads, which was no
directory. -/
theorem replace_eq_set {data : ByteArray} (h : fs.replace p data = .ok fs') :
    fs.locate p = .ok p.place ∧ fs.node? p.place ≠ some .directory ∧
      fs.device.refusal? p.place = none ∧
      ∃ executable, fs' = fs.set p.place (.file (.bytes data) executable) := by
  cases hlocate : fs.locate p with
  | error e =>
    rw [replace, hlocate] at h
    cases h
  | ok place =>
    obtain rfl := locate_eq_ok hlocate
    rw [replace, hlocate] at h
    dsimp only [bind, Except.bind] at h
    split at h
    · cases h
    · next hne =>
      split at h
      · next htakes => exact ⟨rfl, hne, htakes, _, (Except.ok.inj h).symm⟩
      · cases h

/-! ## Files that are broken off -/

/-- No path breaks off. -/
theorem isBreak_of_locate {e : FileError} (h : fs.locate p = .error e) : e.isBreak = false := by
  have hwalk {above : Place} {parts : List Loose} (hwalk : fs.walk p above parts = .error e) :
      e.isBreak = false := by
    induction parts generalizing above with
    | nil => cases hwalk
    | cons part rest ih =>
      unfold walk at hwalk
      split at hwalk
      · obtain rfl := Except.error.inj hwalk
        rfl
      · split at hwalk
        · obtain rfl := Except.error.inj hwalk
          rfl
        · exact ih hwalk
      · obtain rfl := Except.error.inj hwalk
        rfl
  obtain ⟨-, hwalks⟩ | ⟨fault, hname⟩ | ⟨-, hlong⟩ := fs.locate_cases p
  · exact hwalk (hwalks.symm.trans h)
  · obtain rfl := Except.error.inj (hname.symm.trans h)
    rfl
  · obtain rfl := Except.error.inj (hlong.symm.trans h)
    rfl

theorem isBreak_of_replace {data : ByteArray} {e : FileError} (h : fs.replace p data = .error e) :
    e.isBreak = false := by
  cases hlocate : fs.locate p with
  | error e' =>
    rw [replace, hlocate] at h
    obtain rfl := Except.error.inj h
    exact isBreak_of_locate hlocate
  | ok place =>
    rw [replace, hlocate] at h
    dsimp only [bind, Except.bind] at h
    split at h
    · obtain rfl := Except.error.inj h
      rfl
    · split at h
      · cases h
      · obtain rfl := Except.error.inj h
        rfl

theorem isBreak_of_makeAt {e : FileError} (h : (fs.makeAt p place).2 = .error e) :
    e.isBreak = false := by
  unfold makeAt at h
  split at h
  · split at h
    · cases h
    · obtain rfl := Except.error.inj h
      rfl
  · cases h
  · obtain rfl := Except.error.inj h
    rfl

theorem isBreak_of_makeMissing {left : Nat} {e : FileError}
    (h : (fs.makeMissing p left).2 = .error e) : e.isBreak = false := by
  fun_induction makeMissing fs p left with
  | case1 => exact isBreak_of_makeAt h
  | case2 | case3 =>
    obtain rfl := Except.error.inj h
    rfl
  | case4 p q _ hparent left fs₁ above hmade ih =>
    unfold makeIn at h
    split at h
    · obtain rfl := Except.error.inj h
      rfl
    · exact isBreak_of_makeAt h
  | case5 p q _ hparent left fs₁ e' hmade ih =>
    exact ih (by rw [hmade]; exact h)
  | case6 _ _ _ _ hlocate =>
    obtain rfl := Except.error.inj h
    exact isBreak_of_locate hlocate

/-- A file is not opened, or it is replaced by as much as the device takes. -/
theorem write_cases (fs : Files) (p : Path) (data : ByteArray) :
    (∃ fault, fs.write p data = (fs, some fault) ∧ fault.isBreak = false) ∨
      ∃ fs', fs.replace p (fs.device.take p.place data).1 = .ok fs' ∧
        fs.write p data = (fs', (fs.device.take p.place data).2.map .brokenOff) := by
  unfold write
  cases hreplace : fs.replace p (fs.device.take p.place data).1 with
  | error e => exact .inl ⟨e, by simp only [hreplace], isBreak_of_replace hreplace⟩
  | ok fs' => exact .inr ⟨fs', rfl, by simp only [hreplace]⟩

end Files

end ClassBrowser
