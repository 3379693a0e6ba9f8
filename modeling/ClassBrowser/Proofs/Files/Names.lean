import ClassBrowser.Proofs.Except
import ClassBrowser.Proofs.Files.Places
import ClassBrowser.Proofs.Text.Glyphs

/-!
# Paths that can be asked about

A path may be no name at all, which shows in one of its components (`Path.nameFault?_eq_none_iff`).
Of any other path it can be told whether a file stands where it leads, unless it is too long
(`Files.eq_of_isFile_eq_error`, `Files.exists_isFile_eq_ok`).
-/

namespace ClassBrowser

open Text (Glyph Loose NameFault EncodeFault)

namespace Text

variable {gs : List Glyph} {s : Loose}

/-- Whether a glyph may stand in the name of a file. -/
def Glyph.isNameable : Glyph → Bool
  | .char c => c != '\x00'
  | .half unit => (Glyph.half unit).isByte

theorem encodeFaultFrom_eq_none_iff (position : Nat) :
    encodeFaultFrom true position gs = none ↔ ∀ g ∈ gs, g.isHalf = true → g.isByte = true := by
  induction gs generalizing position with
  | nil => simp [encodeFaultFrom]
  | cons g rest ih =>
    cases g with
    | char c => simp [encodeFaultFrom, ih, Glyph.isHalf]
    | half unit =>
      by_cases hbyte : (Glyph.half unit).isByte = true
      · simp [encodeFaultFrom, ih, Glyph.isHalf, hbyte]
      · simp [encodeFaultFrom, Glyph.isHalf, hbyte]

/-- A text is the name of a file if every glyph may stand in one. -/
theorem Loose.nameFault?_eq_none_iff :
    s.nameFault? = none ↔ ∀ g ∈ s.glyphs, g.isNameable = true := by
  cases s with
  | whole s => simp [nameFault?, glyphs, hasNull, Glyph.isNameable, List.forall_mem_ne']
  | torn gs htorn =>
    have hsplit : (∀ g ∈ gs, g.isNameable = true) ↔
        (∀ g ∈ gs, g.isHalf = true → g.isByte = true) ∧ .char '\x00' ∉ gs := by
      constructor
      · intro hall
        refine ⟨fun g hg hhalf => ?_, fun hnull => absurd (hall _ hnull) (by decide)⟩
        cases g with
        | char c => cases hhalf
        | half unit => exact hall _ hg
      · rintro ⟨hbyte, hnull⟩ g hg
        cases g with
        | char c => exact bne_iff_ne.2 fun hc => hnull (hc ▸ hg)
        | half unit => exact hbyte _ hg rfl
    show (torn gs htorn).nameFault? = none ↔ ∀ g ∈ gs, g.isNameable = true
    rw [hsplit, ← encodeFaultFrom_eq_none_iff 0, nameFault?]
    cases encodeFaultFrom true 0 gs with
    | some fault => simp
    | none => simp

/-- Where there is no NUL, it is for its encoding that a text is no name. -/
theorem Loose.exists_unencodable {fault : NameFault} (h : s.nameFault? = some fault)
    (hnull : .char '\x00' ∉ s.glyphs) : ∃ f, fault = .unencodable f := by
  cases s with
  | whole s =>
    have hall : (whole s).nameFault? = none := by
      refine nameFault?_eq_none_iff.2 fun g hg => ?_
      obtain ⟨c, -, rfl⟩ := List.mem_map.1 hg
      exact bne_iff_ne.2 fun hc => hnull (hc ▸ hg)
    exact nomatch hall.symm.trans h
  | torn gs htorn =>
    have hcontains : gs.contains (.char '\x00') = false := by
      simpa using (show Glyph.char '\x00' ∉ gs from hnull)
    unfold nameFault? at h
    dsimp only at h
    rw [hcontains] at h
    cases hfault : encodeFaultFrom true 0 gs with
    | some f =>
      rw [hfault] at h
      exact ⟨f, (Option.some.inj h).symm⟩
    | none =>
      rw [hfault] at h
      cases h

end Text

namespace Path

variable {p : Path} {fault : NameFault} {env : Environment}

theorem drop_takeWhile (keep : Loose → Bool) (parts : List Loose) :
    parts.drop (parts.takeWhile keep).length = parts.dropWhile keep :=
  calc parts.drop (parts.takeWhile keep).length
      = (parts.takeWhile keep ++ parts.dropWhile keep).drop (parts.takeWhile keep).length := by
        rw [List.takeWhile_append_dropWhile]
    _ = parts.dropWhile keep := List.drop_left' rfl

/-- What a fault of a path is: that of one of its components, at a later position. -/
theorem nameFault?_eq_some (h : p.nameFault? = some fault) :
    ∃ part ∈ p.parts, ∃ f n, part.nameFault? = some f ∧ fault = f.shift n := by
  unfold nameFault? at h
  dsimp only at h
  split at h
  · cases h
  · next part rest hdrop =>
    obtain ⟨f, hf, rfl⟩ := Option.map_eq_some_iff.1 h
    exact ⟨part, List.mem_of_mem_drop (hdrop ▸ List.mem_cons_self), f, _, hf, rfl⟩

/-- A path is a name if its components are. -/
theorem nameFault?_eq_none_iff :
    p.nameFault? = none ↔ ∀ part ∈ p.parts, part.nameFault? = none := by
  constructor
  · intro h
    unfold nameFault? at h
    dsimp only at h
    rw [drop_takeWhile] at h
    have hhead := List.head?_dropWhile_not (fun part : Loose => part.nameFault?.isNone) p.parts
    split at h
    · next hnone =>
      intro part hpart
      exact Option.isNone_iff_eq_none.1 (List.dropWhile_eq_nil_iff.1 hnone part hpart)
    · next part rest hsome =>
      rw [hsome] at hhead
      rw [Option.map_eq_none_iff] at h
      exact absurd hhead (by simp [h])
  · intro h
    cases hfault : p.nameFault? with
    | none => rfl
    | some fault =>
      obtain ⟨part, hpart, f, n, hf, -⟩ := nameFault?_eq_some hfault
      exact nomatch (h part hpart).symm.trans hf

/-- A path whose text is a name is one. -/
theorem nameFault?_of_toLoose (h : p.toLoose.nameFault? = none) : p.nameFault? = none := by
  refine nameFault?_eq_none_iff.2 fun part hpart => Loose.nameFault?_eq_none_iff.2 fun g hg => ?_
  have htext : p.toLoose = Loose.whole p.anchor.text ++ joined p.parts := by
    unfold toLoose
    split
    · next hparts =>
      rw [hparts] at hpart
      cases hpart
    · rfl
  refine Loose.nameFault?_eq_none_iff.1 h g ?_
  rw [htext, Loose.glyphs_append, List.mem_append]
  exact .inr (mem_glyphs_joined_of_mem hpart hg)

/-! ## Tidy paths -/

/-- Whether a path holds neither a NUL nor a tilde. -/
def IsTidy (p : Path) : Prop :=
  ∀ part ∈ p.parts, .char '\x00' ∉ part.glyphs ∧ .char '~' ∉ part.glyphs

theorem IsTidy.expandUser_eq (h : p.IsTidy) (env : Environment) : p.expandUser env = .ok p := by
  unfold expandUser
  split
  · next first rest hanchor hparts =>
    split
    · next user hfirst =>
      refine absurd ?_ (h first (hparts ▸ List.mem_cons_self)).2
      rw [hfirst]
      exact List.mem_cons_self
    · rfl
  · rfl

theorem IsTidy.exists_unencodable (h : p.IsTidy) (hfault : p.nameFault? = some fault) :
    ∃ f, fault = .unencodable f := by
  obtain ⟨part, hpart, f, n, hf, rfl⟩ := nameFault?_eq_some hfault
  obtain ⟨f, rfl⟩ := Loose.exists_unencodable hf (h part hpart).1
  exact ⟨f.shift n, rfl⟩

/-! ## Absolute paths -/

/-- A path seen from the working directory, without two dots. -/
def absolute (p : Path) : Path := ⟨.root, (Files.cwd.append p).parts.foldl step []⟩

theorem resolve_of_nameFault (h : p.nameFault? = some fault) :
    p.resolve Files.cwd = .error (.name fault) := by
  rw [resolve, h]

theorem resolve_eq_absolute (h : p.nameFault? = none) : p.resolve Files.cwd = .ok p.absolute := by
  rw [resolve, h]
  rfl

end Path

namespace Files

variable {fs : Files} {p : Path} {above : Place} {parts : List Loose} {e : FileError}

/-- Only what is too long keeps it from being told what stands somewhere. -/
theorem look_cases (fs : Files) (p : Path) :
    (∃ stands, fs.look p = .ok stands) ∨
      fs.look p = .error (.refused .nameTooLong p) ∧
        ∃ q, fs.locate p = .error (.refused .nameTooLong q) := by
  have hget : ∀ q, fs.get p = .error (.refused .nameTooLong q) →
      fs.locate p = .error (.refused .nameTooLong q) := by
    intro q h
    obtain hlocate | ⟨place, -, h⟩ := bind_eq_error_iff.1 h
    · exact hlocate
    · split at h <;> cases h
  unfold look
  split
  · exact .inl ⟨_, rfl⟩
  · next q hlong => exact .inr ⟨rfl, q, hget q hlong⟩
  · exact .inl ⟨_, rfl⟩

theorem isFile_cases (fs : Files) (p : Path) :
    (∃ stands, fs.isFile p = .ok stands) ∨
      fs.isFile p = .error (.refused .nameTooLong p) ∧
        ∃ q, fs.locate p = .error (.refused .nameTooLong q) := by
  unfold isFile
  obtain ⟨stands, hlook⟩ | ⟨hlook, hlocate⟩ := fs.look_cases p
  · rw [hlook]
    refine .inl ?_
    match stands with
    | some (.file _ _) => exact ⟨true, rfl⟩
    | some (.program _ _) => exact ⟨true, rfl⟩
    | some .directory => exact ⟨false, rfl⟩
    | none => exact ⟨false, rfl⟩
  · rw [hlook]
    exact .inr ⟨rfl, hlocate⟩

theorem eq_of_isFile_eq_error (h : fs.isFile p = .error e) : e = .refused .nameTooLong p := by
  obtain ⟨stands, hok⟩ | ⟨herror, -⟩ := fs.isFile_cases p
  · exact nomatch hok.symm.trans h
  · exact Except.error.inj (h.symm.trans herror)

theorem isFile_of_tooLong {q : Path} (h : fs.locate p = .error (.refused .nameTooLong q)) :
    fs.isFile p = .error (.refused .nameTooLong p) := by
  rw [isFile, look, get, h]
  rfl

theorem locate_of_anchored (hname : p.toLoose.nameFault? = none)
    (hshort : p.toLoose.byteSize ≤ maxPathBytes) (hanchor : p.anchor ≠ .relative) :
    fs.locate p = fs.walk p [] p.parts := by
  rw [locate_of_isFollowable ⟨hname, hshort⟩, if_neg hanchor]

/-- Where one of the components that follow a directory is too long, so is the path. -/
theorem walk_of_tooLong {part : Loose} {rest : List Loose} (q : Path)
    (hdirectory : fs.node? above = some .directory) (hpart : maxNameBytes < part.byteSize) :
    fs.walk q above (part :: rest) = .error (.refused .nameTooLong q) := by
  rw [walk, hdirectory]
  dsimp only
  rw [if_pos hpart]

theorem walk_ne_nameTooLong (hparts : ∀ part ∈ parts, part.byteSize ≤ maxNameBytes) (q : Path) :
    fs.walk p above parts ≠ .error (.refused .nameTooLong q) := by
  induction parts generalizing above with
  | nil => nofun
  | cons part rest ih =>
    unfold walk
    split
    · nofun
    · rw [if_neg (Nat.not_lt.2 (hparts part List.mem_cons_self))]
      exact ih fun next hnext => hparts next (List.mem_cons_of_mem _ hnext)
    · nofun

/-- Of a path that is short enough it can be told whether a file stands there. -/
theorem exists_isFile_eq_ok (hparts : ∀ part ∈ p.parts, part.byteSize ≤ maxNameBytes)
    (hp : p.toLoose.byteSize ≤ maxPathBytes) (fs : Files) :
    ∃ stands, fs.isFile p = .ok stands := by
  refine (fs.isFile_cases p).resolve_right ?_
  rintro ⟨-, q, hlocate⟩
  obtain ⟨-, hwalk⟩ | ⟨fault, herror⟩ | ⟨hlong, -⟩ := fs.locate_cases p
  · exact walk_ne_nameTooLong hparts q (hwalk.symm.trans hlocate)
  · cases herror.symm.trans hlocate
  · exact absurd hp (Nat.not_le.2 hlong)

end Files

end ClassBrowser
