import ClassBrowser.Proofs.Export.Calls
import ClassBrowser.Proofs.Export.EntryPlaces
import ClassBrowser.Proofs.Log

/-!
# Directories as targets

A class that is written below a directory has a file there, and no two classes have the same one, so
that what was written before stays (`HoldsBytes.write`).  All else that changes in the files are
directories on the way and records of the log.  The files are told by their bytes, because one that
was broken off ends anywhere in the text of its class.
-/

namespace ClassBrowser.Export.Writer

open Files (Logged)

variable {w w' : Writer} {log : Option Place} {before fs fs' : Files}
  {held : List (String × ByteArray)} {saved : List (String × String)} {tried : List String}
  {name text shown : String} {file file' : Path} {data part : ByteArray}

/-- Whether a file is that of a class. -/
def IsFileOf (w : Writer) (name : String) (file : Path) : Prop :=
  ∃ path, entryPath w.delimiter w.extension name = .ok path ∧ file = w.target.append path

/-- Whether a place is on the way to the target or to the files of some classes. -/
def IsOnWay (w : Writer) (names : List String) (place : Place) : Prop :=
  w.target.Passes place ∨
    ∃ name ∈ names, ∃ file, w.IsFileOf name file ∧ file.parent.Passes place

/-- Whether the files of some classes, given with their bytes, are all that has changed, but for
directories on the way to the classes that were tried and what was added to the log. -/
structure HoldsBytes (w : Writer) (log : Option Place) (before after : Files)
    (held : List (String × ByteArray)) (tried : List String) : Prop where
  files : ∀ c ∈ held, ∃ file executable, w.IsFileOf c.1 file ∧
    after.locate file = .ok file.place ∧
    Logged log file.place (some (.file (.bytes c.2) executable)) (after.node? file.place)
  others : ∀ place, (∀ c ∈ held, ∀ file, w.IsFileOf c.1 file → file.place ≠ place) →
    Logged log place (before.node? place) (after.node? place) ∨
      (before.node? place = none ∧ after.node? place = some .directory ∧ w.IsOnWay tried place)

/-- Classes with the bytes of their texts. -/
def bytesOf (saved : List (String × String)) : List (String × ByteArray) :=
  saved.map fun c => (c.1, c.2.toUTF8)

/-- Whether the files of the saved classes, given with their texts, are all that has changed, but
for directories on the way to the classes that were tried and what was added to the log. -/
def HoldsFiles (w : Writer) (log : Option Place) (before after : Files)
    (saved : List (String × String)) (tried : List String) : Prop :=
  w.HoldsBytes log before after (bytesOf saved) tried

theorem IsFileOf.name_eq {name' : String} (hslash : .char '/' ∉ w.extension.glyphs)
    (h : w.IsFileOf name file) (h' : w.IsFileOf name' file') (hplace : file.place = file'.place) :
    name = name' := by
  obtain ⟨path, hpath, rfl⟩ := h
  obtain ⟨path', hpath', rfl⟩ := h'
  exact name_eq_of_place hslash hpath hpath' hplace

namespace HoldsBytes

theorem refl (w : Writer) (log : Option Place) (fs : Files) : w.HoldsBytes log fs fs [] [] :=
  ⟨by simp, fun _ _ => .inl (.same _)⟩

theorem logs (h : w.HoldsBytes log before fs held tried)
    (hlogs : fs.Logs log fs') :
    w.HoldsBytes log before fs' held tried := by
  refine ⟨?_, ?_⟩
  · intro c hc
    obtain ⟨file, executable, hfile, hlocate, hnode⟩ := h.files c hc
    exact ⟨file, executable, hfile, hlogs.locate hlocate, hnode.trans (hlogs.node _)⟩
  · intro place hplace
    rcases h.others place hplace with hsame | ⟨hnone, hmade, hway⟩
    · exact .inl (hsame.trans (hlogs.node place))
    · exact .inr ⟨hnone, (hlogs.node place).directory_iff.2 hmade, hway⟩

/-- Directories are made on the way to a class. -/
theorem grows {way : Place → Prop} {tried' : List String}
    (h : w.HoldsBytes log before fs held tried) (hgrows : fs.Grows fs' way)
    (hway : ∀ place, way place → w.IsOnWay tried' place) (htried : tried ⊆ tried') :
    w.HoldsBytes log before fs' held tried' := by
  have hmore : ∀ place, w.IsOnWay tried place → w.IsOnWay tried' place := by
    rintro place (htarget | ⟨name, hname, hfile⟩)
    · exact .inl htarget
    · exact .inr ⟨name, htried hname, hfile⟩
  refine ⟨?_, ?_⟩
  · intro c hc
    obtain ⟨file, executable, hfile, hlocate, hnode⟩ := h.files c hc
    refine ⟨file, executable, hfile,
      Files.locate_of_directories (fun _ => hgrows.directory) hlocate, ?_⟩
    rcases hgrows.node file.place with hsame | ⟨hnone, -, -⟩
    · rw [hsame]
      exact hnode
    · rw [hnone] at hnode
      cases hnode
  · intro place hplace
    have hbefore := h.others place hplace
    rcases hgrows.node place with hsame | ⟨hnone, hmade, hon⟩
    · rw [hsame]
      exact hbefore.imp_right fun hnew => ⟨hnew.1, hnew.2.1, hmore place hnew.2.2⟩
    · rw [hnone] at hbefore
      rcases hbefore with hlogged | ⟨-, hdirectory, -⟩
      · exact .inr ⟨hlogged.eq_none, hmade, hway place hon⟩
      · cases hdirectory

/-- The file of a further class is put in its place. -/
theorem put {executable : Bool} (hslash : .char '/' ∉ w.extension.glyphs)
    (h : w.HoldsBytes log before fs held tried) (hfile : w.IsFileOf name file)
    (hnew : ∀ c ∈ held, c.1 ≠ name) (hlocate : fs.locate file = .ok file.place)
    (hne : fs.node? file.place ≠ some .directory) :
    w.HoldsBytes log before (fs.set file.place (.file (.bytes part) executable))
      (held ++ [(name, part)]) tried := by
  refine ⟨?_, ?_⟩
  · intro c hc
    rcases List.mem_append.1 hc with hold | hlast
    · obtain ⟨file', executable', hfile', hlocate', hnode'⟩ := h.files c hold
      have hplace : file.place ≠ file'.place := fun hplace =>
        hnew c hold (hfile'.name_eq hslash hfile hplace.symm)
      refine ⟨file', executable', hfile', Files.locate_set hlocate' hne, ?_⟩
      rw [Files.node?_set, if_neg hplace]
      exact hnode'
    · obtain rfl := List.mem_singleton.1 hlast
      refine ⟨file, executable, hfile, Files.locate_set hlocate hne, ?_⟩
      rw [Files.node?_set_self]
      exact .same _
  · intro place hplace
    have hother : file.place ≠ place := hplace (name, part) (by simp) file hfile
    rw [Files.node?_set, if_neg hother]
    exact h.others place fun c hc => hplace c (List.mem_append_left _ hc)

/-- A class is written, or broken off, or only directories on the way to it are made. -/
theorem write (hslash : .char '/' ∉ w.extension.glyphs)
    (h : w.HoldsBytes log before fs held tried) (hfile : w.IsFileOf name file)
    (hnew : ∀ c ∈ held, c.1 ≠ name) {outcome : Option FileError}
    (hwrite : writeFile fs file data = (fs', outcome)) :
    match outcome with
    | none => w.HoldsBytes log before fs' (held ++ [(name, data)]) (tried ++ [name])
    | some (.brokenOff _) => ∃ size,
      w.HoldsBytes log before fs' (held ++ [(name, data.extract 0 size)]) (tried ++ [name])
    | some _ => w.HoldsBytes log before fs' held (tried ++ [name]) := by
  have hgrown : w.HoldsBytes log before (fs.makeDirectories file.parent).1 held (tried ++ [name]) :=
    h.grows (Files.grows_makeDirectories fs file.parent)
      (fun place hplace => .inr ⟨name, by simp, file, hfile, hplace⟩) (by simp)
  cases makes_of_writeFile hwrite with
  | @unmade fault hfault =>
    cases fault with
    | brokenOff => cases hfault
    | refused | name | tooDeep => exact hgrown
  | made hmade hreplace =>
    rw [hmade] at hgrown
    obtain ⟨hlocate, hne, -, executable, rfl⟩ := Files.replace_eq_set hreplace
    exact hgrown.put hslash hfile hnew hlocate hne
  | broken hmade hreplace =>
    rw [hmade] at hgrown
    obtain ⟨hlocate, hne, -, executable, rfl⟩ := Files.replace_eq_set hreplace
    exact ⟨_, hgrown.put hslash hfile hnew hlocate hne⟩

end HoldsBytes

theorem bytesOf_append (saved : List (String × String)) (name text : String) :
    bytesOf (saved ++ [(name, text)]) = bytesOf saved ++ [(name, text.toUTF8)] := by
  rw [bytesOf, List.map_append]
  rfl

theorem ne_of_mem_bytesOf (hnew : ∀ c ∈ saved, c.1 ≠ name) : ∀ c ∈ bytesOf saved, c.1 ≠ name := by
  intro c hc
  obtain ⟨d, hd, rfl⟩ := List.mem_map.1 hc
  exact hnew d hd

namespace HoldsFiles

theorem files (h : w.HoldsFiles log before fs saved tried) {c : String × String} (hc : c ∈ saved) :
    ∃ file executable, w.IsFileOf c.1 file ∧ fs.locate file = .ok file.place ∧
      Logged log file.place (some (.file (.bytes c.2.toUTF8) executable)) (fs.node? file.place) :=
  HoldsBytes.files h (c.1, c.2.toUTF8) (List.mem_map_of_mem hc)

/-- The file of a saved class has the bytes of its text, where the log does not write to it. -/
theorem read (h : w.HoldsFiles log before fs saved tried) {c : String × String} (hc : c ∈ saved)
    (hlog : ∀ file, w.IsFileOf c.1 file → log ≠ some file.place) :
    ∃ file, w.IsFileOf c.1 file ∧ fs.read file = .ok c.2.toUTF8 := by
  obtain ⟨file, executable, hfile, hlocate, hnode⟩ := h.files hc
  refine ⟨file, hfile, ?_⟩
  rw [Files.read, Files.get_eq_ok hlocate (hnode.eq_of_ne (hlog file hfile))]
  rfl

end HoldsFiles

/-- What writing a class below a directory comes to: its name is noted, and its file is made. -/
theorem of_write_directory_eq_ok (hw : w.format = .directory)
    (h : w.write fs name text = (fs', w', .ok shown)) :
    w' = { w with claimed := name :: w.claimed } ∧
      ∃ file, w.IsFileOf name file ∧ writeFile fs file text.toUTF8 = (fs', none) := by
  cases writes_of_write h with
  | made _ hentry _ hfile => exact ⟨rfl, _, ⟨_, hentry, rfl⟩, hfile⟩
  | kept hformat => cases hw.symm.trans hformat

end ClassBrowser.Export.Writer
