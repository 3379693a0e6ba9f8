import ClassBrowser.Proofs.Export.Writing
import ClassBrowser.Proofs.Files.Directories
import ClassBrowser.Proofs.Task.Exporting

/-!
# Targets that are filled again

A closed target has what was written to it, and the directories above that (`HasWritten.filled`).
So a writer that begins again finds no obstacle and, class by class, puts back what is there
(`Filled.write`): the files of a directory are never different from what they were, and an archive,
which is made anew, is in the end the one that it was (`Filled.close`).
-/

namespace ClassBrowser.Export.Writer

open Files (Logged)

variable {w₀ w w' : Writer} {log : Option Place} {before kept fs fs' made : Files}
  {saved done : List (String × String)} {name text shown : String} {file : Path}

/-! ## What a closed target has -/

/-- Whether a device takes a file as a whole. -/
def TakesFile (device : Device) (place : Place) (data : ByteArray) : Prop :=
  device.refusal? place = none ∧ device.take place data = (data, none)

/-- Whether a class has its file, in a directory that is there, with the bytes of its text, to which
only the log may have added, and the device takes them. -/
def HasFile (w : Writer) (log : Option Place) (fs : Files) (c : String × String) : Prop :=
  ∃ file executable, w.IsFileOf c.1 file ∧ fs.HasDirectory file.parent ∧
    fs.locate file = .ok file.place ∧
    Logged log file.place (some (.file (.bytes c.2.toUTF8) executable)) (fs.node? file.place) ∧
    TakesFile fs.device file.place c.2.toUTF8

/-- Whether a target has these classes after it was closed. -/
inductive Filled (w₀ : Writer) (log : Option Place) (fs : Files) (saved : List (String × String)) :
    Prop
  | directory (hformat : w₀.format = .directory) (htarget : fs.HasDirectory w₀.target)
    (hfiles : ∀ c ∈ saved, w₀.HasFile log fs c)
  | archive {written : List (String × ByteArray)} {executable : Bool}
    (hformat : w₀.format = .archive .closed) (hparent : fs.HasDirectory w₀.target.parent)
    (hlocate : fs.locate w₀.target = .ok w₀.target.place)
    (hnode : fs.node? w₀.target.place = some (.file (.archive written) executable))
    (hrefusal : fs.device.refusal? w₀.target.place = none)
    (hroom : fs.device.HasRoomFor w₀.target.place written)
    (hentries : List.Forall₂ (fun c => Saves w₀ ⟨c.1, some c.2⟩) saved written)

/-- A class has one entry. -/
theorem rightUnique_saves (w : Writer) :
    Relator.RightUnique fun c : String × String => Saves w ⟨c.1, some c.2⟩ :=
  fun _ _ _ => saves_unique

/-- The directory that is a target is there once it is opened. -/
theorem hasDirectory_openTarget (hw : w.format = .directory)
    (h : w.openTarget fs = (made, .ok w')) : made.HasDirectory w.target := by
  cases opens_of_openTarget h with
  | noFormat hformat => cases hw.symm.trans hformat
  | directory _ hmade => exact Files.hasDirectory_makeDirectories hmade
  | archive hformat => cases hw.symm.trans hformat

/-- The directory that an archive is in is there once it is opened, and the archive was not
refused. -/
theorem hasDirectory_openTarget_archive (hw : w.format = .archive .closed)
    (h : w.openTarget fs = (made, .ok w')) :
    made.HasDirectory w.target.parent ∧ made.device.refusal? w.target.place = none := by
  cases opens_of_openTarget h with
  | noFormat hformat => cases hw.symm.trans hformat
  | directory hformat => cases hw.symm.trans hformat
  | archive _ hmade hreplace =>
    obtain ⟨-, hne, hrefusal, executable, rfl⟩ := Files.replace_eq_set hreplace
    exact ⟨(Files.hasDirectory_makeDirectories hmade).set hne, hrefusal⟩

/-- The directory that a file is in is there once it is written, and so are those from before. -/
theorem hasDirectory_writeFile {data : ByteArray} (h : writeFile fs file data = (fs', none)) :
    fs'.HasDirectory file.parent ∧ TakesFile fs'.device file.place data ∧
      ∀ p, fs.HasDirectory p → fs'.HasDirectory p := by
  have hdevice := device_writeFile h
  have hgrows := Files.grows_makeDirectories fs file.parent
  cases makes_of_writeFile h with
  | @made made _ place hmade hreplace htake =>
    obtain ⟨-, hne, hrefusal, executable, rfl⟩ := Files.replace_eq_set hreplace
    rw [hmade] at hgrows
    rw [← hdevice] at htake
    refine ⟨(Files.hasDirectory_makeDirectories hmade).set hne, ⟨hrefusal, htake⟩, fun p hp => ?_⟩
    exact Files.HasDirectory.set (hp.of_directories fun _ => hgrows.directory) hne

/-- A file whose directory is there is put in its place without further ado. -/
theorem writeFile_of_hasDirectory {data : ByteArray} (hparent : fs.HasDirectory file.parent)
    (hlocate : fs.locate file = .ok file.place) (hne : fs.node? file.place ≠ some .directory)
    (htakes : TakesFile fs.device file.place data) :
    writeFile fs file data = (fs.setContent file.place (.bytes data), none) := by
  obtain ⟨hrefusal, htake⟩ := htakes
  have hreplace := Files.replace_of_locate hlocate hne hrefusal data
  rcases hwrite : writeFile fs file data with ⟨files, fault⟩
  unfold writeFile at hwrite
  simp only [hparent.makeDirectories, Files.write, htake, hreplace] at hwrite
  exact hwrite.symm

/-- Whether an open directory has these classes. -/
structure Shelves (w₀ : Writer) (log : Option Place) (before : Files) (w : Writer) (fs : Files)
    (saved : List (String × String)) : Prop where
  writer : w = { w₀ with claimed := (saved.map Prod.fst).reverse }
  target : fs.HasDirectory w₀.target
  above : ∀ c ∈ saved, ∀ file, w₀.IsFileOf c.1 file →
    fs.HasDirectory file.parent ∧ TakesFile fs.device file.place c.2.toUTF8
  holds : w₀.HoldsFiles log before fs saved (saved.map Prod.fst)

/-- A class that is written is on the shelves with those before it. -/
theorem Shelves.write (hslash : .char '/' ∉ w₀.extension.glyphs) (hformat : w₀.format = .directory)
    (h : w₀.Shelves log before w fs saved) (hwrite : w.write fs name text = (fs', w', .ok shown)) :
    w₀.Shelves log before w' fs' (saved ++ [(name, text)]) := by
  have hw : w.format = .directory := by
    rw [h.writer]
    exact hformat
  obtain ⟨hnew, -⟩ := write_eq_ok hwrite
  obtain ⟨rfl, file, hfile, hmade⟩ := of_write_directory_eq_ok hw hwrite
  obtain ⟨rfl, htarget, habove, hholds⟩ := h
  have hdevice := device_write hwrite
  obtain ⟨hparent, htakes, hstay⟩ := hasDirectory_writeFile hmade
  have hothers : ∀ c ∈ saved, c.1 ≠ name := fun c hc hname =>
    hnew (List.mem_reverse.2 (hname ▸ List.mem_map_of_mem hc))
  refine ⟨by simp, hstay _ htarget, ?_, ?_⟩
  · intro c hc file' hfile'
    rcases List.mem_append.1 hc with hold | hlast
    · obtain ⟨hthere, htaken⟩ := habove c hold file' hfile'
      exact ⟨hstay _ hthere, hdevice ▸ htaken⟩
    · obtain rfl := List.mem_singleton.1 hlast
      obtain ⟨path, hpath, rfl⟩ := hfile
      obtain ⟨path', hpath', rfl⟩ := hfile'
      obtain rfl := Except.ok.inj (hpath.symm.trans hpath')
      exact ⟨hparent, htakes⟩
  · have hnow := HoldsBytes.write hslash hholds hfile (ne_of_mem_bytesOf hothers) hmade
    rw [List.map_append, HoldsFiles, bytesOf_append]
    exact hnow

namespace HasWritten

/-- What was written below a directory is there. -/
theorem shelves (h : w₀.HasWritten log before saved w fs) (hclaimed : w₀.claimed = [])
    (hslash : .char '/' ∉ w₀.extension.glyphs) (hformat : w₀.format = .directory) :
    w₀.Shelves log before w fs saved := by
  induction h with
  | @opened fs made w hlogs hopen =>
    have hgrows := grows_openTarget hformat fs
    have htarget := hasDirectory_openTarget hformat hopen
    rw [hopen] at hgrows
    obtain rfl := openTarget_directory hformat hopen
    refine ⟨?_, htarget, nofun, ((HoldsBytes.refl w log before).logs hlogs).grows hgrows
      (fun _ => .inl) (by simp)⟩
    rw [List.map_nil, List.reverse_nil, ← hclaimed]
  | logged h hlogs ih =>
    refine ⟨ih.writer, ih.target.logs hlogs, fun c hc file hfile => ?_,
      HoldsBytes.logs ih.holds hlogs⟩
    obtain ⟨hthere, htaken⟩ := ih.above c hc file hfile
    exact ⟨hthere.logs hlogs, hlogs.device ▸ htaken⟩
  | written h hwrite ih => exact ih.write hslash hformat hwrite

/-- What was written to an archive is there, in the same order, and the archive is still open. -/
theorem entries (h : w₀.HasWritten log before saved w fs) (hformat : w₀.format = .archive .closed) :
    fs.HasDirectory w₀.target.parent ∧ fs.device.refusal? w₀.target.place = none ∧
      ∃ written, w.IsOpen fs written true ∧ fs.device.TakesAll w₀.target.place written ∧
        List.Forall₂ (fun c => Saves w₀ ⟨c.1, some c.2⟩) saved written := by
  induction h with
  | opened hlogs hopen =>
    obtain ⟨hparent, hrefusal⟩ := hasDirectory_openTarget_archive hformat hopen
    exact ⟨hparent, hrefusal, [], (openTarget_archive hformat hopen).2, Device.takesAll_nil _ _,
      .nil⟩
  | logged h hlogs ih =>
    obtain ⟨hparent, hrefusal, written, hopen, htakes, hentries⟩ := ih
    rw [← hlogs.device] at hrefusal htakes
    exact ⟨hparent.logs hlogs, hrefusal, written, hopen.logs hlogs, htakes, hentries⟩
  | @written saved w w' fs fs' name text shown h hwrite ih =>
    obtain ⟨hparent, hrefusal, written, hopen, htakes, hentries⟩ := ih
    obtain ⟨format, rfl⟩ := h.exists_eq
    obtain ⟨rfl, path, stored, hpath, hstored, htaken, rfl⟩ :=
      of_write_archive hopen.format hwrite
    refine ⟨hparent, hrefusal, _, hopen.holding name _ _, takesAll_concat htakes htaken,
      List.rel_append hentries (.cons ?_ .nil)⟩
    exact ⟨text, path, rfl, hpath, hstored, rfl⟩

/-- An archive that is closed has the entries that were written to it. -/
theorem closed_archive (h : w₀.HasWritten log before saved w fs)
    (hformat : w₀.format = .archive .closed) (hclose : (w.close fs).2.2 = none) :
    ∃ entries executable, (w.close fs).1.get w₀.target = .ok (.file (.archive entries) executable) ∧
      List.Forall₂ (fun c => Saves w₀ ⟨c.1, some c.2⟩) saved entries := by
  obtain ⟨-, -, written, hopen, -, hentries⟩ := h.entries hformat
  rw [hopen.close_error, Option.map_eq_none_iff] at hclose
  obtain ⟨executable, hget⟩ := hopen.get_close hclose
  exact ⟨written, executable, h.target_eq ▸ hget, hentries⟩

/-- A target that is closed has what was written to it. -/
theorem filled (h : w₀.HasWritten log before saved w fs) (hclaimed : w₀.claimed = [])
    (hslash : .char '/' ∉ w₀.extension.glyphs)
    (hformat : w₀.format = .directory ∨ w₀.format = .archive .closed)
    (hclose : (w.close fs).2.2 = none) : w₀.Filled log (w.close fs).1 saved := by
  rcases hformat with hformat | hformat
  · have hshelves := h.shelves hclaimed hslash hformat
    rw [close_directory (by rw [hshelves.writer]; exact hformat)]
    refine .directory hformat hshelves.target fun c hc => ?_
    obtain ⟨file, executable, hfile, hlocate, hnode⟩ := hshelves.holds.files hc
    obtain ⟨habove, htakes⟩ := hshelves.above c hc file hfile
    exact ⟨file, executable, hfile, habove, hlocate, hnode, htakes⟩
  · obtain ⟨hparent, hrefusal, written, hopen, htakes, hentries⟩ := h.entries hformat
    obtain ⟨place, hlocate, hne⟩ := hopen.place
    rw [hopen.close_error, Option.map_eq_none_iff] at hclose
    rw [(hopen.close_eq hlocate).1, closedContent_of_closes hclose]
    rw [h.target_eq] at hlocate hclose
    obtain rfl := Files.locate_eq_ok hlocate
    exact .archive hformat (hparent.set hne) (Files.locate_set hlocate hne)
      (Files.node?_set_self _ _ _) hrefusal ⟨htakes, hclose⟩ hentries

end HasWritten

/-! ## Filling it again -/

/-- The file of a class is put back as it is, where it is no obstacle to itself, nor is what is
above it. -/
theorem HasFile.writeFile {c : String × String} (h : w.HasFile log kept c)
    (hagrees : kept.Agrees fs (log = some ·)) :
    ∃ file fs', w.IsFileOf c.1 file ∧ writeFile fs file c.2.toUTF8 = (fs', none) ∧
      kept.Agrees fs' (log = some ·) := by
  obtain ⟨file, executable, hfile, hparent, hlocate, hnode, htakes⟩ := h
  rw [← hagrees.device] at htakes
  have hkept : kept.node? file.place ≠ some .directory := by
    simp [hnode.directory_iff]
  have hmade := writeFile_of_hasDirectory (hagrees.hasDirectory hparent) (hagrees.locate hlocate)
    (fun hdirectory => hkept ((hagrees.directory _).1 hdirectory)) htakes
  refine ⟨file, _, hfile, hmade, hagrees.set (fun q => .inl) hkept nofun fun hother => ?_⟩
  -- It may be executed if it might before.
  rw [hagrees.node _ hother, hnode.eq_of_ne hother]
  rfl

/-- Whether a writer has begun to fill the target again, so far with some of the classes, and has
left everything as it was but for the log and, while it is open, an archive. -/
inductive Refilling (w₀ : Writer) (log : Option Place) (kept : Files) (w : Writer) (fs : Files)
    (done : List (String × String)) : Prop
  | directory (hbegan : w₀.format = .directory) (hcontinues : w.Continues w₀ (done.map Prod.fst))
    (hformat : w.format = .directory) (hagrees : kept.Agrees fs (log = some ·))
  | archive {written : List (String × ByteArray)} (hbegan : w₀.format = .archive .closed)
    (hcontinues : w.Continues w₀ (done.map Prod.fst)) (hopen : w.IsOpen fs written true)
    (hagrees : kept.Agrees fs fun place => log = some place ∨ w₀.target.place = place)
    (hexecutable : (fs.node? w₀.target.place).any Files.Node.isExecutable =
      (kept.node? w₀.target.place).any Files.Node.isExecutable)
    (hentries : List.Forall₂ (fun c => Saves w₀ ⟨c.1, some c.2⟩) done written)

namespace Refilling

theorem logs (h : w₀.Refilling log kept w fs done) (hlogs : fs.Logs log fs') :
    w₀.Refilling log kept w fs' done := by
  cases h with
  | directory hbegan hcontinues hformat hagrees =>
    exact .directory hbegan hcontinues hformat (hagrees.logs hlogs fun _ => id)
  | archive hbegan hcontinues hopen hagrees hexecutable hentries =>
    exact .archive hbegan hcontinues (hopen.logs hlogs) (hagrees.logs hlogs fun _ => .inl)
      ((hlogs.node _).any_isExecutable.trans hexecutable) hentries

theorem continues (h : w₀.Refilling log kept w fs done) : w.Continues w₀ (done.map Prod.fst) := by
  cases h with
  | directory _ hcontinues => exact hcontinues
  | archive _ hcontinues => exact hcontinues

end Refilling

namespace Filled

/-- A target that was filled can be opened again. -/
theorem openTarget (h : w₀.Filled log kept saved) (hclaimed : w₀.claimed = [])
    (hlogs : kept.Logs log fs) :
    ∃ made w, w₀.openTarget fs = (made, .ok w) ∧ w₀.Refilling log kept w made [] := by
  have hagrees := (Files.Agrees.refl kept (log = some ·)).logs hlogs fun _ => id
  have hcontinues : ∀ format, Continues { w₀ with format } w₀ [] := fun _ =>
    ⟨rfl, rfl, rfl, by simp [hclaimed]⟩
  cases h with
  | directory hformat htarget hfiles =>
    have hopens : w₀.Opens fs fs (.ok w₀) :=
      .directory hformat (htarget.logs hlogs).makeDirectories
    exact ⟨_, _, hopens.eq_openTarget,
      .directory hformat (hcontinues w₀.format) hformat hagrees⟩
  | archive hformat hparent hlocate hnode hrefusal hroom hentries =>
    have hkept : kept.node? w₀.target.place ≠ some .directory := by simp [hnode]
    have hne : fs.node? w₀.target.place ≠ some .directory := fun hdirectory =>
      hkept ((hagrees.directory _).1 hdirectory)
    rw [← hlogs.device] at hrefusal
    have hreplace := Files.replace_of_locate (hlogs.locate hlocate) hne hrefusal .empty
    have hopens := Opens.archive hformat (hparent.logs hlogs).makeDirectories hreplace
    refine ⟨_, _, hopens.eq_openTarget, .archive hformat (hcontinues _)
      ⟨rfl, _, Files.locate_set (hlogs.locate hlocate) hne, ?_⟩ ?_ ?_ .nil⟩
    · simp [Files.setContent, Files.node?_set_self]
    -- The archive is empty now, and so its place counts again only when it is closed.
    · exact hagrees.set (fun q hq => .inl (.inl hq)) hkept nofun fun hother =>
        absurd (.inr rfl) hother
    · rw [Files.setContent, Files.node?_set_self]
      exact (hlogs.node _).any_isExecutable

/-- The next class that the target has is written again, if it was not yet. -/
theorem write (h : w₀.Filled log kept saved) (hagain : w₀.Refilling log kept w fs done)
    (hnext : done ++ [(name, text)] <+: saved) (hnew : name ∉ done.map Prod.fst) :
    ∃ fs' w' shown, w.write fs name text = (fs', w', .ok shown) ∧
      w₀.Refilling log kept w' fs' (done ++ [(name, text)]) := by
  have hunclaimed : name ∉ w.claimed := fun hclaimed => hnew (hagain.continues.claimed hclaimed)
  have hnoted : ∀ format, Continues { w with format, claimed := name :: w.claimed } w₀
      ((done ++ [(name, text)]).map Prod.fst) := fun format => by
    rw [List.map_append]
    exact hagain.continues.claim name format
  cases hagain with
  | directory hbegan hcontinues hformat hagrees =>
    cases h with
    | archive hother => cases hbegan.symm.trans hother
    | directory _ _ hfiles =>
      have hc : (name, text) ∈ saved := hnext.subset (by simp)
      obtain ⟨file, fs', ⟨path, hpath, hplace⟩, hmade, hnow⟩ := (hfiles _ hc).writeFile hagrees
      rw [← hcontinues.delimiter, ← hcontinues.extension] at hpath
      rw [← hcontinues.target] at hplace
      have hwrite := write_of_not_claimed hformat hpath hunclaimed fs text
      rw [← hplace, hmade] at hwrite
      exact ⟨_, _, _, hwrite, .directory hbegan (hnoted w.format) hformat hnow⟩
  | archive hbegan hcontinues hopen hagrees hexecutable hdone =>
    cases h with
    | directory hother => cases hbegan.symm.trans hother
    | archive _ _ _ _ _ hroom hentries =>
      obtain ⟨e, hsaves, hbegins⟩ :=
        exists_prefix_of_forall₂ (rightUnique_saves w₀) hentries hdone hnext
      obtain ⟨own, path, htext, hpath, hstored, hbytes⟩ := id hsaves
      obtain rfl := Option.some.inj htext
      have htaken := entryError?_of_takesAll hroom.toTakesAll hbegins path
      rw [← hagrees.device, ← hcontinues.target] at htaken
      rw [show e = (e.1, text.toUTF8) from Prod.ext rfl hbytes.symm] at htaken
      have hwrite := write_archive hopen.format hunclaimed
        (by rw [hcontinues.delimiter, hcontinues.extension, hpath]) hstored htaken
      refine ⟨_, _, _, hwrite, .archive hbegan (hnoted _) (hopen.holding name _ _) hagrees
        hexecutable (List.rel_append hdone (.cons ?_ .nil))⟩
      exact ⟨text, path, rfl, hpath, hstored, rfl⟩

/-- A target that has all classes again can be closed, and is what it was then. -/
theorem close (h : w₀.Filled log kept saved) (hagain : w₀.Refilling log kept w fs saved) :
    (w.close fs).2.2 = none ∧ kept.Agrees (w.close fs).1 (log = some ·) := by
  cases hagain with
  | directory hbegan hcontinues hformat hagrees =>
    rw [close_directory hformat]
    exact ⟨rfl, hagrees⟩
  | archive hbegan hcontinues hopen hagrees hexecutable hagain =>
    cases h with
    | directory hother => cases hbegan.symm.trans hother
    | archive _ _ hlocate hnode _ hroom hentries =>
      obtain rfl := List.right_unique_forall₂' (rightUnique_saves w₀) hentries hagain
      have hfound := hagrees.locate hlocate
      have hcloses := hroom.closes
      rw [← hagrees.device] at hcloses
      rw [← hcontinues.target] at hfound hcloses
      refine ⟨?_, ?_⟩
      · rw [hopen.close_error, hcloses]
        rfl
      rw [(hopen.close_eq hfound).1, closedContent_of_closes hcloses, hcontinues.target]
      refine hagrees.set (fun q => id) (by simp [hnode]) nofun fun _ => ?_
      rw [hnode] at hexecutable
      rw [hexecutable, hnode]
      rfl

end Filled

/-- A writer that has written classes of the target again is about to fill it. -/
theorem HasWritten.refilling (hagain : w₀.HasWritten log kept done w fs)
    (h : w₀.Filled log kept saved) (hclaimed : w₀.claimed = []) (hdone : done <+: saved) :
    w₀.Refilling log kept w fs done := by
  induction hagain with
  | opened hlogs hopen =>
    obtain ⟨_, _, hopened, hagain⟩ := h.openTarget hclaimed hlogs
    obtain ⟨rfl, hw⟩ := Prod.mk.inj (hopen.symm.trans hopened)
    obtain rfl := Except.ok.inj hw
    exact hagain
  | logged hagain hlogs ih => exact (ih hdone).logs hlogs
  | @written done w w' fs fs' name text shown hagain hwrite ih =>
    have hnew : name ∉ done.map Prod.fst := by
      obtain ⟨hunclaimed, -⟩ := write_eq_ok hwrite
      obtain ⟨format, rfl⟩ := hagain.exists_eq
      intro hmem
      exact hunclaimed (List.mem_append_left _ (List.mem_reverse.2 hmem))
    have hbefore : done <+: saved := (List.prefix_append _ _).trans hdone
    obtain ⟨_, _, _, hwritten, hnext⟩ := h.write (ih hbefore) hdone hnew
    obtain ⟨rfl, hrest⟩ := Prod.mk.inj (hwrite.symm.trans hwritten)
    obtain ⟨rfl, -⟩ := Prod.mk.inj hrest
    exact hnext

end ClassBrowser.Export.Writer
