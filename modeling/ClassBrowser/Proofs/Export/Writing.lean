import ClassBrowser.Proofs.Export.Targets

/-!
# How a target is filled

An export opens its target and then writes one class after the other; in between, only the log
changes the files.  `Writer.HasWritten` is the record of such a course: which classes were written
so far, with which texts and in which order, the writer that they have left, and the files.

Everything that is said of an open target is read off that record: which names its writer has noted
(`HasWritten.exists_eq`), that the device is still the same, and that the target holds the classes
which were written and nothing else (`HasWritten.holds`).  The last of these needs an extension that
does not lead elsewhere, and in an archive names without a null, which would be cut off there.
-/

namespace ClassBrowser.Export.Writer

variable {w₀ w w' : Writer} {log : Option Place} {before fs fs' made : Files} {kind : TaskKind}
  {saved : List (String × String)} {name text shown : String}

/-- Whether a writer, once its target was opened, has written these classes, each with its text, to
the files that were there before, with nothing but records of the log in between. -/
inductive HasWritten (w₀ : Writer) (log : Option Place) (before : Files) :
    List (String × String) → Writer → Files → Prop
  | opened {fs made : Files} {w : Writer} (hlogs : before.Logs log fs)
    (hopen : w₀.openTarget fs = (made, .ok w)) : HasWritten w₀ log before [] w made
  | logged {saved : List (String × String)} {w : Writer} {fs fs' : Files}
    (h : HasWritten w₀ log before saved w fs) (hlogs : fs.Logs log fs') :
    HasWritten w₀ log before saved w fs'
  | written {saved : List (String × String)} {w w' : Writer} {fs fs' : Files}
    {name text shown : String} (h : HasWritten w₀ log before saved w fs)
    (hwrite : w.write fs name text = (fs', w', .ok shown)) :
    HasWritten w₀ log before (saved ++ [(name, text)]) w' fs'

namespace HasWritten

/-- A writer has noted the names of the classes that it has written, and is as it was else. -/
theorem exists_eq (h : w₀.HasWritten log before saved w fs) :
    ∃ format, w = { w₀ with format, claimed := (saved.map Prod.fst).reverse ++ w₀.claimed } := by
  induction h with
  | opened hlogs hopen => exact openTarget_eq_ok hopen
  | logged h hlogs ih => exact ih
  | written h hwrite ih =>
    obtain ⟨_, rfl⟩ := ih
    obtain ⟨-, format, rfl⟩ := write_eq_ok hwrite
    exact ⟨format, by simp⟩

theorem target_eq (h : w₀.HasWritten log before saved w fs) : w.target = w₀.target := by
  obtain ⟨format, rfl⟩ := h.exists_eq
  rfl

theorem format_eq (h : w₀.HasWritten log before saved w fs) (hformat : w₀.format = .directory) :
    w.format = .directory := by
  induction h with
  | opened hlogs hopen =>
    obtain rfl := openTarget_directory hformat hopen
    exact hformat
  | logged h hlogs ih => exact ih
  | written h hwrite ih =>
    obtain ⟨rfl, -⟩ := of_write_directory_eq_ok ih hwrite
    exact ih

theorem device_eq (h : w₀.HasWritten log before saved w fs) : fs.device = before.device := by
  induction h with
  | opened hlogs hopen => exact (device_openTarget hopen).trans hlogs.device
  | logged h hlogs ih => exact hlogs.device.trans ih
  | written h hwrite ih => exact (device_write hwrite).trans ih

/-- A class that is written was not written before. -/
theorem new (h : w₀.HasWritten log before saved w fs)
    (hwrite : w.write fs name text = (fs', w', .ok shown)) : ∀ c ∈ saved, c.1 ≠ name := by
  obtain ⟨hunclaimed, -⟩ := write_eq_ok hwrite
  obtain ⟨format, rfl⟩ := h.exists_eq
  rintro c hc rfl
  exact hunclaimed (List.mem_append_left _ (List.mem_reverse.2 (List.mem_map_of_mem hc)))

/-- The target holds the classes that were written. -/
theorem holds (h : w₀.HasWritten log before saved w fs) (hclaimed : w₀.claimed = [])
    (hkind : (kind = .exportDirectory ∧ w₀.format = .directory) ∨
      (kind = .exportArchive ∧ w₀.format = .archive .closed))
    (hslash : .char '/' ∉ w₀.extension.glyphs) (hext : .char '\x00' ∉ w₀.extension.glyphs)
    (hname : kind = .exportArchive → ∀ c ∈ saved, Text.hasNull c.1 = false) :
    w₀.Holds kind log before w fs saved (saved.map Prod.fst) := by
  induction h with
  | opened hlogs hopen => exact holds_openTarget hclaimed hkind hlogs hopen
  | logged h hlogs ih => exact (ih hname).logs hlogs
  | @written saved w w' fs fs' name text shown h hwrite ih =>
    obtain ⟨hearlier, hlast⟩ : (kind = .exportArchive → ∀ c ∈ saved, Text.hasNull c.1 = false) ∧
        (kind = .exportArchive → Text.hasNull name = false) :=
      ⟨fun h c hc => hname h c (List.mem_append_left _ hc), fun h => hname h (name, text) (by simp)⟩
    rw [List.map_append]
    exact (ih hearlier).write_ok hslash hext hlast (h.new hwrite) hwrite

end HasWritten

/-- A class that was written below a directory has its file there. -/
theorem of_write_directory (hw : w.format = .directory)
    (h : w.write fs name text = (fs', w', .ok shown)) :
    ∃ file, w.IsFileOf name file ∧ fs'.read file = .ok text.toUTF8 := by
  obtain ⟨-, file, hfile, hmade⟩ := of_write_directory_eq_ok hw h
  refine ⟨file, hfile, ?_⟩
  cases makes_of_writeFile hmade with
  | made hmade hreplace htake =>
    obtain ⟨place, executable, hlocate, hnode⟩ := Files.replace_eq_ok hreplace
    rw [Files.read, Files.get_eq_ok hlocate hnode]
    rfl

end ClassBrowser.Export.Writer
