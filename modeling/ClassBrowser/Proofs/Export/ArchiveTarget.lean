import ClassBrowser.Proofs.Export.Calls
import ClassBrowser.Proofs.Export.EntryNames
import ClassBrowser.Proofs.Files.Places

/-!
# Archives as targets

An archive that is opened has an empty file in its place.  Each class that is written adds one entry
and leaves the files alone, and when the archive is closed, what was written stands where its path
leads, provided that each entry was taken, and the archive's end as well (`IsOpen.get_close`).
Otherwise there stands what the device has made of it (`IsOpen.get_close_of_torn`).
-/

namespace ClassBrowser

/-! ## Room for archives -/

namespace Device

/-- Whether a device takes the end of an archive that was given these entries. -/
def Closes (d : Device) (place : Place) (given : List (String × ByteArray)) : Prop :=
  d.closeFault? place given = none

/-- Whether an archive takes these entries, one after the other. -/
structure TakesAll (d : Device) (place : Place) (entries : List (String × ByteArray)) : Prop where
  entry : ∀ given, given ≠ [] → given <+: entries → d.entryFault? place given = none
  size : ∀ e ∈ entries, e.2.size ≤ Export.maxEntrySize

/-- Whether there is room for an archive of these entries: it takes them all, and its end. -/
structure HasRoomFor (d : Device) (place : Place) (entries : List (String × ByteArray)) : Prop
    extends d.TakesAll place entries where
  closes : d.Closes place entries

theorem takesAll_nil (d : Device) (place : Place) : d.TakesAll place [] :=
  ⟨fun given hne hbegins => absurd (List.prefix_nil.1 hbegins) hne, by simp⟩

/-- There is room for all entries that are not too long, where everything is taken. -/
theorem hasRoomFor_roomy (place : Place) {entries : List (String × ByteArray)}
    (h : ∀ e ∈ entries, e.2.size ≤ Export.maxEntrySize) : roomy.HasRoomFor place entries :=
  ⟨⟨fun _ _ _ => rfl, h⟩, rfl⟩

end Device

namespace Export.Writer

variable {w w' : Writer} {fs fs' : Files} {name text stored : String} {entry : Path}
  {given : List (String × ByteArray)} {whole : Bool} {state : ArchiveState}

/-- Whether a writer has an archive open that was given these entries. -/
structure IsOpen (w : Writer) (fs : Files) (given : List (String × ByteArray)) (whole : Bool) :
    Prop where
  format : w.format = .archive (.opened given whole)
  place : ∃ place, fs.locate w.target = .ok place ∧ fs.node? place ≠ some .directory

/-! ## Opening and writing -/

/-- What opening an archive changes about its writer. -/
theorem openTarget_archive (hw : w.format = .archive state)
    (h : w.openTarget fs = (fs', .ok w')) :
    w' = { w with format := .archive (.opened [] true) } ∧ w'.IsOpen fs' [] true := by
  cases opens_of_openTarget h with
  | noFormat hformat => cases hw.symm.trans hformat
  | directory hformat => cases hw.symm.trans hformat
  | archive _ _ hreplace =>
    obtain ⟨place, executable, hlocate, hnode⟩ := Files.replace_eq_ok hreplace
    exact ⟨rfl, rfl, place, hlocate, by simp [hnode]⟩

theorem IsOpen.holding (h : w.IsOpen fs given whole) (name : String)
    (given' : List (String × ByteArray)) (whole' : Bool) :
    (w.holding name given' whole').IsOpen fs given' whole' :=
  ⟨rfl, h.place⟩

/-- A class with a new name becomes the next entry, if that is taken. -/
theorem write_archive (hw : w.format = .archive (.opened given whole)) (hnew : name ∉ w.claimed)
    (hentry : entryPath w.delimiter w.extension name = .ok entry)
    (hstored : storedName entry = .ok stored)
    (htaken : entryError? fs.device w.target entry (given ++ [(stored, text.toUTF8)])
      text.toUTF8.size = none) :
    w.write fs name text =
      (fs, w.holding name (given ++ [(stored, text.toUTF8)]) whole, .ok entry.toText) :=
  (Writes.kept hw hentry hnew hstored htaken).eq_write

/-- A class whose entry an archive cannot keep is not written. -/
theorem write_archive_of_error {e : ExportError} (hw : w.format = .archive (.opened given whole))
    (hnew : name ∉ w.claimed) (hentry : entryPath w.delimiter w.extension name = .ok entry)
    (hstored : storedName entry = .error e) (fs : Files) (text : String) :
    w.write fs name text = (fs, { w with claimed := name :: w.claimed }, .error e) :=
  (Writes.unkept hw hentry hnew hstored).eq_write

/-- An entry that is taken is one that the device takes, and is not too long. -/
theorem entryError?_eq_none_iff {device : Device} {target : Path} {size : Nat} :
    entryError? device target entry given size = none ↔
      device.entryFault? target.place given = none ∧ size ≤ maxEntrySize := by
  unfold entryError?
  split
  · next hfault => simp [hfault]
  · next hfault => simp [hfault]

/-- One more entry is taken. -/
theorem takesAll_concat {device : Device} {target : Path} {e : String × ByteArray}
    (h : device.TakesAll target.place given)
    (htaken : entryError? device target entry (given ++ [e]) e.2.size = none) :
    device.TakesAll target.place (given ++ [e]) := by
  obtain ⟨hentry, hsize⟩ := entryError?_eq_none_iff.1 htaken
  refine ⟨fun given' hne hbegins => ?_, ?_⟩
  · rcases List.prefix_concat_iff.1 hbegins with rfl | hbefore
    · exact hentry
    · exact h.entry given' hne hbefore
  · intro e' he'
    rcases List.mem_append.1 he' with hold | hlast
    · exact h.size e' hold
    · exact List.mem_singleton.1 hlast ▸ hsize

/-- Each entry is taken when its turn comes. -/
theorem entryError?_of_takesAll {device : Device} {target : Path}
    {entries : List (String × ByteArray)} {e : String × ByteArray}
    (h : device.TakesAll target.place entries) (hbegins : given ++ [e] <+: entries)
    (entry : Path) : entryError? device target entry (given ++ [e]) e.2.size = none :=
  entryError?_eq_none_iff.2 ⟨h.entry _ (by simp) hbegins, h.size e (hbegins.subset (by simp))⟩

/-! ## Closing -/

/-- What closing an open archive puts in its place, and what keeps it from being closed. -/
theorem IsOpen.close_eq {place : Place} (h : w.IsOpen fs given whole)
    (hlocate : fs.locate w.target = .ok place) :
    (w.close fs).1 =
        fs.setContent place (closedContent fs.device w.target.place given whole) ∧
      (w.close fs).2.2 = (fs.device.closeFault? w.target.place given).map .unclosed := by
  have hput := Files.put_of_locate hlocate (closedContent fs.device w.target.place given whole)
  unfold close
  simp only [h.format, hput]
  have hdevice (content : Content) : (fs.setContent place content).device = fs.device := rfl
  rw [hdevice]
  cases fs.device.closeFault? w.target.place given with
  | none => exact ⟨rfl, rfl⟩
  | some obstacle => exact ⟨rfl, rfl⟩

theorem IsOpen.exists_get_close (h : w.IsOpen fs given whole) :
    ∃ executable, (w.close fs).1.get w.target =
      .ok (.file (closedContent fs.device w.target.place given whole) executable) := by
  obtain ⟨place, hlocate, hne⟩ := h.place
  rw [(h.close_eq hlocate).1]
  exact Files.get_setContent hlocate hne _

/-- What keeps an archive from being closed is that the device does not take its end. -/
theorem IsOpen.close_error (h : w.IsOpen fs given whole) :
    (w.close fs).2.2 = (fs.device.closeFault? w.target.place given).map .unclosed := by
  obtain ⟨place, hlocate, -⟩ := h.place
  exact (h.close_eq hlocate).2

theorem closedContent_of_closes {device : Device} (hcloses : device.Closes w.target.place given) :
    closedContent device w.target.place given true = .archive given := by
  rw [closedContent, hcloses]
  rfl

/-- A closed archive holds what was written. -/
theorem IsOpen.get_close (h : w.IsOpen fs given true)
    (hcloses : fs.device.Closes w.target.place given) :
    ∃ executable, (w.close fs).1.get w.target = .ok (.file (.archive given) executable) := by
  rw [← closedContent_of_closes hcloses]
  exact h.exists_get_close

/-- Of an archive that has not taken all of its entries, or not its end, there is left what the
device says. -/
theorem IsOpen.get_close_of_torn (h : w.IsOpen fs given whole)
    (htorn : whole = false ∨ ¬ fs.device.Closes w.target.place given) :
    ∃ executable, (w.close fs).1.get w.target =
      .ok (.file (fs.device.remains w.target.place given) executable) := by
  have hcontent : closedContent fs.device w.target.place given whole =
      fs.device.remains w.target.place given := by
    rw [closedContent, if_neg]
    rw [Bool.and_eq_true, Option.isNone_iff_eq_none]
    rintro ⟨rfl, hcloses⟩
    exact htorn.elim nofun fun hnot => hnot hcloses
  rw [← hcontent]
  exact h.exists_get_close

end Export.Writer

end ClassBrowser
