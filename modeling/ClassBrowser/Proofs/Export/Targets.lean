import ClassBrowser.Proofs.Export.ArchiveTarget
import ClassBrowser.Proofs.Export.DirectoryTarget
import ClassBrowser.Task.Basic
import Mathlib.Data.List.Forall2

/-!
# What a target holds

An export target, be it a directory or an archive, holds the classes that were written, from when it
is opened until it is closed (`Writer.Holds`), also when a class was turned down.  A closed target
keeps them (`Holds.close`), provided that an archive takes its end.

If a class was begun to be written and then broken off, a directory has a part of its file beside
those that it holds, and an archive is not known to hold anything any more (`Writer.Torn`).
-/

namespace ClassBrowser.Export.Writer

/-- Whether an entry of an archive is that of a class with its text. -/
def IsEntryOf (w : Writer) (c : String × String) (entry : String × ByteArray) : Prop :=
  ∃ path, entryPath w.delimiter w.extension c.1 = .ok path ∧ path.toLoose = .whole entry.1 ∧
    c.2.toUTF8 = entry.2

/-- Whether an archive is at the target and has the entries of the saved classes, and no others. -/
def HoldsArchive (w : Writer) (fs : Files) (saved : List (String × String)) : Prop :=
  ∃ entries executable, fs.get w.target = .ok (.file (.archive entries) executable) ∧
    List.Forall₂ w.IsEntryOf saved entries

/-- Whether a writer has the target of another and was given no names but those that were tried. -/
structure Continues (w w₀ : Writer) (tried : List String) : Prop where
  target : w.target = w₀.target
  delimiter : w.delimiter = w₀.delimiter
  extension : w.extension = w₀.extension
  claimed : w.claimed ⊆ tried

/-- Whether an open target holds the classes that were saved so far, as it should for a task of some
kind.  The writer `w₀` is the one that the task began with. -/
inductive Holds (w₀ : Writer) (kind : TaskKind) (log : Option Place) (before : Files) (w : Writer)
    (fs : Files) (saved : List (String × String)) (tried : List String) : Prop
  | directory (hkind : kind = .exportDirectory) (hcontinues : w.Continues w₀ tried)
    (hformat : w.format = .directory) (hholds : w₀.HoldsFiles log before fs saved tried)
  | archive (hkind : kind = .exportArchive) (hcontinues : w.Continues w₀ tried)
    (written : List (String × ByteArray)) (hopen : w.IsOpen fs written true)
    (hholds : List.Forall₂ w₀.IsEntryOf saved written)

/-- Whether an open target has a part of a class beside those that were saved; what an archive has
then cannot be told. -/
inductive Torn (w₀ : Writer) (kind : TaskKind) (log : Option Place) (before : Files) (w : Writer)
    (fs : Files) (saved : List (String × String)) (tried : List String) (name text : String) : Prop
  | directory (hkind : kind = .exportDirectory) (hformat : w.format = .directory) (size : Nat)
    (hholds : w₀.HoldsBytes log before fs
      (bytesOf saved ++ [(name, text.toUTF8.extract 0 size)]) (tried ++ [name]))
  | archive (hkind : kind = .exportArchive) (htarget : w.target = w₀.target)
    (given : List (String × ByteArray)) (hopen : w.IsOpen fs given false)

/-- Whether at the place of an archive there is what the device has made of one that has not become
whole; the log may have added to it. -/
def IsUnfinished (w : Writer) (log : Option Place) (device : Device) (fs : Files) : Prop :=
  ∃ given executable, fs.locate w.target = .ok w.target.place ∧
    Files.Logged log w.target.place
      (some (.file (device.remains w.target.place given) executable)) (fs.node? w.target.place)

/-- Whether the files hold the classes that were saved, and a part of one more; an archive holds
nothing for sure. -/
inductive LeavesPart (w : Writer) (kind : TaskKind) (log : Option Place) (before : Files)
    (device : Device) (after : Files) (saved : List (String × String)) (tried : List String)
    (name text : String) : Prop
  | directory (hkind : kind = .exportDirectory) (size : Nat)
    (hholds : w.HoldsBytes log before after
      (bytesOf saved ++ [(name, text.toUTF8.extract 0 size)]) (tried ++ [name]))
  | archive (hkind : kind = .exportArchive) (hunfinished : w.IsUnfinished log device after)

/-- Whether a target of some kind with these classes can be closed. -/
def CanClose (w : Writer) (kind : TaskKind) (device : Device) (saved : List (String × String)) :
    Prop :=
  kind = .exportArchive → ∀ entries, List.Forall₂ w.IsEntryOf saved entries →
    device.Closes w.target.place entries

/-- Whether the files hold the classes that were saved, as they should after a task of some kind. -/
structure Leaves (w : Writer) (kind : TaskKind) (log : Option Place) (before after : Files)
    (saved : List (String × String)) (tried : List String) : Prop where
  files : kind = .exportDirectory → w.HoldsFiles log before after saved tried
  archive : kind = .exportArchive → w.HoldsArchive after saved

variable {w₀ w w' : Writer} {kind : TaskKind} {log : Option Place} {before fs fs' : Files}
  {saved : List (String × String)} {tried : List String} {name text : String} {entry : Path}
  {e : ExportError}

namespace Continues

theorem trying (h : w.Continues w₀ tried) (name : String) : w.Continues w₀ (tried ++ [name]) :=
  ⟨h.target, h.delimiter, h.extension, List.subset_append_of_subset_left _ h.claimed⟩

/-- A further name is given to the writer, which may add to its archive. -/
theorem claim (h : w.Continues w₀ tried) (name : String) (format : Format) :
    Continues { w with format, claimed := name :: w.claimed } w₀ (tried ++ [name]) :=
  ⟨h.target, h.delimiter, h.extension,
    List.cons_subset.2 ⟨by simp, List.subset_append_of_subset_left _ h.claimed⟩⟩

theorem isFileOf (h : w.Continues w₀ tried)
    (hentry : entryPath w.delimiter w.extension name = .ok entry) :
    w₀.IsFileOf name (w.target.append entry) :=
  ⟨entry, by rw [← h.delimiter, ← h.extension, hentry], by rw [h.target]⟩

end Continues

/-- A class has one entry. -/
theorem isEntryOf_unique {c : String × String} {entry entry' : String × ByteArray}
    (h : w.IsEntryOf c entry) (h' : w.IsEntryOf c entry') : entry = entry' := by
  obtain ⟨path, hpath, htext, hdata⟩ := h
  obtain ⟨path', hpath', htext', hdata'⟩ := h'
  obtain rfl := Except.ok.inj (hpath.symm.trans hpath')
  exact Prod.ext (Text.Loose.whole.inj (htext.symm.trans htext')) (hdata.symm.trans hdata')

theorem rightUnique_isEntryOf (w : Writer) : Relator.RightUnique w.IsEntryOf :=
  fun _ _ _ => isEntryOf_unique

/-- Classes have the entries of one archive. -/
theorem entries_unique {entries entries' : List (String × ByteArray)}
    (h : List.Forall₂ w.IsEntryOf saved entries) (h' : List.Forall₂ w.IsEntryOf saved entries') :
    entries = entries' :=
  List.right_unique_forall₂' w.rightUnique_isEntryOf h h'

theorem exists_forall₂ {R : String × String → String × ByteArray → Prop}
    (h : ∀ c ∈ saved, ∃ e, R c e) : ∃ entries, List.Forall₂ R saved entries := by
  induction saved with
  | nil => exact ⟨[], .nil⟩
  | cons c rest ih =>
    obtain ⟨⟨e, he⟩, hrest⟩ := List.forall_mem_cons.1 h
    obtain ⟨entries, hentries⟩ := ih hrest
    exact ⟨e :: entries, .cons he hentries⟩

/-- The entries of some classes and that of the next one are the first of those of all. -/
theorem exists_prefix_of_forall₂ {R : String × String → String × ByteArray → Prop}
    (hunique : Relator.RightUnique R) {done : List (String × String)} {c : String × String}
    {entries given : List (String × ByteArray)} (h : List.Forall₂ R saved entries)
    (hdone : List.Forall₂ R done given) (hbegins : done ++ [c] <+: saved) :
    ∃ e, R c e ∧ given ++ [e] <+: entries := by
  obtain ⟨rest, rfl⟩ := hbegins
  induction hdone generalizing entries with
  | nil =>
    cases h with
    | @cons _ e _ _ he hrest => exact ⟨e, he, by simp⟩
  | cons hfirst hdone ih =>
    cases h with
    | cons hsame hrest =>
      obtain rfl := hunique hfirst hsame
      obtain ⟨e, he, hbegins⟩ := ih hrest
      exact ⟨e, he, List.cons_prefix_cons.2 ⟨rfl, hbegins⟩⟩

/-- Of an archive that has not become whole there is left what the device says. -/
theorem IsOpen.isUnfinished_close {given : List (String × ByteArray)} {whole : Bool}
    (h : w.IsOpen fs given whole) (htorn : whole = false ∨ ¬ fs.device.Closes w.target.place given)
    (htarget : w.target = w₀.target) (log : Option Place) :
    w₀.IsUnfinished log fs.device (w.close fs).1 := by
  obtain ⟨executable, hget⟩ := h.get_close_of_torn htorn
  obtain ⟨place, hlocate, hnode⟩ := Files.exists_locate_of_get hget
  obtain rfl := Files.locate_eq_ok hlocate
  rw [htarget] at hlocate hnode
  exact ⟨given, executable, hlocate, hnode ▸ .same _⟩

/-! ## Opening -/

theorem grows_openTarget (hw : w.format = .directory) (fs : Files) :
    fs.Grows (w.openTarget fs).1 w.target.Passes := by
  have hgrows := Files.grows_makeDirectories fs w.target
  rcases hopen : w.openTarget fs with ⟨made, answer⟩
  cases opens_of_openTarget hopen with
  | noFormat hformat => cases hw.symm.trans hformat
  | directory _ hmade | noDirectory _ hmade =>
    rw [hmade] at hgrows
    exact hgrows
  | archive hformat | noParent hformat | noArchive hformat => cases hw.symm.trans hformat

theorem openTarget_directory (hw : w.format = .directory) (h : w.openTarget fs = (fs', .ok w')) :
    w' = w := by
  cases opens_of_openTarget h with
  | noFormat hformat => rfl
  | directory hformat => rfl
  | archive hformat => cases hw.symm.trans hformat

/-- Closing a directory does nothing. -/
theorem close_directory (hw : w.format = .directory) (fs : Files) : w.close fs = (fs, w, none) := by
  unfold close
  simp only [hw]

/-- An open target holds nothing yet. -/
theorem holds_openTarget (hclaimed : w₀.claimed = [])
    (hkind : (kind = .exportDirectory ∧ w₀.format = .directory) ∨
      (kind = .exportArchive ∧ w₀.format = .archive .closed))
    (hlogs : before.Logs log fs)
    (h : w₀.openTarget fs = (fs', .ok w)) : w₀.Holds kind log before w fs' [] [] := by
  rcases hkind with ⟨hkind, hformat⟩ | ⟨hkind, hformat⟩
  · have hgrows := grows_openTarget hformat fs
    obtain rfl := openTarget_directory hformat h
    rw [h] at hgrows
    exact .directory hkind ⟨rfl, rfl, rfl, by simp [hclaimed]⟩ hformat
      (((HoldsBytes.refl w log before).logs hlogs).grows hgrows (fun _ => .inl) (by simp))
  · obtain ⟨rfl, hopen⟩ := openTarget_archive hformat h
    exact .archive hkind ⟨rfl, rfl, rfl, by simp [hclaimed]⟩ [] hopen .nil

/-! ## Writing -/

/-- A class that was written to an open archive is its last entry. -/
theorem of_write_archive {given : List (String × ByteArray)} {whole : Bool} {shown : String}
    (hw : w.format = .archive (.opened given whole))
    (h : w.write fs name text = (fs', w', .ok shown)) :
    fs' = fs ∧ ∃ path stored, entryPath w.delimiter w.extension name = .ok path ∧
      storedName path = .ok stored ∧
      entryError? fs.device w.target path (given ++ [(stored, text.toUTF8)]) text.toUTF8.size =
        none ∧
      w' = w.holding name (given ++ [(stored, text.toUTF8)]) whole := by
  cases writes_of_write h with
  | made hformat => cases hw.symm.trans hformat
  | kept hformat hentry hnew hstored htaken =>
    cases hw.symm.trans hformat
    exact ⟨rfl, _, _, hentry, hstored, htaken, rfl⟩

theorem IsOpen.logs {given : List (String × ByteArray)} {whole : Bool}
    (h : w.IsOpen fs given whole) (hlogs : fs.Logs log fs') : w.IsOpen fs' given whole := by
  obtain ⟨place, hlocate, hne⟩ := h.place
  refine ⟨h.format, place, hlogs.locate hlocate, ?_⟩
  exact fun hdirectory => hne ((hlogs.node place).directory_iff.1 hdirectory)

namespace Holds

theorem logs (h : w₀.Holds kind log before w fs saved tried)
    (hlogs : fs.Logs log fs') :
    w₀.Holds kind log before w fs' saved tried := by
  cases h with
  | directory hkind hcontinues hformat hholds =>
    exact .directory hkind hcontinues hformat (HoldsBytes.logs hholds hlogs)
  | archive hkind hcontinues written hopen hholds =>
    exact .archive hkind hcontinues written (hopen.logs hlogs) hholds

theorem continues (h : w₀.Holds kind log before w fs saved tried) : w.Continues w₀ tried := by
  cases h with
  | directory _ hcontinues => exact hcontinues
  | archive _ hcontinues => exact hcontinues

theorem of_directory (h : w₀.Holds kind log before w fs saved tried)
    (hw : w.format = .directory) :
    kind = .exportDirectory ∧ w.Continues w₀ tried ∧
      w₀.HoldsFiles log before fs saved tried := by
  cases h with
  | directory hkind hcontinues _ hholds => exact ⟨hkind, hcontinues, hholds⟩
  | archive _ _ _ hopen => cases hw.symm.trans hopen.format

theorem of_archive {given : List (String × ByteArray)} {whole : Bool}
    (h : w₀.Holds kind log before w fs saved tried)
    (hw : w.format = .archive (.opened given whole)) :
    kind = .exportArchive ∧ w.Continues w₀ tried ∧ whole = true ∧ w.IsOpen fs given true ∧
      List.Forall₂ w₀.IsEntryOf saved given := by
  cases h with
  | directory _ _ hformat => cases hw.symm.trans hformat
  | archive hkind hcontinues written' hopen hholds =>
    cases hw.symm.trans hopen.format
    exact ⟨hkind, hcontinues, rfl, hopen, hholds⟩

/-- What a target holds does not depend on whether further classes are tried. -/
theorem trying (h : w₀.Holds kind log before w fs saved tried) (name : String) :
    w₀.Holds kind log before w fs saved (tried ++ [name]) := by
  cases h with
  | directory hkind hcontinues hformat hholds =>
    exact .directory hkind (hcontinues.trying name) hformat
      (HoldsBytes.grows hholds (.refl fs _) (fun _ => .inl) (by simp))
  | archive hkind hcontinues written hopen hholds =>
    exact .archive hkind (hcontinues.trying name) written hopen hholds

/-- After a class was written, the target holds it. -/
theorem write_ok (hslash : .char '/' ∉ w₀.extension.glyphs)
    (hext : .char '\x00' ∉ w₀.extension.glyphs) (h : w₀.Holds kind log before w fs saved tried)
    (hname : kind = .exportArchive → Text.hasNull name = false)
    (hnew : ∀ c ∈ saved, c.1 ≠ name) {shown : String}
    (hwrite : w.write fs name text = (fs', w', .ok shown)) :
    w₀.Holds kind log before w' fs' (saved ++ [(name, text)]) (tried ++ [name]) := by
  cases writes_of_write hwrite with
  | made hformat hentry _ hfile =>
    obtain ⟨hkind, hcontinues, hholds⟩ := h.of_directory hformat
    refine .directory hkind (hcontinues.claim name _) hformat ?_
    have hnow :=
      HoldsBytes.write hslash hholds (hcontinues.isFileOf hentry) (ne_of_mem_bytesOf hnew)
      hfile
    rw [HoldsFiles, bytesOf_append]
    exact hnow
  | @kept given whole entry stored hformat hentry _ hstored htaken =>
    obtain ⟨hkind, hcontinues, rfl, hopen, hholds⟩ := h.of_archive hformat
    rw [hcontinues.delimiter, hcontinues.extension] at hentry
    have htext := toLoose_of_storedName hslash hext (hname hkind) hentry hstored
    exact .archive hkind (hcontinues.claim name _) _ (hopen.holding name _ _)
      (List.rel_append hholds (.cons ⟨entry, hentry, htext, rfl⟩ .nil))

/-- After a class was turned down, the target holds what it held before, and of one that was broken
off there may be a part. -/
theorem write_error (hslash : .char '/' ∉ w₀.extension.glyphs)
    (h : w₀.Holds kind log before w fs saved tried) (hnew : ∀ c ∈ saved, c.1 ≠ name)
    (hwrite : w.write fs name text = (fs', w', .error e)) :
    (e.leavesPart = false ∧ w₀.Holds kind log before w' fs' saved (tried ++ [name])) ∨
      e.leavesPart = true ∧ w₀.Torn kind log before w' fs' saved tried name text := by
  cases writes_of_write hwrite with
  | refused hrefuses => exact .inl ⟨hrefuses.leavesPart, h.trying name⟩
  | @unmade _ _ fault hformat hentry _ hfile =>
    obtain ⟨hkind, hcontinues, hholds⟩ := h.of_directory hformat
    have hnow :=
      HoldsBytes.write hslash hholds (hcontinues.isFileOf hentry) (ne_of_mem_bytesOf hnew)
      hfile
    cases fault with
    | brokenOff obstacle =>
      obtain ⟨size, hpart⟩ := hnow
      exact .inr ⟨rfl, .directory hkind hformat size hpart⟩
    | refused | name | tooDeep =>
      exact .inl ⟨rfl, .directory hkind (hcontinues.claim name _) hformat hnow⟩
  | torn hformat hentry _ hstored htorn =>
    obtain ⟨hkind, hcontinues, rfl, hopen, hholds⟩ := h.of_archive hformat
    exact .inr ⟨leavesPart_of_entryError htorn,
      .archive hkind hcontinues.target _ (hopen.holding name _ _)⟩
  | unkept hformat hentry _ hstored =>
    obtain ⟨hkind, hcontinues, rfl, hopen, hholds⟩ := h.of_archive hformat
    exact .inl ⟨leavesPart_of_storedName hstored,
      .archive hkind (hcontinues.claim name _) _ ⟨hopen.format, hopen.place⟩ hholds⟩
  | late hformat => cases h with
    | directory _ _ hdirectory => cases hformat.symm.trans hdirectory
    | archive _ _ _ hopen => cases hformat.symm.trans hopen.format

/-- A class whose entry has a name is written to an archive that takes it. -/
theorem write_archive_eq_ok {stored : String}
    (h : w₀.Holds .exportArchive log before w fs saved (saved.map Prod.fst))
    (hnew : ∀ c ∈ saved, c.1 ≠ name)
    (hentry : entryPath w₀.delimiter w₀.extension name = .ok entry)
    (hstored : storedName entry = .ok stored)
    (htaken : ∀ given, List.Forall₂ w₀.IsEntryOf saved given →
      entryError? fs.device w₀.target entry (given ++ [(stored, text.toUTF8)]) text.toUTF8.size =
        none) :
    (w.write fs name text).2.2 = .ok entry.toText := by
  cases h with
  | directory hkind => cases hkind
  | archive _ hcontinues written hopen hholds =>
    have hunclaimed : name ∉ w.claimed := by
      intro hclaimed
      obtain ⟨c, hc, hname⟩ := List.mem_map.1 (hcontinues.claimed hclaimed)
      exact hnew c hc hname
    rw [← hcontinues.delimiter, ← hcontinues.extension] at hentry
    rw [← hcontinues.target] at htaken
    rw [write_archive hopen.format hunclaimed hentry hstored (htaken written hholds)]

/-- A closed target keeps what it holds. -/
theorem close (h : w₀.Holds kind log before w fs saved tried) (hclose : (w.close fs).2.2 = none) :
    w₀.Leaves kind log before (w.close fs).1 saved tried := by
  cases h with
  | directory hkind hcontinues hformat hholds =>
    rw [close_directory hformat]
    exact ⟨fun _ => hholds, by simp [hkind]⟩
  | archive hkind hcontinues written hopen hholds =>
    have hcloses : fs.device.Closes w.target.place written := by
      rw [hopen.close_error, Option.map_eq_none_iff] at hclose
      exact hclose
    obtain ⟨executable, hget⟩ := hopen.get_close hcloses
    rw [hcontinues.target] at hget
    exact ⟨by simp [hkind], fun _ => ⟨written, executable, hget, hholds⟩⟩

/-- A directory can always be closed, and an archive if the device takes its end. -/
theorem close_error_iff (h : w₀.Holds kind log before w fs saved tried) :
    (w.close fs).2.2 = none ↔ w₀.CanClose kind fs.device saved := by
  cases h with
  | directory hkind hcontinues hformat hholds =>
    rw [close_directory hformat]
    exact iff_of_true rfl fun hother => by cases hkind.symm.trans hother
  | archive hkind hcontinues written hopen hholds =>
    rw [hopen.close_error, Option.map_eq_none_iff, hcontinues.target]
    constructor
    · intro hcloses _ entries hentries
      obtain rfl := entries_unique hentries hholds
      exact hcloses
    · exact fun hcan => hcan hkind written hholds

/-- An archive that does not take its end is left unfinished. -/
theorem isUnfinished_close (h : w₀.Holds kind log before w fs saved tried)
    (hclose : (w.close fs).2.2 ≠ none) :
    kind = .exportArchive ∧ w₀.IsUnfinished log fs.device (w.close fs).1 ∧
      ∃ obstacle, (w.close fs).2.2 = some (.unclosed obstacle) := by
  cases h with
  | directory hkind hcontinues hformat hholds =>
    rw [close_directory hformat] at hclose
    exact absurd rfl hclose
  | archive hkind hcontinues written hopen hholds =>
    rw [hopen.close_error] at hclose ⊢
    have htorn : ¬ fs.device.Closes w.target.place written :=
      fun hcloses => hclose (by rw [hcloses]; rfl)
    refine ⟨hkind, hopen.isUnfinished_close (.inr htorn) hcontinues.target log, ?_⟩
    obtain ⟨obstacle, hobstacle⟩ := Option.ne_none_iff_exists'.1 htorn
    exact ⟨obstacle, by rw [hobstacle]; rfl⟩

end Holds

/-- A directory with a part of a class is left as it is when it is closed. -/
theorem Torn.close (h : w₀.Torn kind log before w fs saved tried name text) :
    w₀.LeavesPart kind log before fs.device (w.close fs).1 saved tried name text := by
  cases h with
  | directory hkind hformat size hholds =>
    rw [close_directory hformat]
    exact .directory hkind size hholds
  | archive hkind htarget given hopen =>
    exact .archive hkind (hopen.isUnfinished_close (.inl rfl) htarget log)

/-- What keeps a torn target from being closed is that an archive does not take its end. -/
theorem Torn.close_error (h : w₀.Torn kind log before w fs saved tried name text) :
    (w.close fs).2.2 = none ∨
      kind = .exportArchive ∧ ∃ obstacle, (w.close fs).2.2 = some (.unclosed obstacle) := by
  cases h with
  | directory hkind hformat size hholds =>
    rw [close_directory hformat]
    exact .inl rfl
  | archive hkind htarget given hopen =>
    rw [hopen.close_error]
    cases fs.device.closeFault? w.target.place given with
    | none => exact .inl rfl
    | some obstacle => exact .inr ⟨hkind, obstacle, rfl⟩

theorem IsUnfinished.logs {device : Device} (h : w.IsUnfinished log device fs)
    (hlogs : fs.Logs log fs') : w.IsUnfinished log device fs' := by
  obtain ⟨given, executable, hlocate, hnode⟩ := h
  exact ⟨given, executable, hlogs.locate hlocate, hnode.trans (hlogs.node _)⟩

theorem LeavesPart.logs {device : Device}
    (h : w.LeavesPart kind log before device fs saved tried name text) (hlogs : fs.Logs log fs') :
    w.LeavesPart kind log before device fs' saved tried name text := by
  cases h with
  | directory hkind size hholds => exact .directory hkind size (hholds.logs hlogs)
  | archive hkind hunfinished => exact .archive hkind (hunfinished.logs hlogs)

theorem Leaves.logs (h : w.Leaves kind log before fs saved tried) (hlogs : fs.Logs log fs') :
    w.Leaves kind log before fs' saved tried := by
  refine ⟨fun hkind => HoldsBytes.logs (h.files hkind) hlogs, ?_⟩
  intro hkind
  obtain ⟨entries, executable, hget, hentries⟩ := h.archive hkind
  exact ⟨entries, executable, hlogs.get_archive hget, hentries⟩

/-! ## Entries -/

theorem exists_of_mem_entries {entries : List (String × ByteArray)} {e : String × ByteArray}
    (h : List.Forall₂ w.IsEntryOf saved entries) (he : e ∈ entries) :
    ∃ c ∈ saved, w.IsEntryOf c e := by
  induction h with
  | nil => cases he
  | cons hfirst _ ih =>
    rcases List.mem_cons.1 he with rfl | hrest
    · exact ⟨_, List.mem_cons_self, hfirst⟩
    · obtain ⟨c, hc, hentry⟩ := ih hrest
      exact ⟨c, List.mem_cons_of_mem _ hc, hentry⟩

/-- Different classes have entries of different names. -/
theorem nodup_names_entries {entries : List (String × ByteArray)}
    (hslash : .char '/' ∉ w.extension.glyphs) (h : List.Forall₂ w.IsEntryOf saved entries)
    (hnames : (saved.map Prod.fst).Nodup) : (entries.map Prod.fst).Nodup := by
  induction h with
  | nil => exact List.nodup_nil
  | @cons c e saved entries hentry hrest ih =>
    obtain ⟨hnew, hnodup⟩ := List.nodup_cons.1 hnames
    refine List.nodup_cons.2 ⟨?_, ih hnodup⟩
    intro hmem
    obtain ⟨e', he', hname⟩ := List.mem_map.1 hmem
    obtain ⟨c', hc', path', hpath', htext', -⟩ := exists_of_mem_entries hrest he'
    obtain ⟨path, hpath, htext, -⟩ := hentry
    have hsame : c.1 = c'.1 :=
      name_eq_of_toLoose hslash hpath hpath' (by rw [htext, htext', hname])
    exact hnew (hsame ▸ List.mem_map_of_mem hc')

end ClassBrowser.Export.Writer
