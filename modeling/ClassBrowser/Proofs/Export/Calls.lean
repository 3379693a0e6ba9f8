import ClassBrowser.Export.Writer
import ClassBrowser.Proofs.Files.Ways

/-!
# Single calls of a writer

All that a single call can come to is said once: the target is opened or not (`Writer.Opens`), and a
class is refused, made into a file or given to an archive (`Writer.Writes`), each with what was
found on the way.  Both are exact (`opens_of_openTarget` and `Opens.eq_openTarget`,
`writes_of_write` and `Writes.eq_write`), and so what holds of every call is shown case by case.
-/

namespace ClassBrowser.Export

/-- Whether a class that was not written may have left a part of itself. -/
def ExportError.leavesPart : ExportError → Bool
  | .unfinished _ _ | .oversize => true
  | _ => false

namespace Writer

variable {w w' : Writer} {fs fs' : Files} {name text shown : String} {entry file : Path}
  {given : List (String × ByteArray)} {whole : Bool} {data : ByteArray} {e : ExportError}
  {result : Except ExportError String} {opened : Except ExportError Writer}

/-! ## Opening the target -/

/-- What opening a target can come to. -/
inductive Opens (w : Writer) (fs : Files) : Files → Except ExportError Writer → Prop
  | noFormat (hformat : w.format = .none) : Opens w fs fs (.ok w)
  | directory {made : Files} {place : Place} (hformat : w.format = .directory)
    (hmade : fs.makeDirectories w.target = (made, .ok place)) : Opens w fs made (.ok w)
  | noDirectory {made : Files} {fault : FileError} (hformat : w.format = .directory)
    (hmade : fs.makeDirectories w.target = (made, .error fault)) :
    Opens w fs made (.error (createFault w.target fault))
  | archive {before : ArchiveState} {made fs' : Files} {place : Place}
    (hformat : w.format = .archive before)
    (hmade : fs.makeDirectories w.target.parent = (made, .ok place))
    (hreplace : made.replace w.target .empty = .ok fs') :
    Opens w fs fs' (.ok { w with format := .archive (.opened [] true) })
  | noParent {before : ArchiveState} {made : Files} {fault : FileError}
    (hformat : w.format = .archive before)
    (hmade : fs.makeDirectories w.target.parent = (made, .error fault)) :
    Opens w fs made (.error (createFault w.target fault))
  | noArchive {before : ArchiveState} {made : Files} {place : Place}
    {fault : FileError} (hformat : w.format = .archive before)
    (hmade : fs.makeDirectories w.target.parent = (made, .ok place))
    (hreplace : made.replace w.target .empty = .error fault) :
    Opens w fs made (.error (createFault w.target fault))

theorem opens_of_openTarget (h : w.openTarget fs = (fs', opened)) : w.Opens fs fs' opened := by
  unfold openTarget at h
  split at h
  · next hformat =>
    obtain ⟨rfl, rfl⟩ := Prod.mk.inj h
    exact .noFormat hformat
  · next hformat =>
    split at h
    · next hmade =>
      obtain ⟨rfl, rfl⟩ := Prod.mk.inj h
      exact .directory hformat hmade
    · next hmade =>
      obtain ⟨rfl, rfl⟩ := Prod.mk.inj h
      exact .noDirectory hformat hmade
  · next hformat =>
    split at h
    · next hmade =>
      obtain ⟨rfl, rfl⟩ := Prod.mk.inj h
      exact .noParent hformat hmade
    · next hmade =>
      split at h
      · next hreplace =>
        obtain ⟨rfl, rfl⟩ := Prod.mk.inj h
        exact .archive hformat hmade hreplace
      · next hreplace =>
        obtain ⟨rfl, rfl⟩ := Prod.mk.inj h
        exact .noArchive hformat hmade hreplace

theorem Opens.eq_openTarget (h : w.Opens fs fs' opened) : w.openTarget fs = (fs', opened) := by
  cases h with
  | noFormat hformat => simp only [openTarget, hformat]
  | directory hformat hmade => simp only [openTarget, hformat, hmade]
  | noDirectory hformat hmade => simp only [openTarget, hformat, hmade]
  | archive hformat hmade hreplace => simp only [openTarget, hformat, hmade, hreplace]
  | noParent hformat hmade => simp only [openTarget, hformat, hmade]
  | noArchive hformat hmade hreplace => simp only [openTarget, hformat, hmade, hreplace]

/-- What opening a target changes about its writer. -/
theorem openTarget_eq_ok (h : w.openTarget fs = (fs', .ok w')) :
    ∃ format, w' = { w with format } := by
  cases opens_of_openTarget h with
  | noFormat => exact ⟨w.format, rfl⟩
  | directory => exact ⟨w.format, rfl⟩
  | archive => exact ⟨_, rfl⟩

/-- Opening a target leaves the device as it is. -/
theorem device_openTarget (h : w.openTarget fs = (fs', opened)) : fs'.device = fs.device := by
  have hmakes (made : Files) (p : Path) (result : Except FileError Place)
      (hmade : fs.makeDirectories p = (made, result)) : made.device = fs.device := by
    rw [← (Files.grows_makeDirectories fs p).device, hmade]
  cases opens_of_openTarget h with
  | noFormat => rfl
  | directory _ hmade | noDirectory _ hmade | noParent _ hmade | noArchive _ hmade =>
    exact hmakes _ _ _ hmade
  | @archive _ made _ _ _ hmade hreplace =>
    obtain ⟨-, -, -, executable, rfl⟩ := Files.replace_eq_set hreplace
    exact hmakes made _ _ hmade

/-! ## Making a file -/

/-- What making a file can come to: nothing but directories, the file, or a part of it. -/
inductive Makes (fs : Files) (file : Path) (data : ByteArray) : Files → Option FileError → Prop
  | unmade {fault : FileError} (hfault : fault.isBreak = false) :
    Makes fs file data (fs.makeDirectories file.parent).1 (some fault)
  | made {made fs' : Files} {place : Place}
    (hmade : fs.makeDirectories file.parent = (made, .ok place))
    (hreplace : made.replace file data = .ok fs')
    (htake : fs.device.take file.place data = (data, none)) : Makes fs file data fs' none
  | broken {made fs' : Files} {place : Place} {obstacle : Obstacle} {size : Nat}
    (hmade : fs.makeDirectories file.parent = (made, .ok place))
    (hreplace : made.replace file (data.extract 0 size) = .ok fs') :
    Makes fs file data fs' (some (.brokenOff obstacle))

theorem makes_of_writeFile {outcome : Option FileError}
    (h : writeFile fs file data = (fs', outcome)) : Makes fs file data fs' outcome := by
  have hdevice := (Files.grows_makeDirectories fs file.parent).device
  have hfaulty : ∀ fault, (fs.makeDirectories file.parent).2 = .error fault →
      fault.isBreak = false := fun _ => Files.isBreak_of_makeMissing
  unfold writeFile at h
  rcases hmake : fs.makeDirectories file.parent with ⟨made, fault | place⟩
  · rw [hmake] at h hfaulty
    obtain ⟨rfl, rfl⟩ := Prod.mk.inj h
    have hunmade : Makes fs file data _ _ := .unmade (hfaulty fault rfl)
    rwa [hmake] at hunmade
  · rw [hmake] at h hdevice
    have hwrite : made.write file data = (fs', outcome) := h
    rcases made.write_cases file data with ⟨fault, hfails, hfault⟩ | ⟨files, hreplace, hputs⟩
    · obtain ⟨rfl, rfl⟩ := Prod.mk.inj (hfails.symm.trans hwrite)
      have hunmade : Makes fs file data _ _ := .unmade hfault
      rwa [hmake] at hunmade
    · obtain ⟨rfl, rfl⟩ := Prod.mk.inj (hputs.symm.trans hwrite)
      rw [hdevice] at hreplace ⊢
      rcases fs.device.take_cases file.place data with htake | ⟨obstacle, size, htake⟩
      · rw [htake] at hreplace ⊢
        exact .made hmake hreplace htake
      · rw [htake] at hreplace ⊢
        exact .broken hmake hreplace

/-- Making a file leaves the device as it is. -/
theorem device_writeFile {outcome : Option FileError}
    (h : writeFile fs file data = (fs', outcome)) : fs'.device = fs.device := by
  have hdevice := (Files.grows_makeDirectories fs file.parent).device
  cases makes_of_writeFile h with
  | unmade => exact hdevice
  | made hmade hreplace | broken hmade hreplace =>
    rw [hmade] at hdevice
    obtain ⟨-, -, -, executable, rfl⟩ := Files.replace_eq_set hreplace
    exact hdevice

/-! ## Writing a class -/

/-- A name is taken that has a path and was not given before. -/
theorem claim_eq_ok_iff :
    w.claim name = .ok (entry, w') ↔ entryPath w.delimiter w.extension name = .ok entry ∧
      name ∉ w.claimed ∧ w' = { w with claimed := name :: w.claimed } := by
  unfold claim
  cases entryPath w.delimiter w.extension name with
  | error e => simp
  | ok found =>
    by_cases hclaimed : name ∈ w.claimed
    · simp [hclaimed]
    · simp [hclaimed, eq_comm]

/-- A writer that was given another name and has given its open archive these entries. -/
def holding (w : Writer) (name : String) (given : List (String × ByteArray)) (whole : Bool) :
    Writer :=
  { w with format := .archive (.opened given whole), claimed := name :: w.claimed }

/-- Whether a writer has something that classes can be written to, or had. -/
def IsReady (w : Writer) : Prop :=
  w.format = .directory ∨ (∃ given whole, w.format = .archive (.opened given whole)) ∨
    w.format = .archive .spent

/-- Why a writer turns a class down before its name is noted. -/
inductive Refuses (w : Writer) (name : String) : ExportError → Prop
  | noFormat (hformat : w.format = .none) : Refuses w name .noFormat
  | notOpen (hformat : w.format = .archive .closed) : Refuses w name .notOpen
  | noPath {fault : EntryError} (hready : w.IsReady)
    (hentry : entryPath w.delimiter w.extension name = .error fault) : Refuses w name (.entry fault)
  | claimed {entry : Path} (hready : w.IsReady)
    (hentry : entryPath w.delimiter w.extension name = .ok entry) (hclaimed : name ∈ w.claimed) :
    Refuses w name (.duplicate entry)

/-- What writing a class can come to.  A name that was noted stays noted also when nothing is made
of its class. -/
inductive Writes (w : Writer) (fs : Files) (name text : String) :
    Files → Writer → Except ExportError String → Prop
  | refused {e : ExportError} (hrefuses : w.Refuses name e) : Writes w fs name text fs w (.error e)
  | made {entry : Path} {fs' : Files} (hformat : w.format = .directory)
    (hentry : entryPath w.delimiter w.extension name = .ok entry) (hnew : name ∉ w.claimed)
    (hfile : writeFile fs (w.target.append entry) text.toUTF8 = (fs', none)) :
    Writes w fs name text fs' { w with claimed := name :: w.claimed }
      (.ok (w.target.append entry).toText)
  | unmade {entry : Path} {fs' : Files} {fault : FileError} (hformat : w.format = .directory)
    (hentry : entryPath w.delimiter w.extension name = .ok entry) (hnew : name ∉ w.claimed)
    (hfile : writeFile fs (w.target.append entry) text.toUTF8 = (fs', some fault)) :
    Writes w fs name text fs' { w with claimed := name :: w.claimed }
      (.error (writeFault (w.target.append entry) fault))
  | kept {given : List (String × ByteArray)} {whole : Bool} {entry : Path} {stored : String}
    (hformat : w.format = .archive (.opened given whole))
    (hentry : entryPath w.delimiter w.extension name = .ok entry) (hnew : name ∉ w.claimed)
    (hstored : storedName entry = .ok stored)
    (htaken : entryError? fs.device w.target entry (given ++ [(stored, text.toUTF8)])
      text.toUTF8.size = none) :
    Writes w fs name text fs (w.holding name (given ++ [(stored, text.toUTF8)]) whole)
      (.ok entry.toText)
  | torn {given : List (String × ByteArray)} {whole : Bool} {entry : Path} {stored : String}
    {e : ExportError} (hformat : w.format = .archive (.opened given whole))
    (hentry : entryPath w.delimiter w.extension name = .ok entry) (hnew : name ∉ w.claimed)
    (hstored : storedName entry = .ok stored)
    (htorn : entryError? fs.device w.target entry (given ++ [(stored, text.toUTF8)])
      text.toUTF8.size = some e) :
    Writes w fs name text fs (w.holding name (given ++ [(stored, text.toUTF8)]) false) (.error e)
  | unkept {given : List (String × ByteArray)} {whole : Bool} {entry : Path} {e : ExportError}
    (hformat : w.format = .archive (.opened given whole))
    (hentry : entryPath w.delimiter w.extension name = .ok entry) (hnew : name ∉ w.claimed)
    (hstored : storedName entry = .error e) :
    Writes w fs name text fs { w with claimed := name :: w.claimed } (.error e)
  | late {entry : Path} (hformat : w.format = .archive .spent)
    (hentry : entryPath w.delimiter w.extension name = .ok entry) (hnew : name ∉ w.claimed) :
    Writes w fs name text fs { w with claimed := name :: w.claimed } (.error .spent)

theorem refuses_of_claim (hready : w.IsReady) (h : w.claim name = .error e) :
    w.Refuses name e := by
  unfold claim at h
  split at h
  · next hentry =>
    obtain rfl := Except.error.inj h
    exact .noPath hready hentry
  · next hentry =>
    split at h
    · next hclaimed =>
      obtain rfl := Except.error.inj h
      exact .claimed hready hentry (List.contains_iff_mem.1 hclaimed)
    · cases h

/-- A class with a path and a new name is not turned down. -/
theorem not_refuses (hready : w.IsReady)
    (hentry : entryPath w.delimiter w.extension name = .ok entry) (hnew : name ∉ w.claimed) :
    ¬ w.Refuses name e := by
  intro hrefuses
  cases hrefuses with
  | noFormat hformat => simp [IsReady, hformat] at hready
  | notOpen hformat => simp [IsReady, hformat] at hready
  | noPath _ herror => cases hentry.symm.trans herror
  | claimed _ _ hclaimed => exact hnew hclaimed

theorem writes_of_write (h : w.write fs name text = (fs', w', result)) :
    w.Writes fs name text fs' w' result := by
  unfold write at h
  cases hformat : w.format with
  | none =>
    simp only [hformat] at h
    obtain ⟨rfl, rfl, rfl⟩ := h
    exact .refused (.noFormat hformat)
  | directory =>
    simp only [hformat] at h
    split at h
    · next hclaim =>
      obtain ⟨rfl, rfl, rfl⟩ := h
      exact .refused (refuses_of_claim (.inl hformat) hclaim)
    next hclaim =>
    obtain ⟨hentry, hnew, rfl⟩ := claim_eq_ok_iff.1 hclaim
    split at h
    · next hfile =>
      obtain ⟨rfl, rfl, rfl⟩ := h
      exact .made hformat hentry hnew hfile
    · next hfile =>
      obtain ⟨rfl, rfl, rfl⟩ := h
      exact .unmade hformat hentry hnew hfile
  | archive state =>
    cases state with
    | closed =>
      simp only [hformat] at h
      obtain ⟨rfl, rfl, rfl⟩ := h
      exact .refused (.notOpen hformat)
    | opened given whole =>
      simp only [hformat] at h
      split at h
      · next hclaim =>
        obtain ⟨rfl, rfl, rfl⟩ := h
        exact .refused (refuses_of_claim (.inr (.inl ⟨given, whole, hformat⟩)) hclaim)
      next hclaim =>
      obtain ⟨hentry, hnew, rfl⟩ := claim_eq_ok_iff.1 hclaim
      simp only [addEntry] at h
      split at h
      · next hstored =>
        obtain ⟨rfl, rfl, rfl⟩ := h
        exact .unkept hformat hentry hnew hstored
      next hstored =>
      split at h
      · next htaken =>
        obtain ⟨rfl, rfl, rfl⟩ := h
        exact .kept hformat hentry hnew hstored htaken
      · next htorn =>
        obtain ⟨rfl, rfl, rfl⟩ := h
        exact .torn hformat hentry hnew hstored htorn
    | spent =>
      simp only [hformat] at h
      split at h
      · next hclaim =>
        obtain ⟨rfl, rfl, rfl⟩ := h
        exact .refused (refuses_of_claim (.inr (.inr hformat)) hclaim)
      · next hclaim =>
        obtain ⟨hentry, hnew, rfl⟩ := claim_eq_ok_iff.1 hclaim
        obtain ⟨rfl, rfl, rfl⟩ := h
        exact .late hformat hentry hnew

/-! ## Parts of classes -/

theorem Refuses.leavesPart (h : w.Refuses name e) : e.leavesPart = false := by
  cases h <;> rfl

theorem leavesPart_of_entryError {device : Device} {target : Path} {size : Nat}
    (h : entryError? device target entry given size = some e) : e.leavesPart = true := by
  unfold entryError? at h
  split at h
  · obtain rfl := Option.some.inj h
    rfl
  · split at h
    · obtain rfl := Option.some.inj h
      rfl
    · cases h

theorem leavesPart_of_storedName (h : storedName entry = .error e) : e.leavesPart = false := by
  unfold storedName at h
  dsimp only at h
  split at h
  · obtain rfl := Except.error.inj h
    rfl
  · split at h
    · obtain rfl := Except.error.inj h
      rfl
    · cases h

/-! ## Calls and what they come to -/

theorem write_of_claim (hready : w.IsReady) (h : w.claim name = .error e) (fs : Files)
    (text : String) : w.write fs name text = (fs, w, .error e) := by
  obtain hformat | ⟨given, whole, hformat⟩ | hformat := hready
  · simp only [write, hformat, h]
  · simp only [write, hformat, h]
  · simp only [write, hformat, h]

theorem Refuses.eq_write (h : w.Refuses name e) (fs : Files) (text : String) :
    w.write fs name text = (fs, w, .error e) := by
  cases h with
  | noFormat hformat => simp only [write, hformat]
  | notOpen hformat => simp only [write, hformat]
  | noPath hready hentry => exact write_of_claim hready (by simp only [claim, hentry]) fs text
  | claimed hready hentry hclaimed =>
    exact write_of_claim hready (by simp [claim, hentry, hclaimed]) fs text

/-- What comes of making the file of a class. -/
def answerOf (file : Path) : Option FileError → Except ExportError String
  | none => .ok file.toText
  | some e => .error (writeFault file e)

/-- A name that was not noted yet is, and the answer is what comes of making the file. -/
theorem write_of_not_claimed (hw : w.format = .directory)
    (hentry : entryPath w.delimiter w.extension name = .ok entry) (hnew : name ∉ w.claimed)
    (fs : Files) (text : String) :
    w.write fs name text =
      ((writeFile fs (w.target.append entry) text.toUTF8).1,
        { w with claimed := name :: w.claimed },
        answerOf (w.target.append entry)
          (writeFile fs (w.target.append entry) text.toUTF8).2) := by
  -- By cases, because to compute the call would be to compute how the directories are made.
  rcases hwrite : w.write fs name text with ⟨files, writer, answer⟩
  cases writes_of_write hwrite with
  | refused hrefuses => exact absurd hrefuses (not_refuses (.inl hw) hentry hnew)
  | made _ hother _ hfile =>
    obtain rfl := Except.ok.inj (hentry.symm.trans hother)
    rw [hfile]
    rfl
  | unmade _ hother _ hfile =>
    obtain rfl := Except.ok.inj (hentry.symm.trans hother)
    rw [hfile]
    rfl
  | kept hformat | torn hformat | unkept hformat | late hformat => cases hw.symm.trans hformat

theorem Writes.eq_write (h : w.Writes fs name text fs' w' result) :
    w.write fs name text = (fs', w', result) := by
  cases h with
  | refused hrefuses => exact hrefuses.eq_write fs text
  | made hformat hentry hnew hfile =>
    rw [write_of_not_claimed hformat hentry hnew, hfile]
    rfl
  | unmade hformat hentry hnew hfile =>
    rw [write_of_not_claimed hformat hentry hnew, hfile]
    rfl
  | kept hformat hentry hnew hstored htaken =>
    simp only [write, hformat, claim_eq_ok_iff.2 ⟨hentry, hnew, rfl⟩, addEntry, hstored, htaken]
    rfl
  | torn hformat hentry hnew hstored htorn =>
    simp only [write, hformat, claim_eq_ok_iff.2 ⟨hentry, hnew, rfl⟩, addEntry, hstored, htorn]
    rfl
  | unkept hformat hentry hnew hstored =>
    simp only [write, hformat, claim_eq_ok_iff.2 ⟨hentry, hnew, rfl⟩, addEntry, hstored]
  | late hformat hentry hnew =>
    simp only [write, hformat, claim_eq_ok_iff.2 ⟨hentry, hnew, rfl⟩]

/-- What writing a class changes about a writer: it has noted the name, which was new. -/
theorem write_eq_ok (h : w.write fs name text = (fs', w', .ok shown)) :
    name ∉ w.claimed ∧ ∃ format, w' = { w with format, claimed := name :: w.claimed } := by
  cases writes_of_write h with
  | made _ _ hnew => exact ⟨hnew, _, rfl⟩
  | kept _ _ hnew => exact ⟨hnew, _, rfl⟩

/-- Writing a class leaves the device as it is. -/
theorem device_write (h : w.write fs name text = (fs', w', result)) : fs'.device = fs.device := by
  cases writes_of_write h with
  | made _ _ _ hfile | unmade _ _ _ hfile => exact device_writeFile hfile
  | refused | kept | torn | unkept | late => rfl

end Writer

end ClassBrowser.Export
