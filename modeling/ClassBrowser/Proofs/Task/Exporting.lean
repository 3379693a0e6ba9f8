import ClassBrowser.Proofs.Export.ArchiveTarget
import ClassBrowser.Proofs.Log
import ClassBrowser.Proofs.Task.Completion
import ClassBrowser.Proofs.Task.Steps

/-!
# Export tasks

What an export to an archive leaves where all texts are known, and there is room for them: an
archive with one entry for each class, in the order of the classes.
-/

namespace ClassBrowser

open Export (Writer)

/-- Whether a class with a known text becomes the given entry of an archive. -/
def Saves (w : Writer) (u : ClassUnit) (entry : String × ByteArray) : Prop :=
  ∃ text path, u.text = some text ∧ Export.entryPath w.delimiter w.extension u.name = .ok path ∧
    Writer.storedName path = .ok entry.1 ∧ text.toUTF8 = entry.2

/-- Whether the worker of an export succeeds and leaves the archive of these entries at a path. -/
def Archives (kind : TaskKind) (target : Path) (s : Workspace) (stage : Stage) (file : Path)
    (entries : List (String × ByteArray)) : Prop :=
  ∃ s' sent summary executable, Completes kind target s stage s' sent ∧
    IsReport sent (.success (some (.exported summary))) ∧
    s'.world.files.get file = .ok (.file (.archive entries) executable)

variable {kind : TaskKind} {target : Path} {s : Workspace} {entry : ClassUnit → String × ByteArray}
  {written : List (String × ByteArray)} {w : Writer} {fs : Files}

theorem saves_unique {u : ClassUnit} {entry entry' : String × ByteArray} (h : Saves w u entry)
    (h' : Saves w u entry') : entry = entry' := by
  obtain ⟨text, path, htext, hpath, hstored, hdata⟩ := h
  obtain ⟨text', path', htext', hpath', hstored', hdata'⟩ := h'
  obtain rfl := Option.some.inj (htext.symm.trans htext')
  obtain rfl := Except.ok.inj (hpath.symm.trans hpath')
  exact Prod.ext (Except.ok.inj (hstored.symm.trans hstored')) (hdata.symm.trans hdata')

/-- One class of an export is saved. -/
theorem advance_exporting_of_saves {x : Exporting} {u : ClassUnit} {left : List ClassUnit}
    (hleft : x.left = u :: left) (hopen : x.writer.IsOpen s.world.files written true)
    (hnew : u.name ∉ x.writer.claimed) (hsaves : Saves x.writer u (entry u))
    (htakes : s.world.files.device.TakesAll x.writer.target.place
      (written ++ (u :: left).map entry)) :
    ∃ (y : Exporting) (p : Progress),
      s.advance kind target (.exporting x) = ⟨s, .exporting y, [.progress p]⟩ ∧ y.left = left ∧
      y.writer = x.writer.holding u.name (written ++ [entry u]) true := by
  obtain ⟨text, path, htext, hpath, hstored, hbytes⟩ := hsaves
  have hbegins : written ++ [entry u] <+: written ++ (u :: left).map entry := by
    simp [List.prefix_append_right_inj]
  have htaken := Writer.entryError?_of_takesAll htakes hbegins path
  rw [show entry u = ((entry u).1, text.toUTF8) from Prod.ext rfl hbytes.symm] at htaken
  have hwrite := Writer.write_archive hopen.format hnew hpath hstored htaken
  rw [hbytes] at hwrite
  let y : Exporting := { x with
    left
    handled := x.handled + 1
    writer := x.writer.holding u.name (written ++ [entry u]) true
    summary := { x.summary with written := x.summary.written ++ [u.name] } }
  refine ⟨y, ⟨x.handled + 1, some x.total, s!"Saved {x.handled + 1} of {x.total} classes"⟩, ?_,
    rfl, rfl⟩
  exact (Workspace.Moves.written (.own hleft htext) hwrite).eq_advance.symm

/-- An export to an open archive ends with the classes that are left in it. -/
theorem completes_exporting {x : Exporting} (hopen : x.writer.IsOpen s.world.files written true)
    (hsaves : ∀ u ∈ x.left, Saves x.writer u (entry u))
    (hnew : ∀ u ∈ x.left, u.name ∉ x.writer.claimed) (hnodup : (x.left.map ClassUnit.name).Nodup)
    (hroom : s.world.files.device.HasRoomFor x.writer.target.place
      (written ++ x.left.map entry)) :
    Archives kind target s (.exporting x) x.writer.target (written ++ x.left.map entry) := by
  induction hleft : x.left generalizing x written with
  | nil =>
    rw [hleft, List.map_nil, List.append_nil] at hroom
    obtain ⟨executable, hget⟩ := hopen.get_close hroom.closes
    have hclose : s.closeFailure? x.writer = none := by
      rw [Workspace.closeFailure?, hopen.close_error, hroom.closes]
      rfl
    refine ⟨s.closeWriter x.writer, _, x.summary, executable, .of_ends (by simp) ?_,
      isReport_singleton _, ?_⟩
    · rw [Workspace.advance_exporting_of_nil hleft, Workspace.endExport, hclose]
      exact ends_succeed _ _ _ _
    · rw [List.map_nil, List.append_nil]
      exact hget
  | cons u left ih =>
    rw [hleft] at hsaves hnew hnodup hroom
    obtain ⟨hu, hrest⟩ := List.forall_mem_cons.1 hsaves
    obtain ⟨hunew, hrestnew⟩ := List.forall_mem_cons.1 hnew
    obtain ⟨hufirst, hrestnodup⟩ := List.nodup_cons.1 hnodup
    obtain ⟨y, p, hstep, hyleft, hywriter⟩ :=
      advance_exporting_of_saves hleft hopen hunew hu hroom.toTakesAll
    have hyopen : y.writer.IsOpen s.world.files (written ++ [entry u]) true := by
      rw [hywriter]
      exact hopen.holding u.name _ _
    obtain ⟨s', sent, summary, executable, hsent, hreport, hget⟩ := ih hyopen
      (by rw [hyleft, hywriter]; exact hrest)
      (by
        rw [hyleft, hywriter]
        intro v hv hclaimed
        rcases List.mem_cons.1 hclaimed with hsame | hold
        · exact hufirst (hsame ▸ List.mem_map_of_mem hv)
        · exact hrestnew v hv hold)
      (by rw [hyleft]; exact hrestnodup)
      (by
        rw [hyleft, hywriter, List.append_assoc]
        exact hroom) hyleft
    refine ⟨s', .progress p :: sent, summary, executable, .of_ends (by simp) ?_,
      hreport.cons p, ?_⟩
    · rw [hstep]
      exact ⟨sent, hsent, rfl⟩
    · rw [hywriter, List.append_assoc] at hget
      exact hget

/-- An export of known texts to an archive that can be made, and for which there is room, leaves the
archive of all classes. -/
theorem archives_of_saves
    (hopen : (Writer.forArchive target s.delimiter s.extension).openTarget
      (s.world.note (exportingRecord s.store.units.length target)).files = (fs, .ok w))
    (hsaves : ∀ u ∈ s.store.units, Saves (.forArchive target s.delimiter s.extension) u (entry u))
    (hnodup : (s.store.units.map ClassUnit.name).Nodup)
    (hroom : s.world.files.device.HasRoomFor target.place (s.store.units.map entry)) :
    Archives .exportArchive target s .ready target (s.store.units.map entry) := by
  have hopened : s.Moves .exportArchive target .ready _ := .opened nofun hopen
  have hdevice : fs.device = s.world.files.device :=
    (Writer.device_openTarget hopen).trans (World.logs_note _ _).files.device
  rw [← hdevice] at hroom
  obtain ⟨rfl, hisOpen⟩ := Writer.openTarget_archive rfl hopen
  let x : Exporting :=
    ⟨{ Writer.forArchive target s.delimiter s.extension with
      format := .archive (.opened [] true) }, 0,
      s.store.units.length, s.store.units, ⟨target, [], []⟩⟩
  let t : Workspace := (s.exporting target).withFiles fs
  have hend : Archives .exportArchive target t (.exporting x) target (s.store.units.map entry) :=
    @completes_exporting .exportArchive target t entry [] x hisOpen hsaves
      (fun _ _ => List.not_mem_nil) hnodup hroom
  obtain ⟨s', sent, summary, executable, hsent, hreport, hget⟩ := hend
  refine ⟨s', sent, summary, executable, .of_ends (by simp) ?_, hreport, hget⟩
  rw [← hopened.eq_advance]
  exact ends_silently hsent

end ClassBrowser
