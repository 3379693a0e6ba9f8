import ClassBrowser.Proofs.Export.Rewriting
import ClassBrowser.Proofs.Task.FailedExports
import ClassBrowser.Proofs.Task.FailedRuns

/-!
# Completed exports

What an export leaves and reports that saves all classes, when the engine, if there is one, always
gives the same texts (`Pipeline.perform_export_of_renders`): each class that has a text, be it in
the store or by the engine, is saved under a name of its own with the bytes of that text, and the
others are skipped.  Only classes that are in the store without a text are asked for, so that this
holds of whatever the external decompiler has left (`Workspace.renders_of_decompile`).

An export to an archive that can be made saves them all, provided that an archive can keep their
entries and that there is room for it: it does not keep names that are too long or have no encoding
(`perform_export_unkept_names`).
-/

namespace ClassBrowser

open Export (Writer)

namespace Workspace

/-- Whether asking for the texts of classes that are in the store without one gives those of a
function, whenever it is done, and throws nothing. -/
def Renders (s : Workspace) (f : String → Option String) : Prop :=
  ∀ name ∈ s.store.names, s.store.text? name = none → match s.engine with
    | none => f name = none
    | some e => ∀ w, (e.renderNow w name).2 = .ok (f name)

/-- The text of a class: that in the store, or else the one that is asked for. -/
def textOf (s : Workspace) (f : String → Option String) (name : String) : Option String :=
  (s.store.text? name).or (f name)

/-- The classes in the store that have a text, with their texts, in the order of their names. -/
def withText (s : Workspace) (f : String → Option String) : List (String × String) :=
  s.store.names.filterMap fun name => (s.textOf f name).map fun text => (name, text)

/-- The classes in the store that have no text, in the order of their names. -/
def withoutText (s : Workspace) (f : String → Option String) : List String :=
  s.store.names.filter fun name => (s.textOf f name).isNone

/-- What an export sends that saves all classes. -/
def exportReport (s : Workspace) (f : String → Option String) (target : Path) : List Message :=
  savedMessages s.store.size s.store.size ++ [.finished (.success (some (.exported
    ⟨target, (s.withText f).map Prod.fst, s.withoutText f⟩)))]

/-- Whether the entry of a class can stand in an archive: its name has a path, whose text has an
encoding of limited length. -/
def FitsArchive (s : Workspace) (name : String) : Prop :=
  Text.hasNull name = false ∧ ∃ path text,
    Export.entryPath s.delimiter s.extension name = .ok path ∧ path.toLoose = .whole text ∧
      text.utf8ByteSize ≤ Export.maxEntryBytes

/-- Whether an archive can be made at a path. -/
def CanCreateArchive (s : Workspace) (target : Path) : Prop :=
  ∃ w, ((s.writerFor .exportArchive target).openTarget
    (s.world.note (exportingRecord s.store.size target)).files).2 = .ok w

/-- Whether an export has done what it should. -/
structure Exports (s : Workspace) (kind : TaskKind) (target : Path) (f : String → Option String)
    (after : Files) (summary : Summary) : Prop where
  summary : summary = ⟨target, (s.withText f).map Prod.fst, s.withoutText f⟩
  directory : kind = .exportDirectory → ∀ c ∈ s.withText f, s.Writes target c
  archive : kind = .exportArchive → ∃ entries executable,
    after.get target = .ok (.file (.archive entries) executable) ∧
      List.Forall₂ (fun c => Saves (s.writerFor kind target) ⟨c.1, some c.2⟩) (s.withText f) entries

/-- Whether there is room for an archive with the entries of the classes that have a text. -/
def HasRoom (s : Workspace) (f : String → Option String) (target : Path) : Prop :=
  ∀ entries, List.Forall₂ (s.writerFor .exportArchive target).IsEntryOf (s.withText f) entries →
    s.world.files.device.HasRoomFor target.place entries

variable {s : Workspace} {f : String → Option String} {u : ClassUnit} {kind : TaskKind}
  {target : Path} {text : Option String}

theorem canCreateArchive_of_isSome
    (h : ((s.writerFor .exportArchive target).openTarget
      (s.world.note (exportingRecord s.store.size target)).files).2.toOption.isSome) :
    s.CanCreateArchive target := by
  unfold CanCreateArchive
  cases hopen : ((s.writerFor .exportArchive target).openTarget
    (s.world.note (exportingRecord s.store.size target)).files).2 with
  | error e =>
    rw [hopen] at h
    cases h
  | ok w => exact ⟨w, rfl⟩

/-! ## Texts -/

theorem Renders.ask_eq (h : s.Renders f) (hu : u ∈ s.store.units) (w : World) :
    ((s.withWorld w).ask u).2 = .ok (u.text.or (f u.name)) := by
  have hasked : u.text = none → _ := fun htext =>
    h u.name (Store.name_mem_names hu) ((Store.text?_of_mem_units hu).trans htext)
  obtain ⟨world, store, engine, factory, delimiter, extension⟩ := s
  obtain ⟨name, text⟩ := u
  cases text with
  | some text => cases engine <;> rfl
  | none => cases engine with
    | none => exact congrArg Except.ok (hasked rfl).symm
    | some e => exact hasked rfl w

theorem not_mem_of_performNow {w : World} {acts : List Act}
    (h : (Engine.performNow w acts).2 = none) (t : Thrown) : .throw t ∉ acts ∧ .abort t ∉ acts := by
  fun_induction Engine.performNow w acts with
  | case1 => simp
  | case2 w record rest ih => simpa using ih h
  | case3 => cases h
  | case4 => cases h
  | case5 w act rest _ hthrow habort ih =>
    have hfirst : .throw t ≠ act ∧ .abort t ≠ act :=
      ⟨fun hact => hthrow t hact.symm, fun hact => habort t hact.symm⟩
    simpa [hfirst] using ih h

/-- An engine that gives the texts of a function throws nothing when it is asked for them. -/
theorem Renders.render_eq (h : s.Renders f) {e : Engine} (he : s.engine = some e)
    (hu : u ∈ s.store.units) (htext : u.text = none) (w : World) :
    (e.render w u.name).2.2 = f u.name ∧
      ∀ t, .throw t ∉ (e.render w u.name).2.1 ∧ .abort t ∉ (e.render w u.name).2.1 := by
  have hanswers :=
    h u.name (Store.name_mem_names hu) ((Store.text?_of_mem_units hu).trans htext)
  rw [he] at hanswers
  have hanswer := hanswers w
  rw [Engine.renderNow_eq] at hanswer
  split at hanswer
  · next hperform => exact ⟨Except.ok.inj hanswer, not_mem_of_performNow hperform⟩
  · cases hanswer

theorem Renders.isTame (h : s.Renders f) : s.IsTame := fun _ he _ hu htext w t =>
  ((h.render_eq he hu htext w).2 t).2

theorem textOf_eq (hu : u ∈ s.store.units) : s.textOf f u.name = u.text.or (f u.name) := by
  rw [textOf, Store.text?_of_mem_units hu]

theorem Renders.eq_of_finds (h : s.Renders f) (hu : u ∈ s.store.units)
    (hfinds : s.Finds kind target u text) : text = s.textOf f u.name := by
  obtain ⟨w, x, left, sent, -, -, hask⟩ := hfinds
  rw [h.ask_eq hu] at hask
  rw [textOf_eq hu, Except.ok.inj hask]

theorem map_fst_withText (s : Workspace) (f : String → Option String) :
    (s.withText f).map Prod.fst = s.store.names.filter fun name => (s.textOf f name).isSome := by
  rw [withText]
  induction s.store.names with
  | nil => rfl
  | cons name names ih =>
    cases htext : s.textOf f name with
    | none => simp [htext, ih]
    | some text => simp [htext, ih]

theorem mem_withText_iff {c : String × String} :
    c ∈ s.withText f ↔ c.1 ∈ s.store.names ∧ s.textOf f c.1 = some c.2 := by
  rw [withText, List.mem_filterMap]
  constructor
  · rintro ⟨name, hname, hmap⟩
    obtain ⟨text, htext, rfl⟩ := Option.map_eq_some_iff.1 hmap
    exact ⟨hname, htext⟩
  · rintro ⟨hname, htext⟩
    exact ⟨c.1, hname, by rw [htext]; rfl⟩

/-- A script always gives the texts of its table, if it does nothing else when it is asked. -/
theorem renders_of_script {number : Nat} {machine : Script}
    (hengine : s.engine = some ⟨number, .script machine⟩)
    (hplain : ∀ c ∈ machine.rendered, c.2.acts = []) :
    s.Renders fun name => (machine.rendered.get? name).bind Rendering.text := by
  intro name _ _
  rw [hengine]
  intro w
  have hrender : Engine.render ⟨number, .script machine⟩ w name =
      (Engine.trace ⟨number, .script machine⟩ w (.render name), [],
        (machine.rendered.get? name).bind Rendering.text) := by
    unfold Engine.render
    cases hget : machine.rendered.get? name with
    | none => simp [hget]
    | some rendering =>
      have hacts : rendering.acts = [] := hplain _ (Assoc.mem_of_get? hget)
      simp [hget, hacts]
  rw [Engine.renderNow, hrender]
  rfl

/-- Where each class in the store has its text, nothing has to be asked for. -/
theorem renders_of_texts (h : ∀ name ∈ s.store.names, s.store.text? name ≠ none)
    (f : String → Option String) : s.Renders f :=
  fun name hname htext => absurd htext (h name hname)

/-- The external decompiler reports no class without its text, so that after it has run nothing is
to be asked for. -/
theorem renders_of_decompile {settings : Settings} {archive : Path} {s' : Workspace}
    {sent : List Message} (hfactory : s.factory = some (.decompiler settings))
    (h : Completes .decompileArchive archive s .ready s' sent) (f : String → Option String) :
    s'.Renders f := by
  obtain ⟨s₁, hcompletes, hentries, -⟩ := exists_completes_run hfactory archive
  obtain ⟨rfl, -⟩ := h.unique hcompletes
  refine renders_of_texts (fun name hname hnone => ?_) f
  obtain ⟨text, hentry⟩ := Assoc.mem_keys_iff.1 (Store.mem_names_iff.1 hname)
  have hlast : Assoc.last? (Act.classes (s.engineRun (.decompiler settings) archive).acts) name =
      some text := by
    rw [← hentry, hentries, Assoc.get?_insertAll_eq_or, Assoc.get?_nil, Option.or_none]
  have hmem := List.mem_reverse.1 (Assoc.mem_of_get? hlast)
  obtain ⟨own, rfl⟩ := Decompiler.exists_text_of_mem_classes hmem
  rw [Store.text?, hentry] at hnone
  cases hnone

/-- The classes with a text in terms of the snapshot that an export takes. -/
theorem withText_eq (s : Workspace) (f : String → Option String) :
    s.withText f = s.store.units.filterMap fun u =>
      (s.textOf f u.name).map fun text => (u.name, text) := by
  rw [withText, ← s.store.map_name_units, List.filterMap_map]
  rfl

/-- Classes whose entries fit into an archive have entries. -/
theorem exists_entries (h : ∀ c ∈ s.withText f, s.FitsArchive c.1) (target : Path) :
    ∃ entries, List.Forall₂ (s.writerFor .exportArchive target).IsEntryOf (s.withText f) entries :=
  Writer.exists_forall₂ fun c hc => by
    obtain ⟨-, path, text, hpath, htext, -⟩ := h c hc
    exact ⟨(text, c.2.toUTF8), path, hpath, htext, rfl⟩

/-- No name that has an entry in an archive is cut off there. -/
theorem Renders.hasNull_of_finds (h : s.Renders f) (hfits : ∀ c ∈ s.withText f, s.FitsArchive c.1)
    (hu : u ∈ s.store.units) {text : String} (hfinds : s.Finds kind target u (some text)) :
    Text.hasNull u.name = false :=
  (hfits (u.name, text) (mem_withText_iff.2
    ⟨Store.name_mem_names hu, (h.eq_of_finds hu hfinds).symm⟩)).1

theorem pairwise_names (s : Store) : s.names.Pairwise (· < ·) := by
  rw [← s.map_name_units, List.pairwise_map]
  exact s.pairwise_units

/-- The classes with a text and those without one are all, in the order of their names. -/
theorem withText_withoutText (s : Workspace) (f : String → Option String) :
    ((s.withText f).map Prod.fst).Pairwise (· < ·) ∧ (s.withoutText f).Pairwise (· < ·) ∧
      ((s.withText f).map Prod.fst ++ s.withoutText f).Perm s.store.names := by
  rw [map_fst_withText]
  refine ⟨(pairwise_names s.store).filter _, (pairwise_names s.store).filter _, ?_⟩
  have hperm := List.filter_append_perm (fun name => (s.textOf f name).isSome) s.store.names
  simpa [withoutText, Option.not_isSome] using hperm

end Workspace

section

variable {s : Workspace} {f : String → Option String} {kind : TaskKind} {target : Path}
  {done : List (ClassUnit × Option String)} {w : World} {x : Exporting}

/-- What an export has saved are those of the classes it has handled that have a text. -/
theorem Underway.savedOf_eq_filterMap (h : Underway kind target s done w x)
    (hrenders : s.Renders f) :
    savedOf done = (done.map Prod.fst).filterMap fun u =>
      (s.textOf f u.name).map fun text => (u.name, text) := by
  rw [savedOf, List.filterMap_map]
  refine List.filterMap_congr fun c hc => ?_
  have hmem : c.1 ∈ s.store.units := by
    rw [h.units]
    exact List.mem_append_left _ (List.mem_map_of_mem hc)
  rw [hrenders.eq_of_finds hmem (h.found c hc)]
  rfl

/-- An export that is done with all classes has saved those with a text and skipped the others. -/
theorem Underway.savedOf_eq (h : Underway kind target s done w x) (hleft : x.left = [])
    (hrenders : s.Renders f) :
    savedOf done = s.withText f ∧ skippedOf done = s.withoutText f := by
  have hunits : s.store.units = done.map Prod.fst := by
    rw [h.units, hleft, List.append_nil]
  refine ⟨by rw [h.savedOf_eq_filterMap hrenders, s.withText_eq, hunits], ?_⟩
  have hnames : s.store.names = done.map fun c => c.1.name := by
    rw [← s.store.map_name_units, hunits, List.map_map]
    rfl
  rw [Workspace.withoutText, hnames, List.filter_map]
  refine congrArg _ (List.filter_congr ?_)
  intro c hc
  rw [hrenders.eq_of_finds (hunits ▸ List.mem_map_of_mem hc) (h.found c hc)]
  rfl

/-- What an export has saved, and then the next class, are the first of the classes with a text. -/
theorem Underway.savedOf_prefix {u : ClassUnit} {left : List ClassUnit} {text : String}
    (h : Underway kind target s done w x) (hleft : x.left = u :: left) (hrenders : s.Renders f)
    (htext : s.textOf f u.name = some text) :
    savedOf done ++ [(u.name, text)] <+: s.withText f := by
  have hunits : s.store.units = done.map Prod.fst ++ u :: left := hleft ▸ h.units
  have hall : s.withText f = savedOf done ++ (u.name, text) :: left.filterMap fun u =>
      (s.textOf f u.name).map fun text => (u.name, text) := by
    rw [s.withText_eq, hunits, List.filterMap_append, ← h.savedOf_eq_filterMap hrenders,
      List.filterMap_cons_some (by rw [htext]; rfl)]
  exact ⟨_, by rw [hall, List.append_assoc, List.singleton_append]⟩

/-- A class whose entry fits is exported to an archive for which there is room. -/
theorem Underway.not_cannotExport {u : ClassUnit} {left : List ClassUnit} {failure : TaskFailure}
    (h : Underway .exportArchive target s done w x) (hleft : x.left = u :: left)
    (hslash : .char '/' ∉ s.extension.glyphs) (hext : .char '\x00' ∉ s.extension.glyphs)
    (hrenders : s.Renders f) (hfits : ∀ c ∈ s.withText f, s.FitsArchive c.1)
    (hroom : s.HasRoom f target) : ¬ (s.withWorld w).CannotExport x.writer u failure := by
  have hu : u ∈ s.store.units := by
    rw [h.units, hleft]
    simp
  intro hcannot
  cases hcannot with
  | thrown hask =>
    rw [hrenders.ask_eq hu] at hask
    cases hask
  | @unwritten text e hask hwrite =>
    have htext : s.textOf f u.name = some text := by
      rw [hrenders.ask_eq hu] at hask
      rw [Workspace.textOf_eq hu, Except.ok.inj hask]
    have hnext := h.savedOf_prefix hleft hrenders htext
    obtain ⟨hname, path, entry, hpath, hentry, hlength⟩ :=
      hfits (u.name, text) (hnext.subset (by simp))
    have hstored := Export.storedName_of_entryPath hslash hext hname hpath hentry hlength
    obtain ⟨w', hw', hlogs⟩ := (s.withWorld w).ask_eq u
    have hasked : w.Logs ((s.withWorld w).ask u).1.world := by
      rw [hw']
      exact hlogs
    have hholds := (h.holds (by decide) hslash hext fun _ _ hu _ =>
      hrenders.hasNull_of_finds hfits hu).logs (h.logPlace ▸ hasked.files)
    have hdevice := hasked.files.device.trans h.device
    obtain ⟨entries, hentries⟩ := Workspace.exists_entries hfits target
    have htaken : ∀ given,
        List.Forall₂ (s.writerFor .exportArchive target).IsEntryOf (savedOf done) given →
          Writer.entryError? ((s.withWorld w).ask u).1.world.files.device target path
            (given ++ [(entry, text.toUTF8)]) text.toUTF8.size = none := by
      intro given hgiven
      obtain ⟨e, ⟨path', hpath', hname', hbytes⟩, hbegins⟩ :=
        Writer.exists_prefix_of_forall₂ (Writer.rightUnique_isEntryOf _) hentries hgiven hnext
      obtain rfl := Except.ok.inj (hpath.symm.trans hpath')
      have he : e = (entry, text.toUTF8) :=
        Prod.ext (Text.Loose.whole.inj (hname'.symm.trans hentry)) hbytes.symm
      rw [he] at hbegins
      rw [hdevice]
      exact Writer.entryError?_of_takesAll (hroom entries hentries).toTakesAll hbegins path
    have hok := hholds.write_archive_eq_ok (h.new hleft) hpath hstored htaken
    rw [hok] at hwrite
    cases hwrite

namespace Pipeline

variable {p : Pipeline}

/-- An export to an archive for which there is room saves all classes that have a text. -/
theorem perform_exportArchive (hidle : p.isBusy = false) (hrenders : p.workspace.Renders f)
    (hslash : .char '/' ∉ p.workspace.extension.glyphs)
    (hext : .char '\x00' ∉ p.workspace.extension.glyphs)
    (hfits : ∀ c ∈ p.workspace.withText f, p.workspace.FitsArchive c.1)
    (hcreate : p.workspace.CanCreateArchive target) (hroom : p.workspace.HasRoom f target) :
    ∃ q, p.perform .exportArchive target = .ok (q, p.workspace.exportReport f target) ∧
      (p.workspace.writerFor .exportArchive target).HoldsArchive q.workspace.world.files
        (p.workspace.withText f) := by
  obtain ⟨q, sent, hperform, -, -, hend⟩ :=
    @perform_export .exportArchive target p hidle nofun hslash hext hrenders.isTame
      fun _ _ hu _ => hrenders.hasNull_of_finds hfits hu
  cases hend with
  | unopened hopen =>
    obtain ⟨writer, hwriter⟩ := hcreate
    rw [← Store.length_units, hopen] at hwriter
    cases hwriter
  | stopped hunderway hleft hcannot =>
    exact absurd hcannot (hunderway.not_cannotExport hleft hslash hext hrenders hfits hroom)
  | unclosed hunderway hleft _ hcloses =>
    refine absurd (fun _ entries hentries => ?_) hcloses
    rw [(hunderway.savedOf_eq hleft hrenders).1] at hentries
    exact (hroom entries hentries).closes
  | completed hunderway hleft hleaves =>
    obtain ⟨hsaved, hskipped⟩ := hunderway.savedOf_eq hleft hrenders
    rw [hsaved] at hleaves
    rw [hsaved, hskipped, Store.length_units] at hperform
    exact ⟨q, hperform, hleaves.archive rfl⟩

/-- An export to a directory that succeeds has saved all classes that have a text. -/
theorem perform_exportDirectory (hidle : p.isBusy = false) (hrenders : p.workspace.Renders f)
    (hslash : .char '/' ∉ p.workspace.extension.glyphs)
    (hext : .char '\x00' ∉ p.workspace.extension.glyphs) {q : Pipeline} {sent : List Message}
    {result : Option TaskResult} (hperform : p.perform .exportDirectory target = .ok (q, sent))
    (hsuccess : .finished (.success result) ∈ sent) :
    sent = p.workspace.exportReport f target ∧
      (p.workspace.writerFor .exportDirectory target).HoldsFiles p.workspace.world.logPlace
        p.workspace.world.files q.workspace.world.files (p.workspace.withText f)
        ((p.workspace.withText f).map Prod.fst) := by
  obtain ⟨q', sent', hperform', -, -, hend⟩ := @perform_export .exportDirectory target p hidle nofun
    hslash hext hrenders.isTame nofun
  obtain ⟨rfl, rfl⟩ := Prod.mk.inj (Except.ok.inj (hperform.symm.trans hperform'))
  cases hend with
  | unopened => exact nomatch (isReport_singleton _).eq_of_mem hsuccess
  | stopped => exact nomatch (isReport_savedMessages _ _ _).eq_of_mem hsuccess
  | unclosed => exact nomatch (isReport_savedMessages _ _ _).eq_of_mem hsuccess
  | completed hunderway hleft hleaves =>
    obtain ⟨hsaved, hskipped⟩ := hunderway.savedOf_eq hleft hrenders
    rw [hsaved] at hleaves
    rw [hsaved, hskipped, Store.length_units]
    exact ⟨rfl, hleaves.files rfl⟩

/-- An export that succeeds, of classes whose texts are those of a function, has written those that
have a text, each with the bytes of that text, and has skipped the others. -/
theorem perform_writes (hidle : p.isBusy = false) (hkind : kind ≠ .decompileArchive)
    (hrenders : p.workspace.Renders f) {q : Pipeline} {sent : List Message} {summary : Summary}
    (hperform : p.perform kind target = .ok (q, sent))
    (hsuccess : .finished (.success (some (.exported summary))) ∈ sent) :
    p.workspace.Exports kind target f q.workspace.world.files summary := by
  obtain ⟨q', before, a, hperform', hlast, hworkspace, -⟩ :=
    perform_lastStep hidle hkind hrenders.isTame
  obtain ⟨rfl, rfl⟩ := Prod.mk.inj (Except.ok.inj (hperform.symm.trans hperform'))
  cases hlast with
  | unopened => exact nomatch (isReport_singleton _).eq_of_mem hsuccess
  | thrown | unwritten => exact nomatch (isReport_savedMessages _ _ _).eq_of_mem hsuccess
  | @ended done w x hunderway hleft =>
    obtain ⟨hsaved, hskipped⟩ := hunderway.savedOf_eq hleft hrenders
    rcases (p.workspace.withWorld w).endExport_cases kind x.writer
      (·.succeed (.exported x.summary)) with ⟨hclose, hend⟩ | ⟨failure, -, hend⟩
    · rw [hend] at hsuccess hworkspace
      have hsame := (isReport_savedMessages _ _ _).eq_of_mem hsuccess
      obtain rfl : summary = x.summary := by simpa using hsame
      rw [hworkspace]
      have hwritten := hunderway.written
      rw [hsaved] at hwritten
      refine ⟨by rw [hunderway.summary, hsaved, hskipped], ?_, ?_⟩
      · exact fun hkind => hsaved ▸ hunderway.writes hkind
      · rintro rfl
        exact hwritten.closed_archive rfl (Option.map_eq_none_iff.1 hclose)
    · rw [hend] at hsuccess
      exact nomatch (isReport_savedMessages _ _ _).eq_of_mem hsuccess

/-- An export of classes whose texts are those of a function.  If they fit into an archive, an
export to one that can be made and has room for them succeeds, and the archive has an entry of its
own for each class with a text and no others.  If an export to a directory succeeds, the files of
these classes were written and nothing else has changed but for directories that were made; what the
log adds to its file is left aside.  Both report each class, skipped or not, and then which classes
were written and which were skipped. -/
theorem perform_export_of_renders (hidle : p.isBusy = false) (hrenders : p.workspace.Renders f)
    (hslash : .char '/' ∉ p.workspace.extension.glyphs)
    (hext : .char '\x00' ∉ p.workspace.extension.glyphs) :
    let s := p.workspace
    ((∀ c ∈ s.withText f, s.FitsArchive c.1) → s.CanCreateArchive target → s.HasRoom f target →
      ∃ q entries executable,
        p.perform .exportArchive target = .ok (q, s.exportReport f target) ∧
        q.workspace.world.files.get target = .ok (.file (.archive entries) executable) ∧
        List.Forall₂ (s.writerFor .exportArchive target).IsEntryOf (s.withText f) entries ∧
        (entries.map Prod.fst).Nodup) ∧
    (∀ q sent result, p.perform .exportDirectory target = .ok (q, sent) →
      .finished (.success result) ∈ sent → sent = s.exportReport f target ∧
        (s.writerFor .exportDirectory target).HoldsFiles s.world.logPlace s.world.files
          q.workspace.world.files (s.withText f) ((s.withText f).map Prod.fst)) ∧
    ((s.withText f).map Prod.fst).Pairwise (· < ·) ∧ (s.withoutText f).Pairwise (· < ·) ∧
      ((s.withText f).map Prod.fst ++ s.withoutText f).Perm s.store.names := by
  intro s
  refine ⟨?_, fun q sent result => perform_exportDirectory hidle hrenders hslash hext,
    s.withText_withoutText f⟩
  intro hfits hcreate hroom
  obtain ⟨q, hperform, entries, executable, hget, hentries⟩ :=
    perform_exportArchive hidle hrenders hslash hext hfits hcreate hroom
  refine ⟨q, entries, executable, hperform, hget, hentries, ?_⟩
  exact Writer.nodup_names_entries hslash hentries
    ((s.withText_withoutText f).1.imp fun h => h.ne)

namespace Sample

/-- An engine that has the text of one of the classes. -/
def rendering : Engine := ⟨0, .script ⟨"e", [], [], [("p/B", .ofText (some "b"))]⟩⟩

/-- A class with a text, one for which the engine has one, and one that has none. -/
def mixed : Workspace :=
  ⟨.start .empty {}, ((Store.empty.put "p/A" (some "a")).put "p/B" none).put "p/C" none,
    some rendering, none, "/", ".java"⟩

def rendered (name : String) : Option String :=
  (Assoc.get? [("p/B", Rendering.ofText (some "b"))] name).bind Rendering.text

theorem renders_mixed : mixed.Renders rendered :=
  Workspace.renders_of_script (s := mixed) rfl (by decide)

theorem names_mixed : mixed.store.names = ["p/A", "p/B", "p/C"] :=
  List.mergeSort_of_pairwise (by decide)

theorem withText_mixed : mixed.withText rendered = [("p/A", "a"), ("p/B", "b")] := by
  rw [Workspace.withText, names_mixed]
  decide +kernel

theorem withoutText_mixed : mixed.withoutText rendered = ["p/C"] := by
  rw [Workspace.withoutText, names_mixed]
  decide +kernel

theorem fitsArchive_mixed (c : String × String) (hc : c ∈ mixed.withText rendered) :
    mixed.FitsArchive c.1 := by
  rw [withText_mixed, List.mem_cons, List.mem_singleton] at hc
  rcases hc with rfl | rfl
  · exact ⟨by decide +kernel, ⟨.relative, ["p", "A.java"]⟩, "p/A.java", by decide +kernel,
      by decide +kernel, by decide +kernel⟩
  · exact ⟨by decide +kernel, ⟨.relative, ["p", "B.java"]⟩, "p/B.java", by decide +kernel,
      by decide +kernel, by decide +kernel⟩

theorem canCreate_mixed : mixed.CanCreateArchive archive :=
  Workspace.canCreateArchive_of_isSome (by decide +kernel)

theorem hasRoom_mixed : mixed.HasRoom rendered archive := by
  intro entries hentries
  rw [withText_mixed] at hentries
  refine Device.hasRoomFor_roomy archive.place fun e he => ?_
  obtain ⟨c, hc, path, -, -, hbytes⟩ := Writer.exists_of_mem_entries hentries he
  have hshort : ∀ c ∈ [("p/A", "a"), ("p/B", "b")], c.2.toUTF8.size ≤ Export.maxEntrySize := by
    decide +kernel
  exact hbytes ▸ hshort c hc

end Sample

theorem perform_export_of_renders_sample :
    ∃ q entries executable, perform ⟨Sample.mixed, []⟩ .exportArchive Sample.archive =
        .ok (q, savedMessages 3 3 ++ [.finished (.success (some (.exported
          ⟨Sample.archive, ["p/A", "p/B"], ["p/C"]⟩)))]) ∧
      q.workspace.world.files.get Sample.archive = .ok (.file (.archive entries) executable) ∧
      List.Forall₂ (Sample.mixed.writerFor .exportArchive Sample.archive).IsEntryOf
        [("p/A", "a"), ("p/B", "b")] entries := by
  obtain ⟨q, entries, executable, hperform, hget, hentries, -⟩ := (@perform_export_of_renders
    Sample.rendered Sample.archive ⟨Sample.mixed, []⟩ rfl Sample.renders_mixed (by decide)
    (by decide)).1 Sample.fitsArchive_mixed Sample.canCreate_mixed Sample.hasRoom_mixed
  rw [Workspace.exportReport, Sample.withText_mixed, Sample.withoutText_mixed] at hperform
  rw [Sample.withText_mixed] at hentries
  exact ⟨q, entries, executable, hperform, hget, hentries⟩

/-! ## Entries that an archive cannot keep -/

/-- An export to an archive fails if the archive cannot keep the entry of the first class. -/
theorem perform_exportArchive_of_storedName {u : ClassUnit} {behind : List ClassUnit}
    {text : String} {path : Path} {e : Export.ExportError} (hidle : p.isBusy = false)
    (hunits : p.workspace.store.units = u :: behind) (htext : u.text = some text)
    (hpath : Export.entryPath p.workspace.delimiter p.workspace.extension u.name = .ok path)
    (hstored : Writer.storedName path = .error e) (hcreate : p.workspace.CanCreateArchive target)
    (hcloses : p.workspace.world.files.device.Closes target.place []) :
    ∃ q, p.perform .exportArchive target = .ok (q, [.finished (.failure e.message)]) := by
  let s := p.workspace
  obtain ⟨w, hw⟩ := hcreate
  rw [← Store.length_units] at hw
  rcases hopen : (s.writerFor .exportArchive target).openTarget
    (s.exporting target).world.files with ⟨files, result⟩
  obtain rfl : result = .ok w := by
    rw [← hw]
    exact (congrArg Prod.snd hopen).symm
  have hdevice : files.device = s.world.files.device :=
    (Writer.device_openTarget hopen).trans (World.logs_note _ _).files.device
  obtain ⟨rfl, hisOpen⟩ := Writer.openTarget_archive rfl hopen
  have hwrite := Writer.write_archive_of_error hisOpen.format List.not_mem_nil hpath hstored files
    text
  have hgiven : Writer.IsOpen { s.writerFor .exportArchive target with
      format := .archive (.opened [] true), claimed := [u.name] } files [] true :=
    ⟨rfl, hisOpen.place⟩
  have hclose := hgiven.close_error
  rw [hdevice] at hclose
  obtain ⟨q, hperform, -⟩ := @perform_export_of_first .exportArchive target p u behind text _ _ _ _
    _ hidle nofun hunits htext hopen hwrite (hclose.trans (Option.map_eq_none_iff.2 hcloses))
  exact ⟨q, hperform⟩

namespace Sample

/-- A name of so many letters that with the extension it is one byte too long for an archive. -/
def longName : String := String.ofList (List.replicate 65531 'a')

/-- A single class with a text, and no engine. -/
def oneClass (name : String) (extension : Text.Loose) : Workspace :=
  ⟨.start .empty {}, Store.empty.put name (some "x"), none, none, "/", extension⟩

/-- An extension that has no encoding. -/
def torn : Text.Loose := .torn [.char '.', .half 0xD800] rfl

theorem toList_longName : longName.toList = List.replicate 65531 'a' := String.toList_ofList

theorem utf8ByteSize_longName : longName.utf8ByteSize = 65531 :=
  Text.utf8ByteSize_replicate 65531 'a'

theorem units_oneClass (name : String) (extension : Text.Loose) :
    (oneClass name extension).store.units = [⟨name, some "x"⟩] :=
  List.mergeSort_singleton _

theorem mem_longName {c : Char} (hc : c ∈ longName.toList) : c = 'a' := by
  rw [toList_longName] at hc
  exact List.eq_of_mem_replicate hc

theorem longName_ne_empty : longName ≠ "" := by
  intro hempty
  have hlength := congrArg List.length toList_longName
  rw [hempty, List.length_replicate] at hlength
  cases hlength

/-- A name of letters is accepted. -/
theorem exists_entryPath_of_letters {s : String} (hs : s ≠ "") (h : ∀ c ∈ s.toList, c = 'a') :
    ∃ path, Export.entryPath "/" ".java" s = .ok path := by
  have hletter : ∀ c : Char, c ≠ 'a' → c ∉ s.toList := fun c hc hmem => hc (h c hmem)
  have hdots : ∀ t : String, '.' ∈ t.toList → s ≠ t := by
    rintro t ht rfl
    exact hletter '.' (by decide) ht
  have hslash : ¬ ['/'] <:+: s.toList := fun hoccurs =>
    hletter '/' (by decide) (hoccurs.subset (by simp))
  refine ⟨_, Export.entryPath_eq_ok_iff.2 ⟨[s], ?_, ?_, rfl⟩⟩
  · refine QualifiedName.pieces_whole.2 ⟨'/', [], rfl, ?_⟩
    rw [Text.splitChars, Text.splitFrom_of_not_isInfix [] hslash]
    rfl
  · intro segment hsegment
    obtain rfl := List.mem_singleton.1 hsegment
    exact Export.isComponent_iff.2 ⟨hs, hdots _ (by decide), hdots _ (by decide),
      hletter _ (by decide), hletter _ (by decide)⟩

theorem hasNull_longName : Text.hasNull longName = false := by
  have hnull : '\x00' ∉ longName.toList := fun hmem => absurd (mem_longName hmem) (by decide)
  simpa [Text.hasNull] using hnull

/-- The entry of the class has no place in an archive. -/
theorem storedName_longName {path : Path}
    (hpath : Export.entryPath "/" ".java" longName = .ok path) :
    Writer.storedName path = .error .longEntry := by
  have htext := Export.toLoose_entryPath_slash (by decide) hpath
  have hnull := Export.null_not_mem_toLoose (by decide) (by decide) hasNull_longName hpath
  have hkept : entryName path.toLoose = .whole (longName ++ ".java") := by
    rw [← htext]
    exact Text.Loose.beforeNull_of_not_mem hnull
  have hsize : (longName ++ ".java").utf8ByteSize = 65536 := by
    have hext : ".java".utf8ByteSize = 5 := by decide +kernel
    rw [String.utf8ByteSize_append, utf8ByteSize_longName, hext]
  rw [Writer.storedName, hkept]
  show (if Export.maxEntryBytes < (longName ++ ".java").utf8ByteSize then Except.error _
    else .ok _) = _
  rw [hsize, if_pos (by decide)]

theorem canCreate_oneClass (name : String) (extension : Text.Loose) :
    (oneClass name extension).CanCreateArchive archive := by
  apply Workspace.canCreateArchive_of_isSome
  rfl

end Sample

/-- A class whose name is accepted and has no null in it is not exported to an archive that can be
made if the entry's name is too long, or has no encoding. -/
theorem perform_export_unkept_names :
    let long := Sample.oneClass Sample.longName ".java"
    let torn := Sample.oneClass "A" Sample.torn
    ((∃ path, Export.entryPath "/" ".java" Sample.longName = .ok path) ∧
      Text.hasNull Sample.longName = false ∧ long.CanCreateArchive Sample.archive ∧
      long.store.units = [⟨Sample.longName, some "x"⟩] ∧
      ∃ q, perform ⟨long, []⟩ .exportArchive Sample.archive =
        .ok (q, [.finished (.failure "ushort format requires 0 <= number <= 65535")])) ∧
    ((∃ path, Export.entryPath "/" Sample.torn "A" = .ok path) ∧
      .char '/' ∉ Sample.torn.glyphs ∧ .char '\x00' ∉ Sample.torn.glyphs ∧
      torn.CanCreateArchive Sample.archive ∧ torn.store.units = [⟨"A", some "x"⟩] ∧
      ∃ q, perform ⟨torn, []⟩ .exportArchive Sample.archive = .ok (q, [.finished (.failure
      "'utf-8' codec can't encode character '\\ud800' in position 2: surrogates not allowed")])) :=
  by
  intro long torn
  constructor
  · obtain ⟨path, hpath⟩ := Sample.exists_entryPath_of_letters Sample.longName_ne_empty
      fun c => Sample.mem_longName
    refine ⟨⟨path, hpath⟩, Sample.hasNull_longName, Sample.canCreate_oneClass _ _,
      Sample.units_oneClass _ _, ?_⟩
    exact @perform_exportArchive_of_storedName Sample.archive ⟨long, []⟩ _ _ _ _ _ rfl
      (Sample.units_oneClass _ _) rfl hpath (Sample.storedName_longName hpath)
      (Sample.canCreate_oneClass _ _) rfl
  · have hpath : Export.entryPath "/" Sample.torn "A" =
        .ok ⟨.relative, [.whole "A" ++ Sample.torn]⟩ := by decide +kernel
    have hstored : Writer.storedName ⟨.relative, [.whole "A" ++ Sample.torn]⟩ =
        .error (.unencodable ⟨0xD800, 2, 1⟩) := by decide +kernel
    refine ⟨⟨_, hpath⟩, by decide, by decide, Sample.canCreate_oneClass _ _,
      Sample.units_oneClass _ _, ?_⟩
    exact @perform_exportArchive_of_storedName Sample.archive ⟨torn, []⟩ _ _ _ _ _ rfl
      (Sample.units_oneClass _ _) rfl hpath hstored (Sample.canCreate_oneClass _ _) rfl

end Pipeline

end

end ClassBrowser
