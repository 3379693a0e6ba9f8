import ClassBrowser.Proofs.Except
import ClassBrowser.Proofs.Export.Rewriting
import ClassBrowser.Proofs.Task.CompletedExports
import ClassBrowser.Proofs.Task.Partway

/-!
# Exports that are repeated

An export that has succeeded succeeds again (`Pipeline.perform_again`): it finds the same texts,
nothing that it has left is in its way, and so it reports the same and leaves the files as they
were.
-/

namespace ClassBrowser

open Export (Writer)

variable {s : Workspace} {kind : TaskKind} {target : Path} {f : String → Option String}
  {done : List (ClassUnit × Option String)} {u : ClassUnit} {w : World} {x : Exporting}
  {stage : Stage} {sent : List Message}

/-! ## Texts -/

/-- What is found for each class does not depend on when it is asked for. -/
theorem Workspace.Renders.eq_of_gives (h : s.Renders f) (hu : u ∈ s.store.units)
    {text : Option String} (hgives : s.Gives u text) : text = u.text.or (f u.name) := by
  have hstored := Store.text?_of_mem_units hu
  unfold Gives at hgives
  split at hgives
  · next e htext hengine =>
    obtain ⟨asked, rfl⟩ := hgives
    rw [htext, (h.render_eq hengine hu htext asked).1]
    rfl
  · next hasks =>
    rw [hgives]
    cases htext : u.text with
    | some own => rfl
    | none =>
      cases hengine : s.engine with
      | some e => exact absurd hengine (hasks e htext)
      | none =>
        have hnone := h u.name (Store.name_mem_names hu) (hstored.trans htext)
        rw [hengine] at hnone
        exact hnone.symm

/-- Which texts an export has found follows from the classes that it has handled. -/
theorem Workspace.Renders.map_eq (h : s.Renders f) (hunits : done.map Prod.fst <+: s.store.units)
    (hgives : ∀ c ∈ done, s.Gives c.1 c.2) :
    (done.map Prod.fst).map (fun u => (u, u.text.or (f u.name))) = done := by
  rw [List.map_map]
  refine (List.map_congr_left fun c hc => ?_).trans (List.map_id done)
  have hu : c.1 ∈ s.store.units := hunits.subset (List.mem_map_of_mem hc)
  exact Prod.ext rfl (h.eq_of_gives hu (hgives c hc)).symm

/-- Two exports of the same classes, of which one has handled them all, have found the same for
those that both have handled, and for the next one. -/
theorem Workspace.Renders.exists_done_eq (h : s.Renders f) {all : List (ClassUnit × Option String)}
    (hunits : s.store.units = all.map Prod.fst) (hall : ∀ c ∈ all, s.Gives c.1 c.2)
    (hgives : ∀ c ∈ done, s.Gives c.1 c.2) {text : Option String} (hnext : s.Gives u text)
    {behind : List ClassUnit} (hbehind : s.store.units = done.map Prod.fst ++ u :: behind) :
    ∃ rest, all = done ++ (u, text) :: rest := by
  have hu : u ∈ s.store.units := by
    rw [hbehind]
    simp
  have hsame : all.map Prod.fst = done.map Prod.fst ++ u :: behind := hunits.symm.trans hbehind
  refine ⟨behind.map fun u => (u, u.text.or (f u.name)), ?_⟩
  calc
    all = (all.map Prod.fst).map fun u => (u, u.text.or (f u.name)) :=
      (h.map_eq (hunits ▸ List.prefix_rfl) hall).symm
    _ = (done.map Prod.fst).map (fun u => (u, u.text.or (f u.name))) ++
          (u, u.text.or (f u.name)) :: behind.map fun u => (u, u.text.or (f u.name)) := by
      rw [hsame, List.map_append, List.map_cons]
    _ = done ++ (u, text) :: behind.map fun u => (u, u.text.or (f u.name)) := by
      rw [h.map_eq (hbehind ▸ List.prefix_append _ _) hgives, ← h.eq_of_gives hu hnext]

/-- Two exports that have handled all classes have found the same. -/
theorem Workspace.Renders.done_eq (h : s.Renders f) {all : List (ClassUnit × Option String)}
    (hunits : s.store.units = done.map Prod.fst) (hgives : ∀ c ∈ done, s.Gives c.1 c.2)
    (hall : ∀ c ∈ all, s.Gives c.1 c.2) (hsame : s.store.units = all.map Prod.fst) :
    all = done := by
  rw [← h.map_eq (hsame ▸ List.prefix_rfl) hall, ← hsame, hunits,
    h.map_eq (hunits ▸ List.prefix_rfl) hgives]

/-! ## The second run -/

/-- A task that its worker brings to its end is at the last stage of an export then. -/
theorem Completes.exportStage {s₀ s' : Workspace} {sent' : List Message}
    (h : Completes kind target s₀ stage s' sent') (hkind : kind ≠ .decompileArchive)
    (hworkspace : s₀ = s.withWorld w) (hstage : ExportStage s kind target w stage sent) :
    ∃ w', s' = s.withWorld w' ∧ ExportStage s kind target w' .finished (sent ++ sent') := by
  induction h generalizing w sent with
  | finished => exact ⟨w, hworkspace, by rwa [List.append_nil]⟩
  | step _ rest ih =>
    subst hworkspace
    obtain ⟨w₁, hw₁, hnext⟩ := hstage.advance hkind
    obtain ⟨w', hw', hend⟩ := ih hw₁ hnext
    exact ⟨w', hw', by rwa [← List.append_assoc]⟩

/-- Nothing hinders an export that finds its target filled with the same classes. -/
theorem not_hindered (hrenders : s.Renders f) (hunits : s.store.units = done.map Prod.fst)
    (hgives : ∀ c ∈ done, s.Gives c.1 c.2)
    (hfilled : (s.writerFor kind target).Filled s.world.logPlace s.world.files (savedOf done)) :
    ¬ Hindered s kind target := by
  have hclaimed := s.claimed_writerFor kind target
  intro hhindered
  cases hhindered with
  | unopened hlogs hopen =>
    obtain ⟨made, w, hopened, -⟩ := hfilled.openTarget hclaimed hlogs
    rw [hopened] at hopen
    cases hopen
  | @thrown u e w t hunit htext hengine hthrow =>
    have hquiet := (hrenders.render_eq hengine hunit htext w).2 t
    exact hthrow.elim hquiet.1 hquiet.2
  | @unwritten done' u behind x w text e hpartway hunits' hnext hwrite =>
    obtain ⟨rest, hdone⟩ := hrenders.exists_done_eq hunits hgives hpartway.gives hnext hunits'
    have hsaved : savedOf done = savedOf done' ++ (u.name, text) :: savedOf rest := by
      rw [hdone, savedOf_append]
      rfl
    have hagain := hpartway.written.refilling hfilled hclaimed
      (hsaved ▸ List.prefix_append _ _)
    have hnew : u.name ∉ (savedOf done').map Prod.fst := fun hmem =>
      Store.not_mem_of_units_eq hunits' (map_fst_savedOf_subset done' hmem)
    have hnext : savedOf done' ++ [(u.name, text)] <+: savedOf done := by
      rw [hsaved]
      simp
    obtain ⟨_, _, _, hwritten, -⟩ := hfilled.write hagain hnext hnew
    rw [hwritten] at hwrite
    cases hwrite
  | @unclosed done' x w e hpartway hunits' hclose =>
    obtain rfl := hrenders.done_eq hunits hgives hpartway.gives hunits'
    have hagain := hpartway.written.refilling hfilled hclaimed List.prefix_rfl
    rw [(hfilled.close hagain).1] at hclose
    cases hclose

/-- An export whose target has its classes already succeeds, and changes nothing but the log. -/
theorem ExportStage.of_filled (hrenders : s.Renders f)
    (hunits : s.store.units = done.map Prod.fst) (hgives : ∀ c ∈ done, s.Gives c.1 c.2)
    (hfilled : (s.writerFor kind target).Filled s.world.logPlace s.world.files (savedOf done))
    (h : ExportStage s kind target w .finished sent) :
    sent = savedMessages s.store.units.length s.store.units.length ++ [.finished (.success
        (some (.exported ⟨target, (savedOf done).map Prod.fst, skippedOf done⟩)))] ∧
      s.world.files.Agrees w.files (s.world.logPlace = some ·) := by
  cases h with
  | stopped _ _ hhindered => exact absurd hhindered (not_hindered hrenders hunits hgives hfilled)
  | @succeeded done' x w' _ hpartway hunits' =>
    obtain rfl := hrenders.done_eq hunits hgives hpartway.gives hunits'
    rw [hpartway.summary]
    have hagain := hpartway.written.refilling hfilled (s.claimed_writerFor kind target)
      List.prefix_rfl
    exact ⟨rfl, (hfilled.close hagain).2⟩

/-- What an export that succeeds has handled, and what its target has then. -/
theorem ExportStage.filled (hkind : kind ≠ .decompileArchive)
    (hslash : .char '/' ∉ s.extension.glyphs) (h : ExportStage s kind target w stage sent)
    {summary : Summary} (hsuccess : .finished (.success (some (.exported summary))) ∈ sent) :
    ∃ done, s.store.units = done.map Prod.fst ∧ (∀ c ∈ done, s.Gives c.1 c.2) ∧
      (s.writerFor kind target).Filled s.world.logPlace w.files (savedOf done) ∧
      w.logFile = s.world.logFile ∧
      sent = savedMessages s.store.units.length s.store.units.length ++ [.finished (.success
        (some (.exported ⟨target, (savedOf done).map Prod.fst, skippedOf done⟩)))] := by
  obtain ⟨done, x, w', hpartway, hunits, rfl, hclose, rfl, rfl⟩ := h.of_success_mem hsuccess
  refine ⟨done, hunits, hpartway.gives, ?_, hpartway.logFile, rfl⟩
  exact hpartway.written.filled (s.claimed_writerFor kind target)
    (by rwa [s.extension_writerFor])
    ((Workspace.format_writerFor hkind).imp And.right And.right) hclose

namespace Pipeline

variable {p q : Pipeline}

/-- **Repeating an export changes nothing.**  An export, to a directory or to an archive, that has
succeeded with texts that are always the same succeeds again when it is repeated: it reports the
same numbers and the same classes, and all files and directories, and the entries of all archives,
are as the first run has left them.  Only the log's own file, if there is a log, goes on. -/
theorem perform_again (hkind : kind ≠ .decompileArchive)
    (hslash : .char '/' ∉ p.workspace.extension.glyphs) (hrenders : p.workspace.Renders f)
    (hperform : p.perform kind target = .ok (q, sent)) {summary : Summary}
    (hsuccess : .finished (.success (some (.exported summary))) ∈ sent) :
    ∃ r w, q.perform kind target = .ok (r, sent) ∧ r.workspace = q.workspace.withWorld w ∧
      ∀ place, p.workspace.world.logPlace ≠ some place →
        w.files.node? place = q.workspace.world.files.node? place := by
  obtain ⟨started, hstart, -⟩ := bind_eq_ok_iff.1 hperform
  obtain ⟨hidle, -⟩ := start_eq_ok_iff.1 hstart
  obtain ⟨before₁, a₁, hlast, hfirst⟩ :=
    @exists_lastStep kind target p.workspace hkind hrenders.isTame
  obtain ⟨o₁, hreport⟩ := hlast.isReport
  obtain ⟨q', hperform', hworkspace, hqidle⟩ := perform_eq hidle hfirst hreport
  obtain ⟨rfl, rfl⟩ := Prod.mk.inj (Except.ok.inj (hperform.symm.trans hperform'))
  obtain ⟨w₁, hw₁, hstage⟩ := hfirst.exportStage hkind (s := p.workspace) rfl .ready
  obtain ⟨done, hunits, hgives, hfilled, hlogFile, hsent⟩ := hstage.filled hkind hslash hsuccess
  have hq : q.workspace = p.workspace.withWorld w₁ := hworkspace.trans hw₁
  -- The second run has the same classes, texts and target, with what the first run has left there.
  have hlog : w₁.logPlace = p.workspace.world.logPlace := by
    rw [World.logPlace, World.logPlace, hlogFile]
  rw [← hlog] at hfilled
  obtain ⟨before₂, a₂, hlast₂, hsecond⟩ :=
    @exists_lastStep kind target (p.workspace.withWorld w₁) hkind hrenders.isTame
  obtain ⟨o₂, hreport₂⟩ := hlast₂.isReport
  obtain ⟨w₂, hw₂, hstage₂⟩ := hsecond.exportStage hkind (s := p.workspace.withWorld w₁) rfl .ready
  obtain ⟨hsent₂, hagrees⟩ := ExportStage.of_filled (s := p.workspace.withWorld w₁) hrenders hunits
    hgives hfilled hstage₂
  obtain ⟨r, hagain, hr, -⟩ := perform_eq hqidle (hq ▸ hsecond) hreport₂
  refine ⟨r, w₂, ?_, ?_, fun place hplace => ?_⟩
  · have hsame : before₂ ++ a₂.sent = before₁ ++ a₁.sent := hsent₂.trans hsent.symm
    rw [hagain, hsame]
  · rw [hr, hw₂, hq]
  · rw [hq]
    exact hagrees.node place (hlog ▸ hplace)

theorem perform_again_mixed :
    ∃ q r w, perform ⟨Sample.mixed, []⟩ .exportArchive Sample.archive =
        .ok (q, savedMessages 3 3 ++ [.finished (.success (some (.exported
          ⟨Sample.archive, ["p/A", "p/B"], ["p/C"]⟩)))]) ∧
      q.perform .exportArchive Sample.archive =
        .ok (r, savedMessages 3 3 ++ [.finished (.success (some (.exported
          ⟨Sample.archive, ["p/A", "p/B"], ["p/C"]⟩)))]) ∧
      r.workspace = q.workspace.withWorld w ∧
      ∀ place, w.files.node? place = q.workspace.world.files.node? place := by
  obtain ⟨q, hperform, -⟩ := @perform_exportArchive Sample.rendered Sample.archive
    ⟨Sample.mixed, []⟩ rfl Sample.renders_mixed (by decide) (by decide) Sample.fitsArchive_mixed
    Sample.canCreate_mixed Sample.hasRoom_mixed
  rw [Workspace.exportReport, Sample.withText_mixed, Sample.withoutText_mixed] at hperform
  obtain ⟨r, w, hagain, hr, hfiles⟩ := perform_again (by decide) (by decide) Sample.renders_mixed
    hperform (List.mem_append_right _ List.mem_cons_self)
  exact ⟨q, r, w, hperform, hagain, hr, fun place => hfiles place (Option.some_ne_none place).symm⟩

end Pipeline

end ClassBrowser
