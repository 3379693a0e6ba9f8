import ClassBrowser.Proofs.Engine.Surroundings
import ClassBrowser.Proofs.Export.Writing
import ClassBrowser.Proofs.Store
import ClassBrowser.Proofs.Task.Completion
import ClassBrowser.Proofs.Task.Exporting
import ClassBrowser.Proofs.Task.Steps

/-!
# Runs of exports

An export takes the classes of its snapshot one after the other.  For each it looks for a text, in
the snapshot or from the engine (`Workspace.ask`), writes it or notes that there is none, and sends
a report.

## Between two classes

`Partway` says how far an export has come: the classes that it has handled, each with its text or
without one, account for what it counts and sums up and for what its writer has written.
`Partway.exportUnit` is the step: with the text of a further class the export is partway again, or
that text cannot be written.

`Underway` adds how the export has come there from its start: the messages that it has sent, and
when each text was found and each file was written.

## The last step

An export whose engine does not cost it the worker comes to a last step (`exists_lastStep`): its
target cannot be opened, a class cannot be exported, or none is left (`LastStep`).  Nothing is
asked of names, extensions or file systems for this; what the target has then is shown apart, for
exports that fail and for those that succeed.
-/

namespace ClassBrowser

open Export (Writer)

/-! ## Asking for a text -/

namespace Workspace

/-- What is found for a class when its turn comes: its text, or else what the engine gives. -/
def ask (s : Workspace) (u : ClassUnit) : Workspace × Except Thrown (Option String) :=
  match u.text, s.engine with
  | none, some e => (s.withWorld (e.renderNow s.world u.name).1, (e.renderNow s.world u.name).2)
  | text, _ => (s, .ok text)

/-- Goes on with what was found for a class. -/
def answered (s : Workspace) (kind : TaskKind) (x : Exporting) (name : String) :
    Except Thrown (Option String) → Advance
  | .ok text => s.exportUnit kind x name text
  | .error t => s.failExport kind x.writer (.thrown t)

/-- Whether the engine, asked for the texts that are not in the store, throws nothing that costs the
worker. -/
def IsTame (s : Workspace) : Prop :=
  ∀ e, s.engine = some e → ∀ u ∈ s.store.units, u.text = none →
    ∀ w t, .abort t ∉ (e.render w u.name).2.1

/-- Whether a text, or none, is what an export may find for a class: its own, or else what the
engine gives. -/
def Gives (s : Workspace) (u : ClassUnit) (text : Option String) : Prop :=
  match u.text, s.engine with
  | none, some e => ∃ w, text = (e.render w u.name).2.2
  | own, _ => text = own

variable {s : Workspace} {kind : TaskKind} {target : Path} {x : Exporting} {u : ClassUnit}
  {left : List ClassUnit} {name : String} {text : Option String} {acts : List Act} {w : World}

theorem ask_eq (s : Workspace) (u : ClassUnit) :
    ∃ w, (s.ask u).1 = s.withWorld w ∧ s.world.Logs w := by
  unfold ask
  split
  · next e _ _ => exact ⟨_, rfl, e.logs_renderNow _ _⟩
  · exact ⟨s.world, rfl, .refl _⟩

/-- A class that has a text is exported with that. -/
theorem Gives.eq_own {own : String} (h : s.Gives u text) (hown : u.text = some own) :
    text = some own := by
  unfold Gives at h
  rw [hown] at h
  exact h

theorem gives_of_ask (h : ((s.withWorld w).ask u).2 = .ok text) : s.Gives u text := by
  obtain ⟨world, store, engine, factory, delimiter, extension⟩ := s
  obtain ⟨name, own⟩ := u
  cases own with
  | some own => cases engine <;> exact (Except.ok.inj h).symm
  | none => cases engine with
    | none => exact (Except.ok.inj h).symm
    | some e =>
      have hanswer : (e.renderNow w name).2 = .ok text := h
      rw [Engine.renderNow_eq] at hanswer
      refine ⟨w, ?_⟩
      split at hanswer
      · exact (Except.ok.inj hanswer).symm
      · cases hanswer

/-- The acts of a rendering are performed one by one, with the same result as at once. -/
theorem leadsTo_rendering (hacts : ∀ t, .abort t ∉ acts) :
    LeadsTo kind target s (.rendering x name acts text)
      ((s.withWorld (Engine.performNow s.world acts).1).answered kind x name
        (match (Engine.performNow s.world acts).2 with
          | none => .ok text
          | some t => .error t)) := by
  induction acts generalizing s with
  | nil => exact .of_advance rfl
  | cons act rest ih =>
    have hrest : ∀ t, .abort t ∉ rest := fun t ht => hacts t (List.mem_cons_of_mem _ ht)
    cases act with
    | abort t => exact absurd List.mem_cons_self (hacts t)
    | throw t => exact .of_advance rfl
    | note record => exact .silently rfl (ih hrest)
    | unit name text => exact .silently rfl (ih hrest)
    | total count => exact .silently rfl (ih hrest)
    | block => exact .silently rfl (ih hrest)

/-- When the turn of a class comes, the worker asks for its text and goes on with the answer. -/
theorem leadsTo_exporting (hleft : x.left = u :: left)
    (htame : ∀ e, s.engine = some e → u.text = none →
      ∀ t, .abort t ∉ (e.render s.world u.name).2.1) :
    LeadsTo kind target s (.exporting x)
      ((s.ask u).1.answered kind { x with left } u.name (s.ask u).2) := by
  unfold ask
  split
  · next e htext hengine =>
    refine .silently (Moves.asked hleft htext hengine).eq_advance.symm ?_
    rw [Engine.renderNow_eq]
    exact leadsTo_rendering (htame e hengine htext)
  · next hasks =>
    have hknown : u.text = none → s.engine = none := fun htext =>
      Option.eq_none_iff_forall_ne_some.2 (hasks · htext)
    exact .of_advance ((Supplies.known hleft hknown).advance_eq kind target)

end Workspace

/-! ## Reports -/

/-- The report that some classes out of all were handled. -/
def savedMessage (handled total : Nat) : Message :=
  .progress ⟨handled, some total, s!"Saved {handled} of {total} classes"⟩

/-- The reports of an export that has handled some classes out of all. -/
def savedMessages (handled total : Nat) : List Message :=
  (List.range handled).map fun i => savedMessage (i + 1) total

/-- The classes for which a text was found, with their texts. -/
def savedOf (done : List (ClassUnit × Option String)) : List (String × String) :=
  done.filterMap fun c => c.2.map fun text => (c.1.name, text)

/-- The classes for which no text was found. -/
def skippedOf (done : List (ClassUnit × Option String)) : List String :=
  (done.filter fun c => c.2.isNone).map fun c => c.1.name

section

variable {done rest : List (ClassUnit × Option String)} {u : ClassUnit} {text : String}

theorem savedMessages_succ (handled total : Nat) :
    savedMessages (handled + 1) total =
      savedMessages handled total ++ [savedMessage (handled + 1) total] := by
  rw [savedMessages, List.range_succ, List.map_append]
  rfl

theorem isReport_savedMessages (handled total : Nat) (o : Outcome) :
    IsReport (savedMessages handled total ++ [.finished o]) o := by
  refine ⟨_, rfl, ?_⟩
  intro m hm
  obtain ⟨i, -, rfl⟩ := List.mem_map.1 hm
  rfl

theorem savedOf_append (done rest : List (ClassUnit × Option String)) :
    savedOf (done ++ rest) = savedOf done ++ savedOf rest :=
  List.filterMap_append

theorem savedOf_append_none (done : List (ClassUnit × Option String)) (u : ClassUnit) :
    savedOf (done ++ [(u, none)]) = savedOf done := by
  simp [savedOf]

theorem savedOf_append_some (done : List (ClassUnit × Option String)) (u : ClassUnit)
    (text : String) : savedOf (done ++ [(u, some text)]) = savedOf done ++ [(u.name, text)] := by
  simp [savedOf]

theorem exists_of_mem_savedOf {c : String × String} (hc : c ∈ savedOf done) :
    ∃ d ∈ done, d.1.name = c.1 ∧ d.2 = some c.2 := by
  obtain ⟨d, hd, hmap⟩ := List.mem_filterMap.1 hc
  obtain ⟨text, htext, rfl⟩ := Option.map_eq_some_iff.1 hmap
  exact ⟨d, hd, rfl, htext⟩

theorem mem_savedOf {c : ClassUnit × Option String} (hc : c ∈ done) (htext : c.2 = some text) :
    (c.1.name, text) ∈ savedOf done :=
  List.mem_filterMap.2 ⟨c, hc, by rw [htext]; rfl⟩

theorem map_fst_savedOf_subset (done : List (ClassUnit × Option String)) :
    (savedOf done).map Prod.fst ⊆ (done.map Prod.fst).map ClassUnit.name := by
  intro name hname
  obtain ⟨c, hc, rfl⟩ := List.mem_map.1 hname
  obtain ⟨d, hd, hdname, -⟩ := exists_of_mem_savedOf hc
  exact hdname ▸ List.mem_map_of_mem (List.mem_map_of_mem hd)

/-- The classes with a text and those without one are all that were handled. -/
theorem perm_savedOf_skippedOf (done : List (ClassUnit × Option String)) :
    ((savedOf done).map Prod.fst ++ skippedOf done).Perm (done.map fun c => c.1.name) := by
  induction done with
  | nil => rfl
  | cons c done ih =>
    obtain ⟨u, _ | text⟩ := c
    · have hsaved : savedOf ((u, none) :: done) = savedOf done := rfl
      have hskipped : skippedOf ((u, none) :: done) = u.name :: skippedOf done := rfl
      rw [hsaved, hskipped]
      exact List.perm_middle.trans (ih.cons _)
    · exact ih.cons u.name

end

/-! ## Between two classes -/

/-- What holds of an export that has handled some classes, each with a text or without. -/
structure Partway (s : Workspace) (kind : TaskKind) (target : Path)
    (done : List (ClassUnit × Option String)) (x : Exporting) (w : World) : Prop where
  gives : ∀ c ∈ done, s.Gives c.1 c.2
  handled : x.handled = done.length
  total : x.total = s.store.units.length
  summary : x.summary = ⟨target, (savedOf done).map Prod.fst, skippedOf done⟩
  logFile : w.logFile = s.world.logFile
  written : (s.writerFor kind target).HasWritten s.world.logPlace s.world.files (savedOf done)
    x.writer w.files

section

variable {s : Workspace} {kind : TaskKind} {target : Path} {w w' : World} {u : ClassUnit}
  {done : List (ClassUnit × Option String)} {x : Exporting} {text : Option String}

namespace Partway

theorem logPlace (h : Partway s kind target done x w) : w.logPlace = s.world.logPlace := by
  rw [World.logPlace, World.logPlace, h.logFile]

theorem device (h : Partway s kind target done x w) :
    w.files.device = s.world.files.device :=
  h.written.device_eq

theorem logged (h : Partway s kind target done x w) (hlogs : w.Logs w') :
    Partway s kind target done x w' :=
  { h with
    logFile := hlogs.logFile.trans h.logFile
    written := h.written.logged (h.logPlace ▸ hlogs.files) }

/-- An export that has opened its target has handled nothing yet. -/
theorem opened {files : Files} {writer : Writer}
    (hopen : (s.writerFor kind target).openTarget (s.exporting target).world.files =
      (files, .ok writer)) :
    Partway s kind target []
      ⟨writer, 0, s.store.units.length, s.store.units, ⟨writer.target, [], []⟩⟩
      { (s.exporting target).world with files } := by
  have hlogs : s.world.Logs (s.exporting target).world := s.world.logs_note _
  have hwritten := Writer.HasWritten.opened hlogs.files hopen
  have htarget : writer.target = target :=
    hwritten.target_eq.trans (s.target_writerFor kind target)
  exact ⟨nofun, rfl, rfl, by rw [htarget]; rfl, rfl, hwritten⟩

/-- One more class is handled. -/
theorem concat (h : Partway s kind target done x w) (hgives : s.Gives u text) {writer : Writer}
    {summary : Summary}
    (hsummary : summary = ⟨target, (savedOf (done ++ [(u, text)])).map Prod.fst,
      skippedOf (done ++ [(u, text)])⟩)
    (hlogFile : w'.logFile = s.world.logFile)
    (hwritten : (s.writerFor kind target).HasWritten s.world.logPlace s.world.files
      (savedOf (done ++ [(u, text)])) writer w'.files) :
    Partway s kind target (done ++ [(u, text)])
      { x with writer, summary, handled := x.handled + 1 } w' := by
  refine ⟨?_, by simp [h.handled], h.total, hsummary, hlogFile, hwritten⟩
  intro c hc
  rcases List.mem_append.1 hc with hold | hlast
  · exact h.gives c hold
  · obtain rfl := List.mem_singleton.1 hlast
    exact hgives

/-- With the text of a class, or without one, an export goes on, or the text cannot be written. -/
theorem exportUnit (h : Partway s kind target done x w) (hgives : s.Gives u text) :
    (∃ w' writer summary,
      (s.withWorld w).exportUnit kind x u.name text =
        (s.withWorld w').handled { x with writer, summary } ∧
      Partway s kind target (done ++ [(u, text)])
        { x with writer, summary, handled := x.handled + 1 } w' ∧
      ∀ own, text = some own → summary.written.getLast? = some u.name ∧
        ∃ shown, x.writer.write w.files u.name own = (w'.files, writer, .ok shown)) ∨
    ∃ own files writer e, text = some own ∧
      x.writer.write w.files u.name own = (files, writer, .error e) ∧
      (s.withWorld w).exportUnit kind x u.name text =
        ((s.withWorld w).withFiles files).failExport kind writer (.unwritten e) := by
  cases text with
  | none =>
    have hnoted := h.logged (w.logs_note ⟨.debug, .tasks, s!"No content for {u.name}; skipping"⟩)
    refine .inl ⟨_, x.writer, _, rfl, h.concat hgives ?_ hnoted.logFile ?_, nofun⟩
    · simp [h.summary, savedOf, skippedOf]
    · rw [savedOf_append_none]
      exact hnoted.written
  | some own =>
    rcases hwrite : x.writer.write w.files u.name own with ⟨files, writer, result⟩
    cases result with
    | error e =>
      exact .inr ⟨own, files, writer, e, rfl, hwrite, Workspace.exportUnit_of_error hwrite⟩
    | ok shown =>
      refine .inl ⟨{ w with files }, writer, _, Workspace.exportUnit_of_ok hwrite,
        h.concat hgives ?_ h.logFile ?_, ?_⟩
      · simp [h.summary, savedOf, skippedOf]
      · rw [savedOf_append_some]
        exact h.written.written hwrite
      · rintro _ ⟨rfl⟩
        exact ⟨List.getLast?_concat, shown, hwrite⟩

end Partway

end

/-! ## The course of an export -/

namespace Workspace

/-- Whether in the course of an export this text is found for a class, or none, when its turn
comes. -/
def Finds (s : Workspace) (kind : TaskKind) (target : Path) (u : ClassUnit)
    (text : Option String) : Prop :=
  ∃ w x left sent, Leads kind target s .ready sent (s.withWorld w) (.exporting x) ∧
    x.left = u :: left ∧ ((s.withWorld w).ask u).2 = .ok text

/-- Whether a class has the bytes of its text in its file when an export to a directory has just
written it. -/
def Writes (s : Workspace) (target : Path) (c : String × String) : Prop :=
  ∃ sent w x file, Leads .exportDirectory target s .ready sent (s.withWorld w) (.exporting x) ∧
    x.summary.written.getLast? = some c.1 ∧
    (s.writerFor .exportDirectory target).IsFileOf c.1 file ∧ w.files.read file = .ok c.2.toUTF8

end Workspace

/-- What holds when an export comes to the next class: the classes that are done and those that are
left are all, and the former were found, written and reported one by one. -/
structure Underway (kind : TaskKind) (target : Path) (s : Workspace)
    (done : List (ClassUnit × Option String)) (w : World) (x : Exporting) : Prop
    extends Partway s kind target done x w where
  leads : Leads kind target s .ready (savedMessages done.length s.store.units.length)
    (s.withWorld w) (.exporting x)
  found : ∀ c ∈ done, s.Finds kind target c.1 c.2
  units : s.store.units = done.map Prod.fst ++ x.left
  writes : kind = .exportDirectory → ∀ c ∈ savedOf done, s.Writes target c

/-- The last step of an export, and what was sent before it: the target cannot be opened, the engine
throws when it is asked for a text, a text cannot be written, or no class is left. -/
inductive LastStep (kind : TaskKind) (target : Path) (s : Workspace) : List Message → Advance → Prop
  | unopened {files : Files} {e : Export.ExportError}
      (hopen : (s.writerFor kind target).openTarget (s.exporting target).world.files =
        (files, .error e)) :
      LastStep kind target s [] (((s.exporting target).withFiles files).fail kind (.unwritten e))
  | thrown {done : List (ClassUnit × Option String)} {w w₁ : World} {x : Exporting} {u : ClassUnit}
      {behind : List ClassUnit} {t : Thrown} (hunderway : Underway kind target s done w x)
      (hleft : x.left = u :: behind) (hlogs : w.Logs w₁)
      (hask : (s.withWorld w).ask u = (s.withWorld w₁, .error t)) :
      LastStep kind target s (savedMessages done.length s.store.units.length)
        ((s.withWorld w₁).failExport kind x.writer (.thrown t))
  | unwritten {done : List (ClassUnit × Option String)} {w w₁ : World} {x : Exporting}
      {u : ClassUnit} {behind : List ClassUnit} {text : String} {files : Files} {writer : Writer}
      {e : Export.ExportError} (hunderway : Underway kind target s done w x)
      (hleft : x.left = u :: behind) (hlogs : w.Logs w₁)
      (hask : (s.withWorld w).ask u = (s.withWorld w₁, .ok (some text)))
      (hwrite : x.writer.write w₁.files u.name text = (files, writer, .error e)) :
      LastStep kind target s (savedMessages done.length s.store.units.length)
        (((s.withWorld w₁).withFiles files).failExport kind writer (.unwritten e))
  | ended {done : List (ClassUnit × Option String)} {w : World} {x : Exporting}
      (hunderway : Underway kind target s done w x) (hleft : x.left = []) :
      LastStep kind target s (savedMessages done.length s.store.units.length)
        ((s.withWorld w).endExport kind x.writer (·.succeed (.exported x.summary)))

section

variable {kind : TaskKind} {target : Path} {s : Workspace} {u : ClassUnit} {left : List ClassUnit}
  {done : List (ClassUnit × Option String)} {w : World} {x : Exporting} {sent : List Message}
  {a : Advance}

namespace Underway

/-- When no class is left, those that are done are all. -/
theorem units_eq (h : Underway kind target s done w x) (hleft : x.left = []) :
    s.store.units = done.map Prod.fst := by
  rw [h.units, hleft, List.append_nil]

theorem length_eq (h : Underway kind target s done w x) (hleft : x.left = []) :
    done.length = s.store.units.length := by
  rw [h.units_eq hleft, List.length_map]

/-- The class whose turn comes was not saved before. -/
theorem new (h : Underway kind target s done w x) (hleft : x.left = u :: left) :
    ∀ c ∈ savedOf done, c.1 ≠ u.name := by
  have hunits := h.units
  rw [hleft] at hunits
  exact fun c hc hname => Store.not_mem_of_units_eq hunits
    (hname ▸ map_fst_savedOf_subset done (List.mem_map_of_mem hc))

/-- A class that was just written to a directory has its file there. -/
theorem writes_concat (h : Underway kind target s done w x) {sent : List Message} {w₁ w₂ : World}
    {y : Exporting} {text : Option String} (hkind : kind = .exportDirectory)
    (hleads : Leads kind target s .ready sent (s.withWorld w₂) (.exporting y))
    (hwrite : ∀ own, text = some own → y.summary.written.getLast? = some u.name ∧
      ∃ shown, x.writer.write w₁.files u.name own = (w₂.files, y.writer, .ok shown)) :
    ∀ c ∈ savedOf (done ++ [(u, text)]), s.Writes target c := by
  subst hkind
  cases text with
  | none =>
    rw [savedOf_append_none]
    exact h.writes rfl
  | some own =>
    obtain ⟨hlast, shown, hwritten⟩ := hwrite own rfl
    obtain ⟨format, hwriter⟩ := h.written.exists_eq
    obtain ⟨file, hfile, hread⟩ := Writer.of_write_directory (h.written.format_eq rfl) hwritten
    rw [hwriter] at hfile
    rw [savedOf_append_some]
    intro c hc
    rcases List.mem_append.1 hc with hold | hnew
    · exact h.writes rfl c hold
    · obtain rfl := List.mem_singleton.1 hnew
      exact ⟨_, w₂, y, file, hleads, hlast, hfile, hread⟩

/-- With a class the export goes on to the next one, or that is its last step. -/
theorem next (h : Underway kind target s done w x) (hleft : x.left = u :: left)
    (htame : s.IsTame) :
    (∃ text w' y, Underway kind target s (done ++ [(u, text)]) w' y ∧ y.left = left) ∨
      ∃ sent a, LastStep kind target s sent a ∧
        Leads kind target s .ready (sent ++ a.sent) a.workspace a.stage := by
  have hu : u ∈ s.store.units := by
    rw [h.units, hleft]
    simp
  have hleads := @Workspace.leadsTo_exporting (s.withWorld w) kind target x u left hleft
    fun e he htext => htame e he u hu htext w
  obtain ⟨w₁, hw₁ : ((s.withWorld w).ask u).1 = s.withWorld w₁, hlogs⟩ := (s.withWorld w).ask_eq u
  rcases hask : (s.withWorld w).ask u with ⟨asked, answer⟩
  obtain rfl : asked = s.withWorld w₁ := by rw [← hw₁, hask]
  rw [hask] at hleads
  cases answer with
  | error t => exact .inr ⟨_, _, .thrown h hleft hlogs hask, h.leads.trans hleads⟩
  | ok text =>
    have hanswer : ((s.withWorld w).ask u).2 = .ok text := congrArg Prod.snd hask
    have hpartway : Partway s kind target done { x with left } w₁ :=
      { h.toPartway.logged hlogs with }
    rcases hpartway.exportUnit (Workspace.gives_of_ask hanswer) with
      ⟨w₂, writer, summary, hstep, hnext, hwrite⟩ | ⟨own, files, writer, e, rfl, hwrite, hstep⟩
    · have hgoes : LeadsTo kind target (s.withWorld w) (.exporting x)
          ((s.withWorld w₂).handled { x with left, writer, summary }) := hstep ▸ hleads
      have hled := h.leads.trans hgoes
      refine .inl ⟨text, w₂, { x with left, writer, summary, handled := x.handled + 1 },
        { hnext with leads := ?_, found := ?_, units := ?_, writes := ?_ }, rfl⟩
      · rw [List.length_append, List.length_singleton, savedMessages_succ, ← h.handled, ← h.total]
        rw [← h.handled, ← h.total] at hled
        exact hled
      · intro c hc
        rcases List.mem_append.1 hc with hold | hlast
        · exact h.found c hold
        · obtain rfl := List.mem_singleton.1 hlast
          exact ⟨w, x, left, _, h.leads, hleft, hanswer⟩
      · rw [h.units, hleft]
        simp
      · exact fun hkind => h.writes_concat hkind hled hwrite
    · have hfails : LeadsTo kind target (s.withWorld w) (.exporting x)
          (((s.withWorld w₁).withFiles files).failExport kind writer (.unwritten e)) :=
        hstep ▸ hleads
      exact .inr ⟨_, _, .unwritten h hleft hlogs hask hwrite, h.leads.trans hfails⟩

/-- Every export that has begun comes to its last step. -/
theorem ends (h : Underway kind target s done w x) (htame : s.IsTame) :
    ∃ sent a, LastStep kind target s sent a ∧
      Leads kind target s .ready (sent ++ a.sent) a.workspace a.stage := by
  induction hleft : x.left generalizing done w x with
  | nil =>
    have hend := Workspace.advance_exporting_of_nil hleft (s.withWorld w) kind target
    exact ⟨_, _, .ended h hleft, h.leads.trans (LeadsTo.of_advance hend)⟩
  | cons u left ih =>
    rcases h.next hleft htame with ⟨text, w', y, hy, hyleft⟩ | hend
    · exact ih hy hyleft
    · exact hend

end Underway

theorem LastStep.stage_eq (h : LastStep kind target s sent a) : a.stage = .reported := by
  cases h with
  | unopened | thrown | unwritten => rfl
  | ended =>
    unfold Workspace.endExport
    split <;> rfl

/-- The last step ends the messages of the export with its outcome. -/
theorem LastStep.isReport (h : LastStep kind target s sent a) :
    ∃ o, IsReport (sent ++ a.sent) o := by
  cases h with
  | unopened => exact ⟨_, isReport_singleton _⟩
  | thrown | unwritten => exact ⟨_, isReport_savedMessages _ _ _⟩
  | ended =>
    unfold Workspace.endExport
    split <;> exact ⟨_, isReport_savedMessages _ _ _⟩

/-- The last step changes nothing of the workspace but the surroundings. -/
theorem LastStep.workspace_eq (h : LastStep kind target s sent a) :
    a.workspace = s.withWorld a.workspace.world := by
  cases h with
  | unopened | thrown | unwritten => rfl
  | ended =>
    unfold Workspace.endExport
    split <;> rfl

/-- Every export comes to its last step. -/
theorem exists_lastStep (hkind : kind ≠ .decompileArchive) (htame : s.IsTame) :
    ∃ sent a, LastStep kind target s sent a ∧
      Completes kind target s .ready a.workspace (sent ++ a.sent) := by
  have hends : ∃ sent a, LastStep kind target s sent a ∧
      Leads kind target s .ready (sent ++ a.sent) a.workspace a.stage := by
    rcases hopen : (s.writerFor kind target).openTarget (s.exporting target).world.files with
      ⟨files, result⟩
    cases result with
    | error e =>
      have hfails : s.Moves kind target .ready _ := .unopened hkind hopen
      exact ⟨_, _, .unopened hopen, LeadsTo.of_advance hfails.eq_advance.symm⟩
    | ok writer =>
      have hbegin : s.Moves kind target .ready _ := .opened hkind hopen
      have hunderway : Underway kind target s [] _ _ :=
        { Partway.opened hopen with
          leads := LeadsTo.of_advance hbegin.eq_advance.symm
          found := nofun
          units := rfl
          writes := fun _ => nofun }
      exact hunderway.ends htame
  obtain ⟨sent, a, hlast, hleads⟩ := hends
  refine ⟨sent, a, hlast, ?_⟩
  rw [hlast.stage_eq] at hleads
  simpa using hleads.completes (completes_reported _)

namespace Pipeline

variable {p : Pipeline}

/-- An export that is run to its end leaves what its last step leaves, and the next task may
start. -/
theorem perform_lastStep (hidle : p.isBusy = false) (hkind : kind ≠ .decompileArchive)
    (htame : p.workspace.IsTame) :
    ∃ q sent a, p.perform kind target = .ok (q, sent ++ a.sent) ∧
      LastStep kind target p.workspace sent a ∧ q.workspace = a.workspace ∧ q.isBusy = false := by
  obtain ⟨sent, a, hlast, hcompletes⟩ := exists_lastStep hkind htame
  obtain ⟨o, hreport⟩ := hlast.isReport
  obtain ⟨q, hperform, hworkspace, hqidle⟩ := perform_eq hidle hcompletes hreport
  exact ⟨q, sent, a, hperform, hlast, hworkspace, hqidle⟩

end Pipeline

end

end ClassBrowser
