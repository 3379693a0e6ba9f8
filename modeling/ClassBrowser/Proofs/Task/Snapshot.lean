import ClassBrowser.Proofs.Session.Requests
import ClassBrowser.Proofs.Task.Partway

/-!
# Exports and a store that changes

An export takes its snapshot of the store with its first step.  Classes may be put into the store at
any time after that: the worker goes on as if nothing had been put there
(`Pipeline.course_eq`), and the store has in the end what was put there.
-/

namespace ClassBrowser

/-- A store with further classes put into it, one after the other. -/
def Store.putAll (s : Store) (classes : List (String × Option String)) : Store :=
  classes.foldl (fun s c => s.put c.1 c.2) s

theorem Store.entries_putAll (s : Store) (classes : List (String × Option String)) :
    (s.putAll classes).entries = s.entries.insertAll classes := by
  induction classes generalizing s with
  | nil => rfl
  | cons c classes ih => exact ih (s.put c.1 c.2)

namespace Workspace

/-- The workspace with another store. -/
def withStore (s : Workspace) (store : Store) : Workspace := { s with store }

variable {s : Workspace} {kind : TaskKind} {target : Path} {stage : Stage}

end Workspace

/-- The end of a step, with another store in the workspace. -/
def Advance.withStore (a : Advance) (store : Store) : Advance :=
  { a with workspace := a.workspace.withStore store }

namespace Workspace

theorem exportUnit_withStore (s : Workspace) (store : Store) (kind : TaskKind) (x : Exporting)
    (name : String) (text : Option String) :
    (s.withStore store).exportUnit kind x name text =
      (s.exportUnit kind x name text).withStore store := by
  cases text with
  | none => rfl
  | some text =>
    rcases hwrite : x.writer.write s.world.files name text with ⟨files, writer, _ | shown⟩
    · rw [exportUnit_of_error hwrite]
      exact exportUnit_of_error (s := s.withStore store) hwrite
    · rw [exportUnit_of_ok hwrite]
      exact exportUnit_of_ok (s := s.withStore store) hwrite

theorem endExport_withStore (s : Workspace) (store : Store) (kind : TaskKind)
    (writer : Export.Writer) (next : Workspace → Advance)
    (hnext : ∀ s, next (withStore s store) = (next s).withStore store) :
    (s.withStore store).endExport kind writer next =
      (s.endExport kind writer next).withStore store := by
  have hsame : (s.withStore store).closeFailure? writer = s.closeFailure? writer := rfl
  unfold endExport
  rw [hsame]
  cases s.closeFailure? writer with
  | none => exact hnext (s.closeWriter writer)
  | some f => rfl

/-- Behind its first step, an export does not look into the store. -/
theorem advance_withStore (hready : stage ≠ .ready) (hexport : stage.isDecompiling = false)
    (s : Workspace) (store : Store) (kind : TaskKind) (target : Path) :
    (s.withStore store).advance kind target stage =
      (s.advance kind target stage).withStore store := by
  cases stage with
  | ready => exact absurd rfl hready
  | adding => cases hexport
  | decompiling => cases hexport
  | exporting x =>
    show (s.withStore store).advanceExporting kind x = (s.advanceExporting kind x).withStore store
    unfold advanceExporting
    cases x.left with
    | nil =>
      exact endExport_withStore s store kind x.writer (·.succeed (.exported x.summary)) fun _ => rfl
    | cons u left =>
      rw [show (s.withStore store).engine = s.engine from rfl]
      dsimp only
      cases u.text with
      | some text => exact exportUnit_withStore s store kind _ u.name _
      | none =>
        cases s.engine with
        | none => exact exportUnit_withStore s store kind _ u.name _
        | some e => rfl
  | rendering x name acts text =>
    cases acts with
    | nil => exact exportUnit_withStore s store kind x name text
    | cons act rest =>
      cases act with
      | abort t =>
        exact endExport_withStore s store kind x.writer (·.silently .finished) fun _ => rfl
      | _ => rfl
  | reported => rfl
  | finished => rfl

end Workspace

/-! ## The course of an export -/

namespace Pipeline

/-- What may happen while an export runs: its worker makes a step, or a class is put into the
store. -/
inductive Turn
  | work
  | put (name : String) (text : Option String)

/-- The steps of the worker among some turns. -/
def steps : List Turn → Nat
  | [] => 0
  | .work :: turns => steps turns + 1
  | .put _ _ :: turns => steps turns

/-- The classes that are put into the store in some turns. -/
def puts : List Turn → List (String × Option String)
  | [] => []
  | .work :: turns => puts turns
  | .put name text :: turns => (name, text) :: puts turns

/-- The pipeline with another store. -/
def withStore (p : Pipeline) (store : Store) : Pipeline :=
  { p with workspace := p.workspace.withStore store }

/-- One turn. -/
def take (p : Pipeline) : Turn → Pipeline
  | .work => p.step
  | .put name text => p.withStore (p.workspace.store.put name text)

/-- Several turns, one after the other. -/
def course (p : Pipeline) (turns : List Turn) : Pipeline := turns.foldl take p

/-- Whether the latest worker is in the course of an export, behind its first step. -/
def IsExporting (p : Pipeline) : Prop :=
  ∃ t, p.tasks.head? = some t ∧ t.kind ≠ .decompileArchive ∧ t.stage ≠ .ready ∧
    t.stage.isDecompiling = false

variable {p q : Pipeline} {s : Workspace} {kind : TaskKind} {target : Path} {w : World} {t : Task}

theorem IsExporting.step (h : p.IsExporting) : p.step.IsExporting := by
  obtain ⟨t, ht, hkind, -, hexport⟩ := h
  have hstep := p.workspace.isStep_advance t.kind t.target t.stage
  exact ⟨_, (head?_step ht).2.1, hkind, hstep.begun, hstep.fits hkind hexport⟩

theorem step_withStore (h : p.IsExporting) (store : Store) :
    (p.withStore store).step = p.step.withStore store := by
  obtain ⟨t, ht, hkind, hready, hexport⟩ := h
  obtain ⟨workspace, tasks⟩ := p
  obtain ⟨earlier, rfl⟩ := List.head?_eq_some_iff.1 ht
  have hadvance := Workspace.advance_withStore hready hexport workspace store t.kind t.target
  simp only [step, withStore, hadvance]
  rfl

theorem IsExporting.withStore (h : p.IsExporting) (store : Store) :
    (p.withStore store).IsExporting := h

theorem work_withStore (h : p.IsExporting) (n : Nat) (store : Store) :
    (p.withStore store).work n = (p.work n).withStore store := by
  induction n generalizing p with
  | zero => rfl
  | succ n ih =>
    rw [work, step_withStore h]
    exact ih h.step

/-- No step of an export changes the store. -/
theorem store_step (h : p.IsExporting) : p.step.workspace.store = p.workspace.store :=
  congrArg (·.workspace.store) (step_withStore h p.workspace.store)

/-- Nothing that is put into the store changes what the worker does, and nothing of it is lost. -/
theorem course_eq (h : p.IsExporting) (turns : List Turn) :
    p.course turns =
      (p.work (steps turns)).withStore (p.workspace.store.putAll (puts turns)) := by
  induction turns generalizing p with
  | nil => rfl
  | cons turn turns ih =>
    cases turn with
    | work =>
      show p.step.course turns = _
      rw [ih h.step, store_step h]
      rfl
    | put name text =>
      show (p.withStore (p.workspace.store.put name text)).course turns = _
      rw [ih (h.withStore _), work_withStore h]
      rfl

/-- However many steps the worker of an export makes, it is at a stage of the export. -/
theorem exportStage_work (ht : p.tasks.head? = some t) (hkind : t.kind ≠ .decompileArchive)
    (hworkspace : p.workspace = s.withWorld w)
    (hstage : ExportStage s t.kind t.target w t.stage t.queue) (n : Nat) :
    ∃ w' t', (p.work n).workspace = s.withWorld w' ∧ (p.work n).tasks.head? = some t' ∧
      ExportStage s t.kind t.target w' t'.stage t'.queue := by
  induction n generalizing p t w with
  | zero => exact ⟨w, t, hworkspace, ht, hstage⟩
  | succ n ih =>
    obtain ⟨hstep, hlatest, -⟩ := head?_step ht
    rw [hworkspace] at hstep hlatest
    obtain ⟨w₁, hw₁, hnext⟩ := hstage.advance hkind
    exact (ih hlatest hkind (hstep.trans hw₁) hnext :)

/-- **A running export works on a snapshot.**  Whatever is put into the store behind the first step
of an export, and in whatever order with its other steps, the tasks, the files and all else are as
if nothing had been put there, but for the store, which has it all.  So wherever the worker stands,
it has handled classes of the snapshot, with their texts (`ExportStage`), it reports the number of
classes in the snapshot as the total, and what it has written and skipped in the end is the
snapshot. -/
theorem course_of_start (hkind : kind ≠ .decompileArchive)
    (hstart : p.start kind target = .ok q) (turns : List Turn) :
    let after := q.step.course turns
    let store := p.workspace.store.putAll (puts turns)
    after = (q.work (steps turns + 1)).withStore store ∧
      (∀ name, store.entries.get? name =
        (Assoc.last? (puts turns) name).or (p.workspace.store.entries.get? name)) ∧
      ∃ w t, after.workspace = (p.workspace.withStore store).withWorld w ∧
        after.tasks.head? = some t ∧ ExportStage p.workspace kind target w t.stage t.queue ∧
        (∀ report, .progress report ∈ t.queue →
          report.total = some (p.workspace.store.size : Int)) ∧
        ∀ summary, .finished (.success (some (.exported summary))) ∈ t.queue →
          p.workspace.HasExported kind target summary w.files := by
  intro after store
  obtain ⟨-, rfl⟩ := start_eq_ok_iff.1 hstart
  let t : Task := ⟨p.tasks.length, kind, target, [], none, .ready⟩
  have hfirst := p.workspace.isStep_advance kind target .ready
  let started : Pipeline := { p with tasks := t :: p.tasks }
  have hexporting : started.step.IsExporting :=
    ⟨_, rfl, hkind, hfirst.begun, hfirst.fits hkind rfl⟩
  have hready : ExportStage p.workspace kind target p.workspace.world .ready [] := .ready
  obtain ⟨w₁, hw₁, hstage⟩ := hready.advance hkind
  have hafter : after = (started.work (steps turns + 1)).withStore store := by
    show started.step.course turns = _
    have hbegun : started.step.workspace = p.workspace.withWorld w₁ := hw₁
    rw [course_eq hexporting, hbegun]
    rfl
  obtain ⟨w, t', hworkspace, hlatest, hstage⟩ := exportStage_work (p := started) (t := t) rfl hkind
    rfl .ready (steps turns + 1)
  refine ⟨hafter, ?_, w, t', ?_, ?_, hstage, ?_, ?_⟩
  · intro name
    rw [Store.entries_putAll, Assoc.get?_insertAll_eq_or]
  · rw [hafter]
    show (work _ started).workspace.withStore store = _
    rw [hworkspace]
    rfl
  · rw [hafter]
    exact hlatest
  · exact fun report => hstage.total_of_mem
  · exact fun summary => hstage.hasExported

namespace Sample

/-- A class without a package, whose text is known. -/
def known : Pipeline :=
  ⟨⟨.start .empty {}, Store.empty.put "A" (some "a"), none, none, "/", ".java"⟩, []⟩

def shelf : Path := ⟨.relative, ["shelf"]⟩

/-- A new class arrives, and another text for the old one, before anything is written. -/
def meanwhile : List Turn := [.put "B" (some "b"), .put "A" (some "x"), .work, .work]

end Sample

theorem course_of_start_sample :
    ∃ q t, Sample.known.start .exportDirectory Sample.shelf = .ok q ∧
      (q.step.course Sample.meanwhile).tasks.head? = some t ∧
      t.queue = savedMessages 1 1 ++
        [.finished (.success (some (.exported ⟨Sample.shelf, ["A"], []⟩)))] ∧
      (q.step.course Sample.meanwhile).workspace.store.text? "A" = some "x" ∧
      Sample.known.workspace.HasExported .exportDirectory Sample.shelf ⟨Sample.shelf, ["A"], []⟩
        (q.step.course Sample.meanwhile).workspace.world.files := by
  have hkind : TaskKind.exportDirectory ≠ .decompileArchive := by decide
  obtain ⟨q, hstart⟩ : ∃ q, Sample.known.start .exportDirectory Sample.shelf = .ok q := ⟨_, rfl⟩
  have hqueue : (q.step.course Sample.meanwhile).tasks.head?.map Task.queue =
      some (savedMessages 1 1 ++
        [.finished (.success (some (.exported ⟨Sample.shelf, ["A"], []⟩)))]) := by
    cases hstart
    decide +kernel
  obtain ⟨-, hstore, w, t, hworkspace, ht, hstage, -, hexported⟩ :=
    course_of_start hkind hstart Sample.meanwhile
  rw [ht] at hqueue
  have hqueue : t.queue = _ := Option.some.inj hqueue
  refine ⟨q, t, hstart, ht, hqueue, ?_, ?_⟩
  · rw [hworkspace, Store.text?]
    show ((Sample.known.workspace.store.putAll (puts Sample.meanwhile)).entries.get? "A").join = _
    rw [hstore]
    decide
  · rw [hworkspace]
    exact hexported _ (by rw [hqueue]; simp)

end Pipeline

end ClassBrowser
