import ClassBrowser.Proofs.Engine.Launch
import ClassBrowser.Proofs.Package.Hierarchy
import ClassBrowser.Proofs.Store
import ClassBrowser.Proofs.Task.Completion

/-!
# Decompile tasks

What a decompile task leaves.  While the engine performs acts that let it go on, the task takes over
each class that is reported, and at the end it shows the hierarchy of what is in the store
(`completes_decompiling`).  `completes_decompiler` and `completes_decompiler_failed` say it for the
external decompiler, from the start of the task.
-/

namespace ClassBrowser

/-- Whether an engine goes on after an act. -/
def Act.isCalm : Act → Bool
  | .throw _ | .abort _ => false
  | _ => true

/-- The surroundings with the log records of acts. -/
def World.noted : World → List Act → World
  | w, [] => w
  | w, .note record :: rest => (w.note record).noted rest
  | w, _ :: rest => w.noted rest

variable {archive source : Path} {settings : Settings} {s : Workspace} {e : Engine}
  {acts : List Act} {w' : World} {completed : Engine.Completed} {d d' : Decompiler}
  {outcome : Except EngineError (List Act)}

namespace Workspace

/-- The workspace and the hierarchy when an engine has performed acts. -/
def decompiled (s : Workspace) (e : Engine) (acts : List Act) : Workspace × Package :=
  { s with world := s.world.noted acts, store := s.store.reported acts, engine := some e }.tree

/-- The result of a decompile task whose engine has performed acts. -/
def decompileResult (s : Workspace) (archive : Path) (e : Engine) (acts : List Act) : TaskResult :=
  .decompiled archive (s.decompiled e acts).2 (s.decompiled e acts).1.store.size

end Workspace

/-- Where all names are valid, nothing is said of them. -/
theorem Workspace.tree_of_valid
    (h : ∀ name ∈ s.store.entries.keys, QualifiedName.isValid s.delimiter name = true) :
    s.tree.1 = s := by
  have hnone : (Package.ofValidNames s.delimiter s.store.names).2 = [] := by
    rw [Package.records_ofValidNames, List.map_eq_nil_iff, List.filter_eq_nil_iff]
    intro name hname
    rw [QualifiedName.sorted, List.mem_mergeSort, Store.mem_names_iff] at hname
    simp [h name hname]
  show s.withWorld (s.world.noteAll (Package.ofValidNames s.delimiter s.store.names).2) = s
  rw [hnone]
  rfl

/-- A decompile task whose engine goes on takes over what the acts report. -/
theorem completes_decompiling (hcalm : ∀ a ∈ acts, a.isCalm = true) (s : Workspace) (e : Engine)
    (count : Nat) (total : Option Int) :
    ∃ sent, Completes .decompileArchive archive s (.decompiling e acts count total)
        (s.decompiled e acts).1 sent ∧
      IsReport sent (.success (some (s.decompileResult archive e acts))) := by
  induction acts generalizing s count total with
  | nil => exact ⟨_, .of_ends (by simp) (ends_succeed _ _ _ _), isReport_singleton _⟩
  | cons act rest ih =>
    obtain ⟨hact, hrest⟩ := List.forall_mem_cons.1 hcalm
    cases act with
    | unit name text =>
      obtain ⟨sent, hsent, hreport⟩ := ih hrest { s with store := s.store.put name text }
        (count + 1) (total.map fun n => max n ((count + 1 : Nat) : Int))
      exact ⟨_, .of_ends (by simp) ⟨sent, hsent, rfl⟩, hreport.cons _⟩
    | total n =>
      obtain ⟨sent, hsent, hreport⟩ := ih hrest s count (some (max n count))
      exact ⟨sent, .of_ends (by simp) (ends_silently hsent), hreport⟩
    | note record =>
      obtain ⟨sent, hsent, hreport⟩ := ih hrest (s.withWorld (s.world.note record)) count total
      exact ⟨sent, .of_ends (by simp) (ends_silently hsent), hreport⟩
    | block =>
      obtain ⟨sent, hsent, hreport⟩ := ih hrest s count total
      exact ⟨sent, .of_ends (by simp) (ends_silently hsent), hreport⟩
    | throw t => cases hact
    | abort t => cases hact

/-! ## The external decompiler -/

/-- What is said at the start of a decompile task. -/
def decompilingRecord (archive : Path) : Log.Record :=
  ⟨.info, .tasks, s!"Decompiling {archive}"⟩

/-- The surroundings in which a new decompiler is asked to decompile an archive. -/
def World.asked (w : World) (archive : Path) : World :=
  let number := w.engines
  let w := { w.note (decompilingRecord archive) with engines := number + 1 }
  ((w.trace ⟨number, none, .make⟩).trace ⟨number, none, .addSource archive⟩).trace
    ⟨number, none, .decompile⟩

/-- The decompiler of the settings when it was given an archive. -/
def Decompiler.given (settings : Settings) (source : Path) : Decompiler :=
  { ofSettings settings with sources := [source] }

/-- The engine of a decompile task. -/
def Workspace.engineFor (s : Workspace) (d : Decompiler) : Engine :=
  ⟨s.world.engines, .decompiler d⟩

variable {s' : Workspace} {sent : List Message}

theorem addSource_of_decompiler {w : World} (hmachine : e.machine = .decompiler d)
    (hadd : d.addSource w archive = .ok d') :
    e.addSource w archive =
      (w.trace ⟨e.number, none, .addSource archive⟩, { e with machine := .decompiler d' }, []) := by
  have hlabel : e.label = none := by
    rw [Engine.label, hmachine]
  have hadd : d.addSource (w.trace ⟨e.number, none, .addSource archive⟩) archive = .ok d' := hadd
  unfold Engine.addSource
  simp only [hmachine, Engine.trace, hlabel, hadd]

theorem advance_ready_of_decompiler (hfactory : s.factory = some (.decompiler settings))
    (hengine : s.engine = none)
    (hsource : Archive.validate (s.world.note (decompilingRecord archive)).files s.world.env
      archive = .ok source) :
    ∃ w, s.advance .decompileArchive archive .ready =
        Workspace.silently { s with world := w, store := .empty }
          (.adding (s.engineFor (.given settings source)) []) ∧
      w.trace ⟨s.world.engines, none, .decompile⟩ = s.world.asked archive := by
  let made : World := { s.world.note (decompilingRecord archive) with
    engines := s.world.engines + 1 }.trace ⟨s.world.engines, none, .make⟩
  have hadd : (Decompiler.ofSettings settings).addSource made archive =
      .ok (.given settings source) := by
    rw [Decompiler.addSource, show Archive.validate made.files made.env archive = .ok source
      from hsource]
    rfl
  let noted : Workspace := { s with
    store := .empty, engine := none, factory := some (.decompiler settings) }.note .info
      s!"Decompiling {archive}"
  have hmake : (Factory.decompiler settings).make noted.world =
      (made, .ok (s.engineFor (.ofSettings settings))) := rfl
  refine ⟨made.trace ⟨s.world.engines, none, .addSource archive⟩, ?_, rfl⟩
  show s.beginDecompile archive = _
  unfold Workspace.beginDecompile
  simp only [hfactory, hengine]
  rw [hmake]
  dsimp only
  rw [addSource_of_decompiler rfl hadd, ← hfactory, ← hengine]
  rfl

/-- The acts of the external decompiler: what it reports, or an error that is thrown. -/
def actsOf : Except EngineError (List Act) → List Act
  | .ok acts => acts
  | .error t => [.throw (.engine t)]

theorem decompile_of_decompiler {w : World} (hmachine : e.machine = .decompiler d)
    (hdecompile : d.decompile (w.trace ⟨e.number, none, .decompile⟩) = (w', d', outcome)) :
    e.decompile w = (w', { e with machine := .decompiler d' }, actsOf outcome) := by
  have hlabel : e.label = none := by
    rw [Engine.label, hmachine]
  unfold Engine.decompile
  simp only [hmachine, Engine.trace, hlabel, hdecompile]
  cases outcome <;> rfl

/-- A decompile task with the external decompiler goes on with the acts that its run gives. -/
theorem Completes.of_decompiler (hfactory : s.factory = some (.decompiler settings))
    (hengine : s.engine = none)
    (hsource : Archive.validate (s.world.note (decompilingRecord archive)).files s.world.env
      archive = .ok source)
    (hdecompile : (Decompiler.given settings source).decompile (s.world.asked archive) =
      (w', d, outcome))
    (h : Completes .decompileArchive archive { s with world := w', store := .empty }
      (.decompiling (s.engineFor d) (actsOf outcome) 0 none) s' sent) :
    Completes .decompileArchive archive s .ready s' sent := by
  obtain ⟨w, hready, hasked⟩ := advance_ready_of_decompiler hfactory hengine hsource
  have hrun : (s.engineFor (.given settings source)).decompile w =
      (w', s.engineFor d, actsOf outcome) := by
    refine decompile_of_decompiler rfl ?_
    show (Decompiler.given settings source).decompile
      (w.trace ⟨s.world.engines, none, .decompile⟩) = _
    rw [hasked, hdecompile]
  refine .of_ends (by simp) ?_
  rw [hready]
  refine ends_silently (.of_ends (by simp) ?_)
  show (Workspace.advanceAdding { s with world := w, store := .empty } _ []).Ends _ _ _ _
  rw [Workspace.advanceAdding]
  dsimp only
  rw [hrun]
  exact ends_silently h

/-- The external decompiler has reported classes: they are taken over. -/
theorem completes_decompiler (hfactory : s.factory = some (.decompiler settings))
    (hengine : s.engine = none)
    (hsource : Archive.validate (s.world.note (decompilingRecord archive)).files s.world.env
      archive = .ok source)
    (hdecompile : (Decompiler.given settings source).decompile (s.world.asked archive) =
      (w', d, .ok acts))
    (hcalm : ∀ a ∈ acts, a.isCalm = true) :
    let t : Workspace := { s with world := w', store := .empty }
    ∃ sent,
      Completes .decompileArchive archive s .ready (t.decompiled (s.engineFor d) acts).1 sent ∧
      IsReport sent (.success (some (t.decompileResult archive (s.engineFor d) acts))) := by
  intro t
  obtain ⟨sent, hsent, hreport⟩ := completes_decompiling hcalm t (s.engineFor d) 0 none
  exact ⟨sent, .of_decompiler hfactory hengine hsource hdecompile hsent, hreport⟩

/-- The run of the external decompiler has failed: the task fails for the same reason. -/
theorem completes_decompiler_failed (hfactory : s.factory = some (.decompiler settings))
    (hengine : s.engine = none)
    (hsource : Archive.validate (s.world.note (decompilingRecord archive)).files s.world.env
      archive = .ok source) {t : EngineError}
    (hdecompile : (Decompiler.given settings source).decompile (s.world.asked archive) =
      (w', d, .error t)) :
    ∃ s' sent, Completes .decompileArchive archive s .ready s' sent ∧
      IsReport sent (.failure t.reason) :=
  ⟨_, _, .of_decompiler hfactory hengine hsource hdecompile
    (.of_ends (by simp) (ends_fail _ _ _ _)), isReport_singleton _⟩

end ClassBrowser
