import ClassBrowser.Task.Pipeline

/-!
# What a worker does next

A worker makes one of a few moves, and at most stages it is the next act of an engine that decides
which.  `Workspace.Moves` lists them, each with what it takes and what comes of it.  What is to be
said of every step is proved along that list (`moves_advance`), so that no proof of an invariant
looks into the worker, and an act that several stages treat alike is a single case.
-/

namespace ClassBrowser

/-! ## Stages -/

/-- The class that an engine reports by its next act. -/
def Stage.reports : Stage → List (String × Option String)
  | .decompiling _ (.unit name text :: _) _ _ => [(name, text)]
  | _ => []

/-- Whether the engine of a decompile task is at work. -/
def Stage.isDecompiling : Stage → Bool
  | .adding _ _ | .decompiling _ _ _ _ => true
  | _ => false

/-- Whether a worker has come to the end of its task. -/
def Stage.isOver : Stage → Bool
  | .reported | .finished => true
  | _ => false

/-- The engine of a decompile task that is under way. -/
def Stage.engine? : Stage → Option Engine
  | .adding e _ | .decompiling e _ _ _ => some e
  | _ => none

/-- The acts that an engine is about to perform. -/
def Stage.acts : Stage → List Act
  | .adding _ acts | .decompiling _ acts _ _ | .rendering _ _ acts _ => acts
  | _ => []

/-- The stage with other acts about to be performed. -/
def Stage.withActs (acts : List Act) : Stage → Stage
  | .adding e _ => .adding e acts
  | .decompiling e _ completed total => .decompiling e acts completed total
  | .rendering x name _ text => .rendering x name acts text
  | stage => stage

/-- Whether nothing comes of an act.  What an engine reports counts only when it decompiles. -/
def Stage.passes : Stage → Act → Bool
  | _, .block => true
  | .decompiling _ _ _ _, _ => false
  | _, .unit _ _ | _, .total _ => true
  | _, _ => false

namespace Stage

variable {stage : Stage} {act : Act} {acts rest : List Act} {e : Engine}

@[simp] theorem isDecompiling_withActs (stage : Stage) (acts : List Act) :
    (stage.withActs acts).isDecompiling = stage.isDecompiling := by
  cases stage <;> rfl

@[simp] theorem isOver_withActs (stage : Stage) (acts : List Act) :
    (stage.withActs acts).isOver = stage.isOver := by
  cases stage <;> rfl

@[simp] theorem engine?_withActs (stage : Stage) (acts : List Act) :
    (stage.withActs acts).engine? = stage.engine? := by
  cases stage <;> rfl

@[simp] theorem withActs_eq_ready : stage.withActs acts = .ready ↔ stage = .ready := by
  cases stage <;> simp [withActs]

theorem isDecompiling_of_engine? (h : stage.engine? = some e) : stage.isDecompiling = true := by
  cases stage with
  | adding => rfl
  | decompiling => rfl
  | _ => cases h

theorem ne_ready_of_acts (h : stage.acts = act :: rest) : stage ≠ .ready := by
  rintro rfl
  cases h

theorem isOver_of_acts (h : stage.acts = act :: rest) : stage.isOver = false := by
  cases stage with
  | reported => cases h
  | finished => cases h
  | _ => rfl

theorem ne_of_isOver (h : stage.isOver = false) : stage ≠ .reported ∧ stage ≠ .finished := by
  cases stage with
  | reported => cases h
  | finished => cases h
  | _ => exact ⟨nofun, nofun⟩

/-- No class is reported by an act that is none of a class, or that is passed over. -/
theorem reports_of_acts (h : stage.acts = act :: rest)
    (hact : ∀ name text, act = .unit name text → stage.passes act = true) :
    stage.reports = [] := by
  cases stage with
  | decompiling e acts completed total =>
    obtain rfl : acts = act :: rest := h
    cases act with
    | unit name text => cases hact name text rfl
    | _ => rfl
  | _ => rfl

end Stage

/-! ## Tasks that begin -/

/-- What is said at the start of an export. -/
def exportingRecord (count : Nat) (target : Path) : Log.Record :=
  ⟨.info, .tasks, s!"Exporting {count} classes to {target}"⟩

namespace Workspace

variable {s : Workspace} {kind : TaskKind} {target : Path} {stage : Stage} {f : Factory}

/-- The workspace when a decompile task asks for its engine. -/
def cleared (s : Workspace) (archive : Path) : Workspace :=
  let s := { s with store := .empty }
  let s := match s.engine with
    | some e => { s.closeEngine e with engine := none }
    | none => s
  s.note .info s!"Decompiling {archive}"

/-- The store is empty then, and the engine of the task before is closed. -/
theorem cleared_eq (s : Workspace) (archive : Path) : s.cleared archive =
    { s with
      world := (s.engine.elim s.world fun e => (e.close s.world).1).note
        ⟨.info, .tasks, s!"Decompiling {archive}"⟩
      store := .empty
      engine := none } := by
  obtain ⟨world, store, engine, factory, delimiter, extension⟩ := s
  cases engine <;> rfl

/-- The workspace when an export opens its target. -/
def exporting (s : Workspace) (target : Path) : Workspace :=
  s.withWorld (s.world.note (exportingRecord s.store.units.length target))

theorem beginDecompile_of_factory (hfactory : s.factory = some f) (archive : Path) :
    s.beginDecompile archive = match f.make (s.cleared archive).world with
      | (w, .error t) => ((s.cleared archive).withWorld w).fail .decompileArchive (.thrown t)
      | (w, .ok e) =>
        let (w, e, acts) := e.addSource w archive
        ((s.cleared archive).withWorld w).silently (.adding e acts) := by
  obtain ⟨world, store, engine, factory, delimiter, extension⟩ := s
  cases hfactory
  rfl

theorem beginExport_eq (s : Workspace) (kind : TaskKind) (writer : Export.Writer) :
    let noted := s.exporting writer.target
    s.beginExport kind writer = match writer.openTarget noted.world.files with
      | (files, .error e) => (noted.withFiles files).fail kind (.unwritten e)
      | (files, .ok w) => (noted.withFiles files).silently
        (.exporting ⟨w, 0, s.store.units.length, s.store.units, ⟨w.target, [], []⟩⟩) :=
  rfl

/-- An export begins with the writer for its target. -/
theorem advance_ready_of_export (hkind : kind ≠ .decompileArchive) :
    s.advance kind target .ready = s.beginExport kind (s.writerFor kind target) := by
  cases kind with
  | decompileArchive => exact absurd rfl hkind
  | exportDirectory => rfl
  | exportArchive => rfl

@[simp] theorem target_writerFor (s : Workspace) (kind : TaskKind) (target : Path) :
    (s.writerFor kind target).target = target := by
  cases kind <;> rfl

/-! ## Moves -/

/-- Whether an export goes on with a text for a class, or without one: the class has it, or there is
no engine to be asked, or the engine was asked. -/
inductive Supplies (s : Workspace) : Stage → Exporting → String → Option String → Prop
  | known {x : Exporting} {u : ClassUnit} {left : List ClassUnit} (hleft : x.left = u :: left)
      (hknown : u.text = none → s.engine = none) :
      s.Supplies (.exporting x) { x with left } u.name u.text
  | rendered {x : Exporting} {name : String} {text : Option String} :
      s.Supplies (.rendering x name [] text) x name text

/-- A class that has a text is exported with that. -/
theorem Supplies.own {x : Exporting} {u : ClassUnit} {left : List ClassUnit} {text : String}
    (hleft : x.left = u :: left) (htext : u.text = some text) :
    s.Supplies (.exporting x) { x with left } u.name (some text) :=
  htext ▸ .known hleft fun hnone => nomatch htext.symm.trans hnone

theorem Supplies.isDecompiling {x : Exporting} {name : String} {text : Option String}
    (h : s.Supplies stage x name text) : stage.isDecompiling = false := by
  cases h <;> rfl

theorem Supplies.ne_ready {x : Exporting} {name : String} {text : Option String}
    (h : s.Supplies stage x name text) : stage ≠ .ready := by
  cases h <;> nofun

/-- The moves of a worker: where it stands before, and what the step leads to. -/
inductive Moves (s : Workspace) (kind : TaskKind) (target : Path) : Stage → Advance → Prop
  /-- There is no engine to decompile with. -/
  | unconfigured (hkind : kind = .decompileArchive) (hfactory : s.factory = none) :
      s.Moves kind target .ready (s.fail .decompileArchive .noEngine)
  /-- The engine cannot be made. -/
  | unmade {f : Factory} {w : World} {t : Thrown} (hkind : kind = .decompileArchive)
      (hfactory : s.factory = some f)
      (hmake : f.make (s.cleared target).world = (w, .error t)) :
      s.Moves kind target .ready
        (((s.cleared target).withWorld w).fail .decompileArchive (.thrown t))
  /-- The engine is made and given the archive. -/
  | made {f : Factory} {w : World} {e : Engine} (hkind : kind = .decompileArchive)
      (hfactory : s.factory = some f) (hmake : f.make (s.cleared target).world = (w, .ok e)) :
      s.Moves kind target .ready
        (((s.cleared target).withWorld (e.addSource w target).1).silently
          (.adding (e.addSource w target).2.1 (e.addSource w target).2.2))
  /-- The engine, which has the archive, is told to decompile. -/
  | added {e : Engine} :
      s.Moves kind target (.adding e [])
        ((s.withWorld (e.decompile s.world).1).silently
          (.decompiling (e.decompile s.world).2.1 (e.decompile s.world).2.2 0 none))
  /-- A class is reported. -/
  | unit {e : Engine} {name : String} {text : Option String} {rest : List Act} {completed : Nat}
      {total next : Option Int}
      (hnext : next = total.map fun n => max n ((completed + 1 : Nat) : Int)) :
      s.Moves kind target (.decompiling e (.unit name text :: rest) completed total)
        ⟨{ s with store := s.store.put name text }, .decompiling e rest (completed + 1) next,
          [.progress ⟨completed + 1, next, s!"Decompiled {name}"⟩]⟩
  /-- The number of classes is reported. -/
  | total {e : Engine} {count : Int} {rest : List Act} {completed : Nat} {total : Option Int} :
      s.Moves kind target (.decompiling e (.total count :: rest) completed total)
        (s.silently (.decompiling e rest completed (some (max count completed))))
  /-- All classes were reported. -/
  | decompiled {e : Engine} {completed : Nat} {total : Option Int} :
      s.Moves kind target (.decompiling e [] completed total) (s.finishDecompile target e)
  /-- The engine of a decompile task throws. -/
  | threw {stage : Stage} {e : Engine} {t : Thrown} {rest : List Act}
      (hengine : stage.engine? = some e) (hacts : stage.acts = .throw t :: rest) :
      s.Moves kind target stage (s.failEngine e t)
  /-- The engine of a decompile task costs the worker. -/
  | lost {stage : Stage} {e : Engine} {t : Thrown} {rest : List Act}
      (hengine : stage.engine? = some e) (hacts : stage.acts = .abort t :: rest) :
      s.Moves kind target stage (s.silently .finished)
  /-- An engine writes to the log. -/
  | noted {stage : Stage} {record : Log.Record} {rest : List Act}
      (hacts : stage.acts = .note record :: rest) :
      s.Moves kind target stage
        ((s.withWorld (s.world.note record)).silently (stage.withActs rest))
  /-- An engine does something of which nothing comes. -/
  | passed {stage : Stage} {act : Act} {rest : List Act} (hacts : stage.acts = act :: rest)
      (hpasses : stage.passes act = true) :
      s.Moves kind target stage (s.silently (stage.withActs rest))
  /-- The target of an export cannot be opened. -/
  | unopened {files : Files} {e : Export.ExportError} (hkind : kind ≠ .decompileArchive)
      (hopen : (s.writerFor kind target).openTarget (s.exporting target).world.files =
        (files, .error e)) :
      s.Moves kind target .ready (((s.exporting target).withFiles files).fail kind (.unwritten e))
  /-- The target of an export is opened, and all classes are to be exported. -/
  | opened {files : Files} {writer : Export.Writer} (hkind : kind ≠ .decompileArchive)
      (hopen : (s.writerFor kind target).openTarget (s.exporting target).world.files =
        (files, .ok writer)) :
      s.Moves kind target .ready
        (((s.exporting target).withFiles files).silently
          (.exporting ⟨writer, 0, s.store.units.length, s.store.units, ⟨writer.target, [], []⟩⟩))
  /-- The engine is asked for the text of a class that has none. -/
  | asked {x : Exporting} {u : ClassUnit} {left : List ClassUnit} {e : Engine}
      (hleft : x.left = u :: left) (htext : u.text = none) (hengine : s.engine = some e) :
      s.Moves kind target (.exporting x)
        ((s.withWorld (e.render s.world u.name).1).silently
          (.rendering { x with left } u.name (e.render s.world u.name).2.1
            (e.render s.world u.name).2.2))
  /-- There is no text for a class. -/
  | skipped {stage : Stage} {x : Exporting} {name : String}
      (hsupplies : s.Supplies stage x name none) :
      s.Moves kind target stage
        ((s.note .debug s!"No content for {name}; skipping").handled
          { x with summary := { x.summary with skipped := x.summary.skipped ++ [name] } })
  /-- The text of a class is written. -/
  | written {stage : Stage} {x : Exporting} {name text shown : String} {files : Files}
      {writer : Export.Writer} (hsupplies : s.Supplies stage x name (some text))
      (hwrite : x.writer.write s.world.files name text = (files, writer, .ok shown)) :
      s.Moves kind target stage
        ((s.withFiles files).handled { x with
          writer, summary := { x.summary with written := x.summary.written ++ [name] } })
  /-- The text of a class cannot be written. -/
  | unwritten {stage : Stage} {x : Exporting} {name text : String} {files : Files}
      {writer : Export.Writer} {e : Export.ExportError}
      (hsupplies : s.Supplies stage x name (some text))
      (hwrite : x.writer.write s.world.files name text = (files, writer, .error e)) :
      s.Moves kind target stage ((s.withFiles files).failExport kind writer (.unwritten e))
  /-- The engine that is asked for a text throws. -/
  | refused {x : Exporting} {name : String} {t : Thrown} {rest : List Act} {text : Option String} :
      s.Moves kind target (.rendering x name (.throw t :: rest) text)
        (s.failExport kind x.writer (.thrown t))
  /-- The engine that is asked for a text costs the worker. -/
  | deserted {x : Exporting} {name : String} {t : Thrown} {rest : List Act}
      {text : Option String} (hclose : s.closeFailure? x.writer = none) :
      s.Moves kind target (.rendering x name (.abort t :: rest) text)
        ((s.closeWriter x.writer).silently .finished)
  /-- The engine that is asked for a text would cost the worker, but that the target cannot be
  closed. -/
  | rescued {x : Exporting} {name : String} {t : Thrown} {rest : List Act}
      {text : Option String} {f : TaskFailure} (hclose : s.closeFailure? x.writer = some f) :
      s.Moves kind target (.rendering x name (.abort t :: rest) text)
        ((s.closeWriter x.writer).fail kind f)
  /-- All classes were exported. -/
  | exported {x : Exporting} (hleft : x.left = []) (hclose : s.closeFailure? x.writer = none) :
      s.Moves kind target (.exporting x) ((s.closeWriter x.writer).succeed (.exported x.summary))
  /-- All classes were exported, and the target cannot be closed. -/
  | unclosed {x : Exporting} {f : TaskFailure} (hleft : x.left = [])
      (hclose : s.closeFailure? x.writer = some f) :
      s.Moves kind target (.exporting x) ((s.closeWriter x.writer).fail kind f)
  /-- The task is over. -/
  | ended {stage : Stage} (hover : stage.isOver = true) :
      s.Moves kind target stage (s.silently .finished)

theorem moves_exportUnit {x : Exporting} {name : String} {text : Option String}
    (h : s.Supplies stage x name text) :
    s.Moves kind target stage (s.exportUnit kind x name text) := by
  unfold exportUnit
  split
  · exact .skipped h
  · split
    · next hwrite => exact .unwritten h hwrite
    · next hwrite => exact .written h hwrite

theorem moves_beginDecompile :
    s.Moves .decompileArchive target .ready (s.beginDecompile target) := by
  cases hfactory : s.factory with
  | none =>
    unfold beginDecompile
    rw [hfactory]
    exact .unconfigured rfl hfactory
  | some f =>
    rw [beginDecompile_of_factory hfactory]
    split
    · next hmake => exact .unmade rfl hfactory hmake
    · next hmake => exact .made rfl hfactory hmake

theorem moves_beginExport (hkind : kind ≠ .decompileArchive) :
    s.Moves kind target .ready (s.beginExport kind (s.writerFor kind target)) := by
  rw [beginExport_eq, target_writerFor]
  split
  · next hopen => exact .unopened hkind hopen
  · next hopen => exact .opened hkind hopen

/-- Every step of a worker is one of the moves. -/
theorem moves_advance (s : Workspace) (kind : TaskKind) (target : Path) (stage : Stage) :
    s.Moves kind target stage (s.advance kind target stage) := by
  cases stage with
  | ready =>
    cases kind with
    | decompileArchive => exact moves_beginDecompile
    | exportDirectory => exact moves_beginExport nofun
    | exportArchive => exact moves_beginExport nofun
  | adding e acts =>
    cases acts with
    | nil => exact .added
    | cons act rest =>
      cases act with
      | throw t => exact .threw rfl rfl
      | abort t => exact .lost rfl rfl
      | note record => exact .noted rfl
      | _ => exact .passed rfl rfl
  | decompiling e acts completed total =>
    cases acts with
    | nil => exact .decompiled
    | cons act rest =>
      cases act with
      | unit name text => exact .unit rfl
      | total count => exact .total
      | throw t => exact .threw rfl rfl
      | abort t => exact .lost rfl rfl
      | note record => exact .noted rfl
      | block => exact .passed rfl rfl
  | exporting x =>
    show s.Moves kind target _ (s.advanceExporting kind x)
    unfold advanceExporting
    split
    · next hleft =>
      unfold endExport
      split
      · next hclose => exact .exported hleft hclose
      · next hclose => exact .unclosed hleft hclose
    · next u left hleft =>
      dsimp only
      split
      · next e htext hengine => exact .asked hleft htext hengine
      · next hknown =>
        refine moves_exportUnit (.known hleft fun htext => ?_)
        exact Option.eq_none_iff_forall_ne_some.2 (hknown · htext)
  | rendering x name acts text =>
    cases acts with
    | nil => exact moves_exportUnit .rendered
    | cons act rest =>
      cases act with
      | throw t => exact .refused
      | abort t =>
        show s.Moves kind target _ (s.endExport kind x.writer (·.silently .finished))
        unfold endExport
        split
        · next hclose => exact .deserted hclose
        · next hclose => exact .rescued hclose
      | note record => exact .noted rfl
      | _ => exact .passed rfl rfl
  | reported => exact .ended rfl
  | finished => exact .ended rfl

/-! ## Steps from moves -/

theorem exportUnit_of_error {x : Exporting} {name text : String} {files : Files}
    {writer : Export.Writer} {e : Export.ExportError}
    (h : x.writer.write s.world.files name text = (files, writer, .error e)) :
    s.exportUnit kind x name (some text) =
      (s.withFiles files).failExport kind writer (.unwritten e) := by
  unfold exportUnit
  simp only [h]

theorem exportUnit_of_ok {x : Exporting} {name text shown : String} {files : Files}
    {writer : Export.Writer}
    (h : x.writer.write s.world.files name text = (files, writer, .ok shown)) :
    s.exportUnit kind x name (some text) =
      (s.withFiles files).handled { x with
        writer, summary := { x.summary with written := x.summary.written ++ [name] } } := by
  unfold exportUnit
  simp only [h]

theorem Supplies.advance_eq {x : Exporting} {name : String} {text : Option String}
    (h : s.Supplies stage x name text) (kind : TaskKind) (target : Path) :
    s.advance kind target stage = s.exportUnit kind x name text := by
  cases h with
  | @known x u left hleft hknown =>
    show s.advanceExporting kind x = _
    unfold advanceExporting
    simp only [hleft]
    split
    · next e htext hengine => cases (hknown htext).symm.trans hengine
    · rfl
  | rendered => rfl

/-- A worker has one move at a time, and that is its step. -/
theorem Moves.eq_advance {a : Advance} (h : s.Moves kind target stage a) :
    a = s.advance kind target stage := by
  cases h with
  | unconfigured hkind hfactory =>
    subst hkind
    show _ = s.beginDecompile target
    unfold beginDecompile
    rw [hfactory]
  | unmade hkind hfactory hmake =>
    subst hkind
    show _ = s.beginDecompile target
    rw [beginDecompile_of_factory hfactory, hmake]
  | made hkind hfactory hmake =>
    subst hkind
    show _ = s.beginDecompile target
    rw [beginDecompile_of_factory hfactory, hmake]
  | unit hnext =>
    subst hnext
    rfl
  | added | total | decompiled | refused => rfl
  | threw hengine hacts =>
    cases stage <;> cases hengine <;> cases hacts <;> rfl
  | lost hengine hacts =>
    cases stage <;> cases hengine <;> cases hacts <;> rfl
  | noted hacts => cases stage <;> cases hacts <;> rfl
  | @passed _ act _ hacts hpasses =>
    cases stage <;> cases hacts <;> cases act <;> first | rfl | cases hpasses
  | unopened hkind hopen =>
    rw [advance_ready_of_export hkind, beginExport_eq, target_writerFor, hopen]
  | opened hkind hopen =>
    rw [advance_ready_of_export hkind, beginExport_eq, target_writerFor, hopen]
  | @asked x _ _ _ hleft htext hengine =>
    show _ = s.advanceExporting kind x
    unfold advanceExporting
    simp only [hleft, htext, hengine]
  | skipped hsupplies =>
    rw [hsupplies.advance_eq]
    rfl
  | written hsupplies hwrite => rw [hsupplies.advance_eq, exportUnit_of_ok hwrite]
  | unwritten hsupplies hwrite => rw [hsupplies.advance_eq, exportUnit_of_error hwrite]
  | @deserted x _ _ _ _ hclose | @rescued x _ _ _ _ _ hclose =>
    show _ = s.endExport kind x.writer (·.silently .finished)
    unfold endExport
    simp only [hclose]
  | @exported x hleft hclose | @unclosed x _ hleft hclose =>
    show _ = s.advanceExporting kind x
    unfold advanceExporting endExport
    simp only [hleft, hclose]
  | ended hover => cases stage <;> cases hover <;> rfl

end Workspace

end ClassBrowser
