import ClassBrowser.Proofs.Task.Counting
import ClassBrowser.Proofs.Task.Decompiling
import ClassBrowser.Proofs.Task.Outcomes

/-!
# Runs of engines

What a decompile task makes of a run of its engine, that is, of all that the engine does when it is
asked to decompile, up to its end or to what it throws (`EngineRun`).  The counters of the worker
are a function of the acts so far (`Stage.after`), and each step keeps that; so a task sends one
progress report for each class that is reported, with numbers that can be read off the acts before
it, and takes over the classes, however the run ends (`exists_completes_run`).
-/

namespace ClassBrowser

/-! ## Runs -/

/-- How a run ends: by itself, by what is thrown, or by what costs the worker. -/
inductive RunEnd
  | normal
  | thrown (t : Thrown)
  | lost
deriving DecidableEq

/-- A run of an engine: what it does, and how it ends. -/
structure EngineRun where
  acts : List Act
  ending : RunEnd
deriving DecidableEq

/-- The run of an engine that is about to perform acts; none is performed after one that throws. -/
def EngineRun.ofActs : List Act → EngineRun
  | [] => ⟨[], .normal⟩
  | .throw t :: _ => ⟨[], .thrown t⟩
  | .abort _ :: _ => ⟨[], .lost⟩
  | act :: rest => ⟨act :: (ofActs rest).acts, (ofActs rest).ending⟩

/-- The run of an engine that takes its archive by performing acts.  If that throws, nothing is
reported. -/
def Engine.run (e : Engine) (w : World) (acts : List Act) : EngineRun :=
  match (EngineRun.ofActs acts).ending with
  | .normal => .ofActs (e.decompile (w.noted acts)).2.2
  | ending => ⟨[], ending⟩

/-- The run of the engine that is made for an archive. -/
def Factory.run (f : Factory) (w : World) (archive : Path) : EngineRun :=
  match f.make w with
  | (_, .error t) => ⟨[], .thrown t⟩
  | (w, .ok e) =>
    let (w, e, acts) := e.addSource w archive
    e.run w acts

namespace Act

/-- The class that an act reports. -/
def class? : Act → Option (String × Option String)
  | .unit name text => some (name, text)
  | _ => none

/-- The total that an act gives. -/
def total? : Act → Option Int
  | .total count => some count
  | _ => none

/-- The classes that acts report, one for each report. -/
def classes (acts : List Act) : List (String × Option String) := acts.filterMap class?

/-- The total that acts give last. -/
def latestTotal (acts : List Act) : Option Int := (acts.filterMap total?).getLast?

/-! ## Progress -/

/-- The progress report for a class, after the acts before it. -/
def progressAt (before : List Act) (name : String) : Progress :=
  let k := (classes before).length + 1
  ⟨k, (latestTotal before).map fun c => max c (k : Int), s!"Decompiled {name}"⟩

/-- The progress reports for acts, after those before them. -/
def progressAfter (before : List Act) : List Act → List Progress
  | [] => []
  | act :: rest =>
    (act.class?.toList.map fun c => progressAt before c.1) ++ progressAfter (before ++ [act]) rest

variable {before acts : List Act} {p : Progress}

theorem fits_progressAt (before : List Act) (name : String) : (progressAt before name).Fits := by
  intro n hn
  obtain ⟨c, -, rfl⟩ := Option.map_eq_some_iff.1 hn
  exact Int.le_max_right _ _

theorem progressAfter_append (before acts acts' : List Act) :
    progressAfter before (acts ++ acts') =
      progressAfter before acts ++ progressAfter (before ++ acts) acts' := by
  induction acts generalizing before with
  | nil => simp [progressAfter]
  | cons act rest ih => simp [progressAfter, ih]

/-- There is one report for each class, and the classes are counted one by one. -/
theorem map_completed_progressAfter (before acts : List Act) :
    (progressAfter before acts).map Progress.completed =
      List.range' ((classes before).length + 1) (classes acts).length := by
  induction acts generalizing before with
  | nil => simp [progressAfter, classes]
  | cons act rest ih =>
    rw [progressAfter, List.map_append, ih]
    cases hact : act.class? with
    | none => simp [classes, hact]
    | some c => simp [classes, hact, progressAt, List.range'_succ]

theorem length_progressAfter (before acts : List Act) :
    (progressAfter before acts).length = (classes acts).length := by
  simpa using congrArg List.length (map_completed_progressAfter before acts)

theorem map_text_progressAfter (before acts : List Act) :
    (progressAfter before acts).map Progress.text =
      (classes acts).map fun c => s!"Decompiled {c.1}" := by
  induction acts generalizing before with
  | nil => simp [progressAfter, classes]
  | cons act rest ih =>
    rw [progressAfter, List.map_append, ih]
    cases hact : act.class? <;> simp [classes, hact, progressAt]

theorem fits_of_mem_progressAfter (hp : p ∈ progressAfter before acts) : p.Fits := by
  induction acts generalizing before with
  | nil => simp [progressAfter] at hp
  | cons act rest ih =>
    rw [progressAfter, List.mem_append, List.mem_map] at hp
    rcases hp with ⟨c, -, rfl⟩ | hrest
    · exact fits_progressAt _ _
    · exact ih hrest

/-- The report for a class stands behind those for the classes before it. -/
theorem getElem?_progressAfter (before mid after : List Act) (name : String)
    (text : Option String) :
    (progressAfter before (mid ++ .unit name text :: after))[(classes mid).length]? =
      some (progressAt (before ++ mid) name) := by
  rw [progressAfter_append, ← length_progressAfter before mid,
    List.getElem?_append_right (Nat.le_refl _), Nat.sub_self]
  rfl

end Act

open Act

/-! ## Steps -/

/-- The stage of a decompile task whose engine has performed some acts and is about to perform
others. -/
def Stage.after (e : Engine) (before acts : List Act) : Stage :=
  .decompiling e acts (classes before).length
    ((latestTotal before).map fun c => max c ((classes before).length : Int))

/-- What a decompile task sends when the run of its engine has ended. -/
def RunEnd.sent (archive : Path) (s : Workspace) : RunEnd → List Message
  | .normal => [.finished (.success (some (.decompiled archive s.tree.2 s.store.size)))]
  | .thrown t => [.finished (.failure t.reason)]
  | .lost => []

/-- Whether a workspace is another one with classes taken over. -/
structure Workspace.TakesOver (s s' : Workspace) (classes : List (String × Option String)) :
    Prop where
  entries : s'.store.entries = s.store.entries.insertAll classes
  delimiter : s'.delimiter = s.delimiter

/-- Whether a decompile task takes over from a stage on what a run does after some acts. -/
def EngineRun.TakenOver (run : EngineRun) (archive : Path) (before : List Act) (s : Workspace)
    (stage : Stage) : Prop :=
  ∃ s', Completes .decompileArchive archive s stage s'
      ((progressAfter before run.acts).map .progress ++ run.ending.sent archive s') ∧
    s.TakesOver s' (classes run.acts)

variable {archive : Path} {s t : Workspace} {e : Engine} {stage next : Stage} {f : Factory}
  {before rest acts : List Act} {act : Act} {run : EngineRun} {w : World} {thrown : Thrown}

namespace Workspace

theorem advance_after_unit (name : String) (text : Option String) :
    s.advance .decompileArchive archive (.after e before (.unit name text :: rest)) =
      ⟨{ s with store := s.store.put name text },
        .after e (before ++ [.unit name text]) rest, [.progress (progressAt before name)]⟩ := by
  have hcount : (classes (before ++ [.unit name text])).length = (classes before).length + 1 := by
    simp [classes, class?]
  have hlatest : latestTotal (before ++ [.unit name text]) = latestTotal before := by
    simp [latestTotal, total?]
  -- Raising a total to the old count first makes no difference once it is raised to the new one.
  have hbound (c : Int) :
      max (max c ((classes before).length : Int)) (((classes before).length + 1 : Nat) : Int) =
        max c (((classes before).length + 1 : Nat) : Int) := by
    omega
  unfold Stage.after progressAt
  rw [hcount, hlatest]
  unfold advance advanceDecompiling
  simp only [Option.map_map, Function.comp_def, hbound]

theorem advance_after_total (count : Int) :
    s.advance .decompileArchive archive (.after e before (.total count :: rest)) =
      s.silently (.after e (before ++ [.total count]) rest) := by
  have hcount : (classes (before ++ [.total count])).length = (classes before).length := by
    simp [classes, class?]
  have hlatest : latestTotal (before ++ [.total count]) = some count := by
    simp [latestTotal, total?]
  unfold Stage.after
  rw [hcount, hlatest]
  rfl

theorem after_append_of_none (hclass : act.class? = none) (htotal : act.total? = none) :
    Stage.after e (before ++ [act]) rest = .after e before rest := by
  simp [Stage.after, classes, latestTotal, hclass, htotal]

end Workspace

namespace EngineRun

/-- A step that sends nothing and keeps the store leads on to a stage that takes over a run. -/
theorem TakenOver.silently (hstage : stage ≠ .finished)
    (hstep : s.advance .decompileArchive archive stage = (s.withWorld w).silently next)
    (h : run.TakenOver archive before (s.withWorld w) next) :
    run.TakenOver archive before s stage := by
  obtain ⟨s', hcompletes, htakes⟩ := h
  exact ⟨s', .of_ends hstage (hstep ▸ ends_silently hcompletes), htakes.entries, htakes.delimiter⟩

/-- An act that reports nothing may stand before a run. -/
theorem TakenOver.cons_of_none (hclass : act.class? = none)
    (h : run.TakenOver archive (before ++ [act]) s stage) :
    TakenOver ⟨act :: run.acts, run.ending⟩ archive before s stage := by
  have hprogress : progressAfter before (act :: run.acts) =
      progressAfter (before ++ [act]) run.acts := by
    simp [progressAfter, hclass]
  have hclasses : classes (act :: run.acts) = classes run.acts := by
    simp [classes, hclass]
  unfold TakenOver
  rwa [hprogress, hclasses]

theorem takenOver_thrown (hstage : stage ≠ .finished)
    (hstep : s.advance .decompileArchive archive stage =
      (s.withWorld w).fail .decompileArchive (.thrown thrown)) :
    TakenOver ⟨[], .thrown thrown⟩ archive before s stage := by
  refine ⟨((s.withWorld w).fail .decompileArchive (.thrown thrown)).workspace,
    .of_ends hstage ?_, rfl, rfl⟩
  rw [hstep]
  exact ends_fail _ _ _ _

theorem takenOver_lost (hstage : stage ≠ .finished)
    (hstep : s.advance .decompileArchive archive stage = s.silently .finished) :
    TakenOver ⟨[], .lost⟩ archive before s stage :=
  ⟨s, .of_ends hstage (hstep ▸ ends_silently (.finished s)), rfl, rfl⟩

/-- A decompile task whose engine is at work takes over all that this does. -/
theorem takenOver_after (before acts : List Act) (s : Workspace) :
    (ofActs acts).TakenOver archive before s (.after e before acts) := by
  -- The counters of the stage are those after `before`, so this has to vary along with the store.
  induction acts generalizing before s with
  | nil =>
    let u : Workspace := { s with engine := some e }
    have htree : u.tree.1.tree.2 = u.tree.2 := Workspace.tree_congr rfl rfl
    refine ⟨u.tree.1, .of_ends nofun ?_, rfl, rfl⟩
    show (s.finishDecompile archive e).Ends _ _ _
      [.finished (.success (some (.decompiled archive u.tree.1.tree.2 u.tree.1.store.size)))]
    rw [htree]
    exact ends_succeed _ _ _ _
  | cons act rest ih =>
    cases act with
    | unit name text =>
      obtain ⟨s', hcompletes, htakes⟩ :=
        ih (before ++ [.unit name text]) { s with store := s.store.put name text }
      refine ⟨s', .of_ends nofun ?_, htakes.entries, htakes.delimiter⟩
      rw [Workspace.advance_after_unit]
      exact ⟨_, hcompletes, rfl⟩
    | total count =>
      exact .cons_of_none rfl
        (.silently nofun (Workspace.advance_after_total count) (ih (before ++ [.total count]) s))
    | note record =>
      have hrest := ih (before ++ [.note record]) (s.withWorld (s.world.note record))
      rw [Workspace.after_append_of_none rfl rfl] at hrest
      exact .cons_of_none rfl (.silently nofun rfl hrest)
    | block =>
      have hrest := ih (before ++ [.block]) s
      rw [Workspace.after_append_of_none rfl rfl] at hrest
      exact .cons_of_none rfl (.silently nofun rfl hrest)
    | throw t => exact takenOver_thrown nofun rfl
    | abort t => exact takenOver_lost nofun rfl

/-- A decompile task whose engine takes the archive goes on to take over the run. -/
theorem takenOver_adding (archive : Path) (e : Engine) (acts : List Act) (s : Workspace) :
    (e.run s.world acts).TakenOver archive [] s (.adding e acts) := by
  induction acts generalizing s with
  | nil =>
    exact .silently nofun rfl
      (takenOver_after [] (e.decompile s.world).2.2 (s.withWorld (e.decompile s.world).1))
  | cons act rest ih =>
    cases act with
    | note record => exact .silently nofun rfl (ih (s.withWorld (s.world.note record)))
    | throw t => exact takenOver_thrown nofun rfl
    | abort t => exact takenOver_lost nofun rfl
    | _ => exact .silently nofun rfl (ih s)

end EngineRun

/-! ## Whole tasks -/

theorem outcome?_of_mem_progress (events : List Progress) :
    ∀ m ∈ events.map Message.progress, m.outcome? = none := by
  simp [Message.outcome?]

theorem isReport_progress (events : List Progress) (o : Outcome) :
    IsReport (events.map .progress ++ [.finished o]) o :=
  ⟨_, rfl, outcome?_of_mem_progress events⟩

/-- The run of the engine of a decompile task. -/
def Workspace.engineRun (s : Workspace) (f : Factory) (archive : Path) : EngineRun :=
  f.run (s.cleared archive).world archive

/-- Whatever acts are given to a script, they are the run of its engine. -/
theorem Workspace.engineRun_script (s : Workspace) (label : String) (acts : List Act)
    (rendered : Assoc String Rendering) (archive : Path) :
    s.engineRun (.script ⟨label, [], acts, rendered⟩) archive = .ofActs acts := rfl

/-- A decompile task sends a progress report for each class that its engine reports, and then the
outcome, unless the worker is lost; it leaves just those classes in the store. -/
theorem exists_completes_run (hfactory : s.factory = some f) (archive : Path) :
    let run := s.engineRun f archive
    ∃ s', Completes .decompileArchive archive s .ready s'
        ((progressAfter [] run.acts).map .progress ++ run.ending.sent archive s') ∧
      s'.store.entries = Assoc.insertAll [] (classes run.acts) ∧ s'.delimiter = s.delimiter := by
  intro run
  have hstore : (s.cleared archive).store.entries = [] := by
    rw [s.cleared_eq]
    rfl
  have hdelimiter : (s.cleared archive).delimiter = s.delimiter := by
    rw [s.cleared_eq]
  rcases hmake : f.make (s.cleared archive).world with ⟨w, made⟩
  cases made with
  | error t =>
    have hrun : run = ⟨[], .thrown t⟩ := by
      simp only [run, Workspace.engineRun, Factory.run, hmake]
    have hfails : s.Moves .decompileArchive archive .ready _ := .unmade rfl hfactory hmake
    rw [hrun]
    refine ⟨(((s.cleared archive).withWorld w).fail .decompileArchive (.thrown t)).workspace,
      .of_ends nofun ?_, hstore, hdelimiter⟩
    rw [← hfails.eq_advance]
    exact ends_fail _ _ _ _
  | ok e =>
    let added := e.addSource w archive
    obtain ⟨s', hcompletes, htakes⟩ :=
      EngineRun.takenOver_adding archive added.2.1 added.2.2
        ((s.cleared archive).withWorld added.1)
    have hrun : run = added.2.1.run added.1 added.2.2 := by
      simp only [run, Workspace.engineRun, Factory.run, hmake, added]
    have hbegins : s.Moves .decompileArchive archive .ready _ := .made rfl hfactory hmake
    rw [hrun]
    refine ⟨s', .of_ends nofun ?_, ?_, htakes.delimiter.trans hdelimiter⟩
    · rw [← hbegins.eq_advance]
      exact ends_silently hcompletes
    · rw [htakes.entries, ← hstore]
      rfl

/-- A decompile task succeeds whose engine comes to the end of its run. -/
theorem exists_taskEnds_of_normal (hfactory : s.factory = some f)
    (hending : (s.engineRun f archive).ending = .normal) :
    ∃ s' result, TaskEnds .decompileArchive archive s s' (.success result) ∧
      s'.store.entries = Assoc.insertAll [] (classes (s.engineRun f archive).acts) := by
  obtain ⟨s', hcompletes, hentries, -⟩ := exists_completes_run hfactory archive
  rw [hending] at hcompletes
  exact ⟨s', _, ⟨_, hcompletes, isReport_progress _ _⟩, hentries⟩

/-- A decompile task that succeeds yields the hierarchy of what it has left in the store. -/
theorem TaskEnds.of_success {result : Option TaskResult}
    (h : TaskEnds .decompileArchive archive s t (.success result)) (hfactory : s.factory = some f) :
    result = some (.decompiled archive t.tree.2 t.store.size) ∧ t.delimiter = s.delimiter := by
  obtain ⟨sent, hcompletes, hreport⟩ := h
  obtain ⟨s', hrun, -, hdelimiter⟩ := exists_completes_run hfactory archive
  obtain ⟨rfl, rfl⟩ := hcompletes.unique hrun
  refine ⟨?_, hdelimiter⟩
  have houtcome := Pipeline.findSome?_outcome? hreport
  rw [List.findSome?_append, List.findSome?_eq_none_iff.2 (outcome?_of_mem_progress _),
    Option.none_or] at houtcome
  cases hending : (s.engineRun f archive).ending with
  | normal =>
    rw [hending] at houtcome
    exact (Outcome.success.inj (Option.some.inj houtcome)).symm
  | thrown t =>
    rw [hending] at houtcome
    cases houtcome
  | lost =>
    rw [hending] at houtcome
    cases houtcome

end ClassBrowser
