import ClassBrowser.Proofs.Engine.Reports
import ClassBrowser.Proofs.Engine.Surroundings
import ClassBrowser.Proofs.Log
import ClassBrowser.Proofs.Task.Decompiling
import Mathlib.Data.List.Induction

/-!
# What the decompiler remembers

A decompiler that is asked for this and that, in any order (`Step`).  The text of a class is known
only between a run that has collected its classes and the next run or closing, and then it is the
text that the run has reported (`remembers`).  Nothing of an earlier run is left: a run forgets what
was known before it looks at anything else.  A run that fails leaves nothing known either, unless it
has broken off while it reported its classes (`exists_text_after_failure`).

While texts are asked for and archives are added, only records of the log change the files
(`logs_after`), and these do not touch what was collected unless the log is written right there.
-/

namespace ClassBrowser

/-! ## Reading under records of the log -/

namespace Files

variable {fs fs' : Files} {log : Option Place} {p : Path} {node : Node}

theorem exists_refused_of_walk {above : Place} {parts : List Text.Loose} {e : FileError}
    (h : fs.walk p above parts = .error e) : ∃ obstacle, e = .refused obstacle p := by
  induction parts generalizing above with
  | nil => cases h
  | cons part rest ih =>
    rw [walk] at h
    split at h
    · exact ⟨.notFound, (Except.error.inj h).symm⟩
    · split at h
      · exact ⟨.nameTooLong, (Except.error.inj h).symm⟩
      · exact ih h
    · exact ⟨.notDirectory, (Except.error.inj h).symm⟩

/-- A path is refused by the system, or it is no path whatever the files are. -/
theorem get_eq_error {e : FileError} (h : fs.get p = .error e) :
    (∃ obstacle q, e = .refused obstacle q) ∨ ∀ other : Files, other.get p = .error e := by
  cases hname : p.toLoose.nameFault? with
  | some fault =>
    have hget (other : Files) : other.get p = .error (.name fault) := by
      rw [get, locate, hname]
      rfl
    exact .inr fun other => (hget other).trans ((hget fs).symm.trans h)
  | none =>
    refine .inl ?_
    rw [get, locate, hname] at h
    dsimp only at h
    split at h
    · exact ⟨.nameTooLong, p, (Except.error.inj h).symm⟩
    · cases hwalk : fs.walk p (if p.anchor = .relative then cwd.parts else []) p.parts with
      | error e' =>
        rw [hwalk] at h
        obtain ⟨obstacle, rfl⟩ := exists_refused_of_walk hwalk
        exact ⟨obstacle, p, (Except.error.inj h).symm⟩
      | ok place =>
        rw [hwalk] at h
        dsimp only [bind, Except.bind] at h
        split at h
        · cases h
        · exact ⟨.notFound, p, (Except.error.inj h).symm⟩

/-- What is found behind a path that does not lead to the log stays there, and nothing new is. -/
theorem Logs.get_eq_ok_iff (h : fs.Logs log fs') (hlog : log ≠ some p.place) :
    fs'.get p = .ok node ↔ fs.get p = .ok node := by
  have hnode : fs'.node? p.place = fs.node? p.place :=
    (h.node p.place).eq_of_ne hlog
  constructor
  · intro hget
    obtain ⟨place, hlocate, hat⟩ := exists_locate_of_get hget
    obtain rfl := locate_eq_ok hlocate
    exact get_eq_ok (locate_of_directories (fun q => (h.node q).directory_iff.1) hlocate)
      (hnode ▸ hat)
  · intro hget
    obtain ⟨place, hlocate, hat⟩ := exists_locate_of_get hget
    obtain rfl := locate_eq_ok hlocate
    exact get_eq_ok (h.locate hlocate) (hnode.trans hat)

end Files

namespace Archive

variable {fs fs' : Files} {log : Option Place} {file : Path} {member : Option String}

/-- What is read depends on what stands where the path leads, and on nothing else. -/
theorem read_congr (h : fs'.get file = fs.get file) :
    read fs' file member = read fs file member := by
  cases member with
  | none => rw [read, readFile, Files.read, h, read, readFile, Files.read]
  | some member => rw [read, readMember, Files.openZip, h, read, readMember, Files.openZip]

/-- A file that the system refuses to open gives an error that is reported. -/
theorem exists_read_of_refused {obstacle : Obstacle} {q : Path}
    (h : fs.get file = .error (.refused obstacle q)) (member : Option String) :
    ∃ e, read fs file member = .error e ∧ e.isReported = true := by
  cases member with
  | none =>
    rw [read, readFile, Files.read, h]
    exact ⟨_, rfl, rfl⟩
  | some member =>
    rw [read, readMember, Files.openZip, h]
    exact ⟨_, rfl, rfl⟩

/-- Records of the log that do not go there change nothing of what can be read. -/
theorem read_of_logs (h : fs.Logs log fs') (hlog : log ≠ some file.place)
    (member : Option String) :
    read fs' file member = read fs file member ∨
      ∃ e e', read fs file member = .error e ∧ e.isReported = true ∧
        read fs' file member = .error e' ∧ e'.isReported = true := by
  cases hget : fs.get file with
  | ok node => exact .inl (read_congr (((h.get_eq_ok_iff hlog).2 hget).trans hget.symm))
  | error e =>
    cases hget' : fs'.get file with
    | ok node => cases hget.symm.trans ((h.get_eq_ok_iff hlog).1 hget')
    | error e' =>
      obtain ⟨obstacle, q, rfl⟩ | hfails := Files.get_eq_error hget
      · obtain ⟨obstacle', q', rfl⟩ | hfails' := Files.get_eq_error hget'
        · obtain ⟨e, hread, hreported⟩ := exists_read_of_refused hget member
          obtain ⟨e', hread', hreported'⟩ := exists_read_of_refused hget' member
          exact .inr ⟨e, e', hread, hreported, hread', hreported'⟩
        · exact .inl (read_congr ((hfails' fs').trans (hfails' fs).symm))
      · exact .inl (read_congr ((hfails fs').trans hget.symm))

end Archive

theorem Decompiler.render_eq_some_iff {d : Decompiler} {w : World} {name text : String} :
    (d.render w name).2 = .ok (some text) ↔ d.textOf w.files name = some (.ok text) := by
  unfold render
  split
  · next h => simp [h]
  · next t h => simp [h]
  · next e h => cases e.isReported <;> simp [h]

theorem Decompiler.render_of_breaks {d : Decompiler} {w : World} {name : String} {e : ArchiveError}
    (h : d.textOf w.files name = some (.error e)) (hunreported : e.isReported = false) :
    (d.render w name).2 = .error e := by
  simp [render, h, hunreported]

/-- What is answered of a class does not change by records of the log, unless they go to where its
text lies. -/
theorem Decompiler.render_of_logs {d : Decompiler} {w w' : World} {name : String} (h : w.Logs w')
    (hlog : ∀ l, d.locations.get? name = some l → w.logPlace ≠ some l.file.place) :
    (d.render w' name).2 = (d.render w name).2 := by
  unfold render textOf
  cases hlocation : d.locations.get? name with
  | none => rfl
  | some l =>
    obtain hread | ⟨e, e', hread, hreported, hread', hreported'⟩ :=
      Archive.read_of_logs h.files (hlog l hlocation) l.entry
    · rw [Option.map_some, Option.map_some, hread]
      cases Archive.read w.files l.file l.entry with
      | ok bytes => rfl
      | error e => cases hreported : e.isReported <;> simp [Except.map, hreported]
    · simp [hread, hread', hreported, hreported', Except.map]

namespace Decompiler

/-- What a decompiler is asked for. -/
inductive Step
  | addSource (archive : Path)
  | decompile
  | render (name : String)
  | close

/-- Whether what is known stays. -/
def Step.IsQuiet : Step → Prop
  | .addSource _ | .render _ => True
  | .decompile | .close => False

/-- A decompiler and its surroundings. -/
structure Bench where
  world : World
  decompiler : Decompiler

namespace Bench

/-- A decompiler that was not asked for anything yet. -/
def start (settings : Settings) (w : World) : Bench := ⟨w, .ofSettings settings⟩

/-- What a run comes to. -/
def outcome (b : Bench) : Except EngineError (List Act) := (b.decompiler.decompile b.world).2.2

/-- The answer if the text of a class is asked for. -/
def answer (b : Bench) (name : String) : Except ArchiveError (Option String) :=
  (b.decompiler.render b.world name).2

/-- What is left after a step; a run that ends well writes its records to the log. -/
def ask (b : Bench) : Step → Bench
  | .addSource archive => match b.decompiler.addSource b.world archive with
    | .ok d => { b with decompiler := d }
    | .error _ => b
  | .decompile =>
    let (w, d, outcome) := b.decompiler.decompile b.world
    ⟨match outcome with
      | .ok acts => w.noted acts
      | .error _ => w, d⟩
  | .render name => { b with world := (b.decompiler.render b.world name).1 }
  | .close =>
    let (w, d) := b.decompiler.close b.world
    ⟨w, d⟩

/-- What is left after several steps. -/
def after (b : Bench) (steps : List Step) : Bench := steps.foldl ask b

/-- Where nothing is to be run, nothing is known. -/
def IsSound (b : Bench) : Prop := b.decompiler.sources = [] → b.decompiler.locations = []

variable {b : Bench} {step : Step} {steps before behind : List Step} {name text : String}
  {w' : World} {d' : Decompiler} {acts : List Act} {e : EngineError} {settings : Settings}
  {w : World}

theorem after_append (b : Bench) (steps steps' : List Step) :
    b.after (steps ++ steps') = (b.after steps).after steps' := List.foldl_append

/-! ## Steps -/

theorem answer_of_not_mem (h : name ∉ b.decompiler.locations.keys) : b.answer name = .ok none := by
  unfold answer render
  rw [textOf_eq_none_iff.2 h]

theorem answer_of_locations (h : b.decompiler.locations = []) (name : String) :
    b.answer name = .ok none := by
  refine answer_of_not_mem ?_
  rw [h]
  exact List.not_mem_nil

/-- A run that fails leaves nothing known. -/
theorem locations_of_error (hsound : b.IsSound) (h : b.outcome = .error e) :
    (b.ask .decompile).decompiler.locations = [] := by
  show (b.decompiler.decompile b.world).2.1.locations = []
  by_cases hsources : b.decompiler.sources = []
  · rw [decompile_of_no_archive hsources]
    exact hsound hsources
  · obtain ⟨w', e', hrun⟩ | ⟨w', locations, acts, hrun⟩ := decompile_cases hsources b.world
    · rw [hrun]
      rfl
    · rw [outcome, hrun] at h
      cases h

theorem sources_decompile (d : Decompiler) (w : World) :
    (d.decompile w).2.1.sources = d.sources := by
  obtain ⟨running, locations, hkept⟩ := d.decompile_keeps w
  rw [hkept]

theorem IsSound.ask (h : b.IsSound) (step : Step) : (b.ask step).IsSound := by
  intro hnil
  cases step with
  | addSource archive =>
    rw [Bench.ask] at hnil ⊢
    split at hnil
    · next d hadd =>
      obtain ⟨source, rfl⟩ := addSource_eq_ok hadd
      exact absurd hnil (by simp)
    · next e hadd => exact h hnil
  | decompile =>
    have hsources : b.decompiler.sources = [] := (sources_decompile _ _).symm.trans hnil
    refine locations_of_error h (e := .noArchive) ?_
    rw [outcome, decompile_of_no_archive hsources]
  | render name => exact h hnil
  | close => rfl

theorem IsSound.after (h : b.IsSound) (steps : List Step) : (b.after steps).IsSound := by
  induction steps generalizing b with
  | nil => exact h
  | cons step rest ih => exact ih (h.ask step)

theorem isSound_start (settings : Settings) (w : World) : (start settings w).IsSound := fun _ => rfl

/-! ## Quiet steps -/

theorem logs_noted (w : World) (acts : List Act) : w.Logs (w.noted acts) := by
  induction acts generalizing w with
  | nil => exact .refl _
  | cons act rest ih =>
    cases act with
    | note record => exact (w.logs_note record).trans (ih _)
    | _ => exact ih w

/-- A quiet step keeps what is known, and changes nothing but the log in the files. -/
theorem ask_of_isQuiet (h : step.IsQuiet) (b : Bench) :
    (b.ask step).decompiler.locations = b.decompiler.locations ∧
      b.world.Logs (b.ask step).world := by
  cases step with
  | addSource archive =>
    rw [Bench.ask]
    split
    · next d hadd =>
      obtain ⟨source, rfl⟩ := addSource_eq_ok hadd
      exact ⟨rfl, .refl _⟩
    · exact ⟨rfl, .refl _⟩
  | decompile => exact absurd h id
  | render name => exact ⟨rfl, logs_render _ _ _⟩
  | close => exact absurd h id

theorem after_of_isQuiet (h : ∀ step ∈ steps, step.IsQuiet) (b : Bench) :
    (b.after steps).decompiler.locations = b.decompiler.locations ∧
      b.world.Logs (b.after steps).world := by
  induction steps generalizing b with
  | nil => exact ⟨rfl, .refl _⟩
  | cons step rest ih =>
    obtain ⟨hlocations, hlogs⟩ := ask_of_isQuiet (h step List.mem_cons_self) b
    obtain ⟨hrest, hlogs'⟩ := ih (fun s hs => h s (List.mem_cons_of_mem _ hs)) (b.ask step)
    exact ⟨hrest.trans hlocations, hlogs.trans hlogs'⟩

/-- Any steps end in quiet ones, and what stands before these is not quiet. -/
theorem quiet_or_split (steps : List Step) : (∀ step ∈ steps, step.IsQuiet) ∨
    ∃ before last behind, steps = before ++ last :: behind ∧ ¬ last.IsQuiet ∧
      ∀ step ∈ behind, step.IsQuiet := by
  induction steps with
  | nil => exact .inl nofun
  | cons step rest ih =>
    obtain hquiet | ⟨before, last, behind, rfl, hlast, hbehind⟩ := ih
    · by_cases hstep : step.IsQuiet
      · exact .inl (List.forall_mem_cons.2 ⟨hstep, hquiet⟩)
      · exact .inr ⟨[], step, rest, rfl, hstep, hquiet⟩
    · exact .inr ⟨step :: before, last, behind, rfl, hlast, hbehind⟩

/-! ## What is known -/

theorem ask_decompile_of_ok (h : b.decompiler.decompile b.world = (w', d', .ok acts)) :
    b.ask .decompile = ⟨w'.noted acts, d'⟩ := by
  rw [ask, h]

/-- As long as only quiet steps are made, the answer is the one right behind the run, unless records
of the log go to where the text lies. -/
theorem answer_of_run (hrun : b.decompiler.decompile b.world = (w', d', .ok acts))
    (hlog : ∀ l, d'.locations.get? name = some l → w'.logPlace ≠ some l.file.place)
    (hbehind : ∀ step ∈ behind, step.IsQuiet) :
    ((b.ask .decompile).after behind).answer name = (d'.render w' name).2 := by
  obtain ⟨hlocations, hlogs⟩ := after_of_isQuiet hbehind (b.ask .decompile)
  rw [ask_decompile_of_ok hrun] at hlocations hlogs ⊢
  have hkept (d : Decompiler) (w : World) (h : d.locations = d'.locations) :
      (d.render w name).2 = (d'.render w name).2 := by
    unfold render textOf
    rw [h]
  exact (hkept _ _ hlocations).trans (render_of_logs ((logs_noted w' acts).trans hlogs) hlog)

/-- Nothing is known right after a step that is not quiet, unless it was a run that ended well. -/
theorem locations_of_not_isQuiet (hsound : b.IsSound) (hstep : ¬ step.IsQuiet)
    (hfails : step = .decompile → ∃ e, b.outcome = .error e) :
    (b.ask step).decompiler.locations = [] := by
  cases step with
  | addSource => exact absurd trivial hstep
  | decompile =>
    obtain ⟨e, he⟩ := hfails rfl
    exact locations_of_error hsound he
  | render => exact absurd trivial hstep
  | close => rfl

/-- What a decompiler that was made from some settings knows after any steps. -/
structure Remembers (settings : Settings) (w : World) (steps : List Step) : Prop where
  /-- Anything is known only behind a run that has collected its classes, and only until the next
  run or closing. -/
  of_answer : ∀ name, ((start settings w).after steps).answer name ≠ .ok none →
    ∃ before behind, steps = before ++ .decompile :: behind ∧ (∀ step ∈ behind, step.IsQuiet) ∧
      ∃ acts, ((start settings w).after before).outcome = .ok acts
  /-- Until then, the texts are known that can be read where the run has collected them.  Those are
  the texts that it has reported, unless the report has broken off. -/
  of_run : ∀ before behind, steps = before ++ .decompile :: behind →
    (∀ step ∈ behind, step.IsQuiet) → ∀ w' d' acts,
      ((start settings w).after before).decompiler.decompile
        ((start settings w).after before).world = (w', d', .ok acts) →
      (∀ name, name ∉ d'.locations.keys →
        ((start settings w).after steps).answer name = .ok none) ∧
      ∀ name, (∀ l, d'.locations.get? name = some l → w'.logPlace ≠ some l.file.place) →
        ∀ text, (((start settings w).after steps).answer name = .ok (some text) ↔
            d'.textOf w'.files name = some (.ok text)) ∧
          (.unit name (some text) ∈ acts →
            ((start settings w).after steps).answer name = .ok (some text)) ∧
          ((∀ t, .throw t ∉ acts) →
            ((start settings w).after steps).answer name = .ok (some text) →
              .unit name (some text) ∈ acts)
  /-- A run that has thrown behind its classes were collected has broken off at one of them, and
  asking for that one throws the same again. -/
  of_break : ∀ before behind, steps = before ++ .decompile :: behind →
    (∀ step ∈ behind, step.IsQuiet) → ∀ w' d' acts,
      ((start settings w).after before).decompiler.decompile
        ((start settings w).after before).world = (w', d', .ok acts) →
      ∀ t, .throw t ∈ acts → ∃ name ∈ d'.locations.keys, ∃ e, t = .engine (.archive e) ∧
        ((∀ l, d'.locations.get? name = some l → w'.logPlace ≠ some l.file.place) →
          ((start settings w).after steps).answer name = .error e)
  /-- Behind a run that has failed before its classes were collected, and behind closing, nothing is
  known. -/
  of_failure : ∀ before last behind, steps = before ++ last :: behind →
    (∀ step ∈ behind, step.IsQuiet) → last = .close ∨ last = .decompile ∧
      (∃ e, ((start settings w).after before).outcome = .error e) →
    ∀ name, ((start settings w).after steps).answer name = .ok none
  /-- An archive that is not accepted changes nothing. -/
  of_refusal : ∀ archive e, ((start settings w).after steps).decompiler.addSource
      ((start settings w).after steps).world archive = .error e →
    (start settings w).after (steps ++ [.addSource archive]) = (start settings w).after steps

theorem after_split (b : Bench) (before : List Step) (last : Step) (behind : List Step) :
    b.after (before ++ last :: behind) = ((b.after before).ask last).after behind :=
  after_append b before (last :: behind)

theorem answer_of_failure (hsound : b.IsSound) (hstep : ¬ step.IsQuiet)
    (hfails : step = .decompile → ∃ e, b.outcome = .error e)
    (hbehind : ∀ step ∈ behind, step.IsQuiet) (name : String) :
    ((b.ask step).after behind).answer name = .ok none := by
  refine answer_of_locations ?_ name
  rw [(after_of_isQuiet hbehind _).1]
  exact locations_of_not_isQuiet hsound hstep hfails

theorem remembers (settings : Settings) (w : World) (steps : List Step) :
    Remembers settings w steps := by
  have hsound (before : List Step) : ((start settings w).after before).IsSound :=
    (isSound_start settings w).after before
  refine ⟨?of_answer, ?of_run, ?of_break, ?of_failure, ?of_refusal⟩
  case of_answer =>
    intro name hanswer
    obtain hquiet | ⟨before, last, behind, rfl, hlast, hbehind⟩ := quiet_or_split steps
    · have hnone : ((start settings w).after steps).answer name = .ok none :=
        answer_of_locations (after_of_isQuiet hquiet _).1 name
      exact absurd hnone hanswer
    · have hrun : ¬ (last = .decompile → ∃ e, ((start settings w).after before).outcome =
          .error e) := by
        intro hfails
        rw [after_split, answer_of_failure (hsound before) hlast hfails hbehind] at hanswer
        exact hanswer rfl
      obtain ⟨rfl, hok⟩ := Classical.not_imp.1 hrun
      refine ⟨before, behind, rfl, hbehind, ?_⟩
      cases houtcome : ((start settings w).after before).outcome with
      | ok acts => exact ⟨acts, rfl⟩
      | error e => exact absurd ⟨e, houtcome⟩ hok
  case of_run =>
    rintro before behind rfl hbehind w' d' acts hrun
    rw [after_split]
    refine ⟨fun name hname => ?_, fun name hlog text => ?_⟩
    · refine answer_of_not_mem ?_
      rw [(after_of_isQuiet hbehind _).1, ask_decompile_of_ok hrun]
      exact hname
    · obtain ⟨-, -, -, -, -, rfl⟩ := exists_of_decompile hrun
      rw [answer_of_run hrun hlog hbehind, render_eq_some_iff]
      refine ⟨Iff.rfl, fun hunit => ?_, fun hcalm htext => ?_⟩
      · obtain ⟨t, ht, htext⟩ := textOf_of_mem_reports hunit
        obtain rfl := Option.some.inj ht
        exact htext
      · have hwhole : ∀ n ∈ d'.locations.keys, ¬ d'.Breaks w'.files n := fun n _ hn =>
          (exists_throw_mem_reports_iff.2 ⟨n, hn⟩).elim hcalm
        exact (mem_reports_iff hwhole).2 ⟨text, rfl, htext⟩
  case of_break =>
    rintro before behind rfl hbehind w' d' acts hrun t ht
    obtain ⟨-, -, -, -, -, rfl⟩ := exists_of_decompile hrun
    obtain ⟨name, e, htext, hunreported, rfl⟩ := exists_of_throw_mem_reports ht
    refine ⟨name, Breaks.mem_keys ⟨e, htext, hunreported⟩, e, rfl, fun hlog => ?_⟩
    rw [after_split, answer_of_run hrun hlog hbehind]
    exact render_of_breaks htext hunreported
  case of_failure =>
    rintro before last behind rfl hbehind hlast name
    rw [after_split]
    refine answer_of_failure (hsound before) ?_ ?_ hbehind name
    · obtain rfl | ⟨rfl, -⟩ := hlast <;> exact id
    · rintro rfl
      obtain h | ⟨-, hfails⟩ := hlast
      · cases h
      · exact hfails
  case of_refusal =>
    intro archive e hadd
    rw [after_append]
    show Bench.ask _ (.addSource archive) = _
    rw [ask, hadd]

namespace Sample

def archive : Path := ⟨.relative, ["a.jar"]⟩

/-- Surroundings with an archive and a decompiler that leaves another one. -/
def world (left : Entries) : World :=
  .start ⟨[([], .directory), (["W"], .directory), (["W", "a.jar"], .file (.zip []) false),
    (["W", "engine.jar"], .file (.bytes .empty) false),
    (["W", "java"], .program [⟨.empty, .empty, 0, [⟨["a.jar"], some (.zip left)⟩], false⟩] 0)],
    .roomy⟩ {}

def tools : Settings :=
  { Settings.default with
    engineJar := some (.value ⟨.relative, ["engine.jar"]⟩)
    java := some (.value ⟨.relative, ["java"]⟩) }

/-- The decompiler before its run. -/
def ready (left : Entries) : Bench := (start tools (world left)).after [.addSource archive]

/-- What the run comes to. -/
def result (left : Entries) : World × Decompiler × Except EngineError (List Act) :=
  (ready left).decompiler.decompile (ready left).world

theorem decompile_ready (left : Entries) (acts : List Act)
    (h : (result left).2.2.toOption = some acts) :
    (ready left).decompiler.decompile (ready left).world =
      ((result left).1, (result left).2.1, .ok acts) :=
  Prod.ext rfl (Prod.ext rfl (eq_ok_of_toOption h))

/-- Two entries of one name. -/
def twice : Entries := .sound [("X.java", "x".toUTF8), ("X.java", "y".toUTF8)]

/-- The fault of an entry that is encrypted. -/
def encrypted : ZipFault :=
  .other "RuntimeError" "File 'B.java' is encrypted, password required for extraction"

/-- An entry that can be read, and one that is encrypted. -/
def locked : Entries := [("A.java", .ok "a".toUTF8), ("B.java", .error encrypted)]

end Sample

/-- The text that was reported is answered, that of the last entry; no other class is known, and
after closing none. -/
theorem remembers_two_texts :
    ((Sample.ready Sample.twice).after [.decompile, .render "X"]).answer "X" = .ok (some "y") ∧
    ((Sample.ready Sample.twice).after [.decompile, .render "X"]).answer "Y" = .ok none ∧
    ((Sample.ready Sample.twice).after [.decompile, .render "X", .close]).answer "X" =
      .ok none := by
  have hrun := Sample.decompile_ready Sample.twice [.total 1, .unit "X" (some "y")]
    (by decide +kernel)
  obtain ⟨hnone, hsome⟩ := (remembers Sample.tools (Sample.world Sample.twice)
    [.addSource Sample.archive, .decompile, .render "X"]).of_run [.addSource Sample.archive]
    [.render "X"] rfl (by simp [Step.IsQuiet]) _ _ _ hrun
  have hlog : (Sample.result Sample.twice).1.logPlace = none := by decide +kernel
  have hkeys : (Sample.result Sample.twice).2.1.locations.keys = ["X"] := by decide +kernel
  refine ⟨(hsome "X" ?_ "y").2.1 (by simp), hnone "Y" ?_, ?_⟩
  · rw [hlog]
    nofun
  · rw [hkeys]
    decide
  · exact (remembers Sample.tools (Sample.world Sample.twice)
      [.addSource Sample.archive, .decompile, .render "X", .close]).of_failure
      [.addSource Sample.archive, .decompile, .render "X"] .close [] rfl nofun (.inl rfl) "X"

/-- A run that fails at an entry which cannot be read has reported a class before, and it still
answers with the text of that class. -/
theorem exists_text_after_failure : ∃ (settings : Settings) (w : World) (steps : List Step)
    (acts : List Act) (t : Thrown),
    ((start settings w).after steps).outcome = .ok (acts ++ [.throw t]) ∧
      .unit "A" (some "a") ∈ acts ∧
      ((start settings w).after (steps ++ [.decompile])).answer "A" = .ok (some "a") := by
  have hrun : (Sample.ready Sample.locked).outcome = .ok ([.total 2, .unit "A" (some "a")] ++
      [.throw (.engine (.archive (.zip Sample.encrypted)))]) :=
    eq_ok_of_toOption (by decide +kernel)
  exact ⟨Sample.tools, Sample.world Sample.locked, [.addSource Sample.archive], _, _, hrun, by simp,
    eq_ok_of_toOption (by decide +kernel)⟩

end Bench

end Decompiler

end ClassBrowser
