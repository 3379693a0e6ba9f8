import ClassBrowser.CommandLine.Commands
import ClassBrowser.Proofs.Task.Outcomes

/-!
# Commands and their tasks

A command that runs a task goes on when the task has come to its end (`runTask_eq`): with what that
has left of the workspace after a success, and with the reason on its last line after a failure.  So
the two parts of a command, in which it decompiles and exports, are told by how their tasks end.
-/

namespace ClassBrowser

variable {s s₁ : Session} {kind : TaskKind} {target : Path} {quiet : Bool}

/-- The session when a task to decompile an archive was started. -/
def Session.opened (s : Session) (archive : Path) : Session :=
  { s with
    pipeline :=
      ⟨s.pipeline.workspace.withWorld (s.world.note ⟨.info, .session, s!"Opening {archive}"⟩),
        ⟨s.pipeline.tasks.length, .decompileArchive, archive, [], none, .ready⟩ ::
          s.pipeline.tasks⟩
    archive := some archive
    tree := .empty }

/-- The session when an export was started. -/
def Session.exporting (s : Session) (kind : TaskKind) (target : Path) : Session :=
  { s with pipeline := { s.pipeline with
      tasks := ⟨s.pipeline.tasks.length, kind, target, [], none, .ready⟩ :: s.pipeline.tasks } }

theorem Session.start_decompile (h : s.isBusy = false) (archive : Path) :
    s.start .decompileArchive archive = .ok (s.opened archive) := by
  show s.openArchive archive = _
  rw [Session.openArchive, Pipeline.start_of_idle h]
  rfl

theorem Session.start_export (hkind : kind ≠ .decompileArchive) (h : s.isBusy = false)
    (target : Path) : s.start kind target = .ok (s.exporting kind target) := by
  have hstart : s.start kind target = (do
      let pipeline ← s.pipeline.start kind target
      return { s with pipeline } : Except RequestError Session) := by
    cases kind with
    | decompileArchive => exact absurd rfl hkind
    | exportDirectory => rfl
    | exportArchive => rfl
  rw [hstart, Pipeline.start_of_idle h]
  rfl

namespace CommandLine

/-- The session that a command loads. -/
def loaded (settings : Settings) (engine : Option Factory) (w : World) : Session :=
  .new settings (some (engine.getD (.decompiler settings))) w

/-- Whether all of some pieces of output are progress reports. -/
def AreProgress (printed : List Printed) : Prop := ∀ p ∈ printed, p.isProgress = true

theorem areProgress_shownProgress (quiet : Bool) (messages : List Message) :
    AreProgress (shownProgress quiet messages) := by
  intro p hp
  obtain ⟨m, -, hm⟩ := List.mem_filterMap.1 hp
  cases m with
  | finished => cases hm
  | progress report =>
    dsimp only at hm
    split at hm
    · cases hm
    · obtain rfl := Option.some.inj hm
      rfl

theorem shownProgress_of_quiet (messages : List Message) : shownProgress true messages = [] := by
  refine List.filterMap_eq_nil_iff.2 fun m _ => ?_
  cases m <;> rfl

variable {workspace : Workspace} {outcome : Outcome}

/-- A command goes on when the task that it has started comes to its end. -/
theorem runTask_eq (hstart : s.start kind target = .ok s₁) {number : Nat} {earlier : List Task}
    (htasks : s₁.pipeline.tasks = ⟨number, kind, target, [], none, .ready⟩ :: earlier)
    (hends : TaskEnds kind target s₁.pipeline.workspace workspace outcome) :
    ∃ (p : Pipeline) (progress : List Printed), p.workspace = workspace ∧ p.isBusy = false ∧
      AreProgress progress ∧ (quiet = true → progress = []) ∧
      (∀ next reason, outcome = .failure reason → runTask s kind target quiet next =
        .ended (progress ++ [complaint reason]) (.exit 1) workspace.world) ∧
      ∀ next result, outcome = .success result → runTask s kind target quiet next =
        .after progress (next { s₁ with pipeline := p } result) := by
  obtain ⟨sent, hcompletes, hreport⟩ := hends
  have hfinish : s₁.pipeline.finish =
      ⟨workspace, ⟨number, kind, target, sent, none, .finished⟩ :: earlier⟩ := by
    have hpipeline : s₁.pipeline = ⟨s₁.pipeline.workspace,
        ⟨number, kind, target, [], none, .ready⟩ :: earlier⟩ := by
      rw [← htasks]
    rw [hpipeline]
    exact Pipeline.finish_eq hcompletes
  obtain ⟨p, hworkspace, hidle, hreceive⟩ := @Pipeline.receiveLatest_eq outcome workspace
    ⟨number, kind, target, sent, none, .finished⟩ earlier hreport rfl rfl
  unfold runTask
  simp only [hstart, hfinish, hreceive, Pipeline.findSome?_outcome? hreport]
  subst hworkspace
  refine ⟨p, shownProgress quiet sent, rfl, hidle, areProgress_shownProgress quiet sent, ?_, ?_,
    ?_⟩
  · rintro rfl
    exact shownProgress_of_quiet sent
  · rintro next reason rfl
    rfl
  · rintro next result rfl
    rfl

/-! ## The parts of a command -/

section

variable {choice : EngineChoice} {settings : Settings} {engine : Option Factory} {w : World}
  {archive path : Path} {destination : Target} {reason : String} {next : Session → Report}

theorem perform_decompile_eq (hsettings : choice.settings w = .ok settings) :
    (Command.decompile choice archive destination quiet).perform engine w =
      decompileAll (loaded settings engine w) archive destination quiet := by
  rw [Command.perform, withSession, hsettings]
  rfl

theorem decompileFirst_of_failure (hidle : s.isBusy = false)
    (hends : TaskEnds .decompileArchive archive (s.opened archive).pipeline.workspace workspace
      (.failure reason)) :
    ∃ progress, decompileFirst s archive quiet next =
      .ended (progress ++ [complaint reason]) (.exit 1) workspace.world := by
  obtain ⟨p, progress, -, -, -, -, hfailure, -⟩ :=
    runTask_eq (Session.start_decompile hidle archive) rfl hends
  exact ⟨progress, hfailure _ reason rfl⟩

theorem decompileFirst_of_success {tree : Package} {count : Nat} (hidle : s.isBusy = false)
    (hends : TaskEnds .decompileArchive archive (s.opened archive).pipeline.workspace workspace
      (.success (some (.decompiled archive tree count)))) :
    ∃ s' progress, s'.pipeline.workspace = workspace ∧ s'.isBusy = false ∧ AreProgress progress ∧
      decompileFirst s archive quiet next = .after progress (next s') := by
  obtain ⟨p, progress, hworkspace, hfree, hprogress, -, -, hsuccess⟩ :=
    runTask_eq (Session.start_decompile hidle archive) rfl hends
  exact ⟨{ s.opened archive with pipeline := p, tree }, progress, hworkspace, hfree, hprogress,
    hsuccess _ _ rfl⟩

/-- A quiet command prints nothing of a task that succeeds, and goes on with what that yields. -/
theorem decompileFirst_quiet_of_success {tree : Package} {count : Nat} (hidle : s.isBusy = false)
    (hends : TaskEnds .decompileArchive archive (s.opened archive).pipeline.workspace workspace
      (.success (some (.decompiled archive tree count)))) :
    ∃ s' : Session, s'.pipeline.workspace = workspace ∧ s'.settings = s.settings ∧ s'.tree = tree ∧
      ∀ next, decompileFirst s archive true next = next s' := by
  obtain ⟨p, progress, hworkspace, -, -, hquiet, -, hsuccess⟩ :=
    runTask_eq (Session.start_decompile hidle archive) rfl hends
  obtain rfl := hquiet rfl
  exact ⟨{ s.opened archive with pipeline := p, tree }, hworkspace, rfl, rfl,
    fun _ => hsuccess _ _ rfl⟩

/-- Whether a quiet command has decompiled an archive and goes on with a session: whatever it does
next, it does there. -/
def ComesTo (choice : EngineChoice) (engine : Option Factory) (archive : Path) (w : World)
    (s : Session) : Prop :=
  ∀ next, withSession choice engine w (fun s => decompileFirst s archive true next) = next s

/-- A quiet task leads to a session with a result, or ends the command whatever was to come next. -/
theorem runTask_quiet_cases (s : Session) (kind : TaskKind) (target : Path) :
    (∃ s₁ result, ∀ next, runTask s kind target true next = next s₁ result) ∨
      ∃ report, ∀ next, runTask s kind target true next = report := by
  unfold runTask
  cases s.start kind target with
  | error e => exact .inr ⟨_, fun _ => rfl⟩
  | ok s₁ =>
    dsimp only
    simp only [shownProgress_of_quiet]
    split
    · exact .inr ⟨_, fun _ => rfl⟩
    · exact .inr ⟨_, fun _ => rfl⟩
    · exact .inl ⟨_, _, fun _ => rfl⟩

/-- A command either comes to a session, or does not depend on what was to come next. -/
theorem comesTo_cases (choice : EngineChoice) (engine : Option Factory) (archive : Path)
    (w : World) : (∃ s, ComesTo choice engine archive w s) ∨
      ∃ report, ∀ next,
        withSession choice engine w (fun s => decompileFirst s archive true next) = report := by
  unfold ComesTo withSession
  cases choice.settings w with
  | error e => exact .inr ⟨_, fun _ => rfl⟩
  | ok settings =>
    obtain ⟨s₁, result, hgoes⟩ | ⟨report, hends⟩ := runTask_quiet_cases
      (loaded settings engine w) .decompileArchive archive
    · exact .inl ⟨_, fun _ => hgoes _⟩
    · exact .inr ⟨report, fun _ => hends _⟩

theorem taskKind_ne (destination : Target) : destination.taskKind ≠ .decompileArchive := by
  cases destination <;> nofun

/-- What a command prints of an export: the reason of its failure, or what was saved. -/
theorem exportAll_eq (hidle : s.isBusy = false) (hpath : destination.path = .value path)
    (hends : TaskEnds destination.taskKind path s.pipeline.workspace workspace outcome) :
    ∃ progress, AreProgress progress ∧
      (∀ reason, outcome = .failure reason → exportAll s destination quiet =
        .ended (progress ++ [complaint reason]) (.exit 1) workspace.world) ∧
      ∀ summary, outcome = .success (some (.exported summary)) → exportAll s destination quiet =
        .ended (progress ++ exportLines path summary) .normal workspace.world := by
  unfold exportAll
  rw [hpath]
  dsimp only [Given.get]
  obtain ⟨p, progress, hworkspace, -, hprogress, -, hfailure, hsuccess⟩ :=
    runTask_eq (Session.start_export (taskKind_ne destination) hidle path) rfl hends
  refine ⟨progress, hprogress, hfailure _, fun summary hsummary => ?_⟩
  rw [hsuccess _ _ hsummary, ← hworkspace]
  rfl

end

/-! ## Where samples come from and go -/

namespace Sample

def input : Path := ⟨.relative, ["app.jar"]⟩

def output : Path := ⟨.relative, ["out.zip"]⟩

end Sample

end CommandLine

end ClassBrowser
