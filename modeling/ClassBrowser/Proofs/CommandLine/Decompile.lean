import ClassBrowser.Proofs.CommandLine.Tasks
import ClassBrowser.Proofs.Except
import ClassBrowser.Proofs.Task.DecompileEnds
import ClassBrowser.Proofs.Task.EngineRuns
import ClassBrowser.Proofs.Task.ExportEnds
import ClassBrowser.Proofs.Task.Exporting

/-!
# The command `decompile` as a whole

The command runs two tasks, one after the other, and can end in three ways (`DecompileEnd`): either
task fails, and its reason is the last line, or both succeed.  The workspace of the first task is
handed over to the second, so that the numbers which the command prints are those of one and the
same store (`perform_decompile_ends`).
-/

namespace ClassBrowser.CommandLine

/-- The workspace when the first task of a command begins. -/
def beginning (settings : Settings) (engine : Option Factory) (archive : Path) (w : World) :
    Workspace :=
  ((loaded settings engine w).opened archive).pipeline.workspace

/-- What a run of `decompile` prints, progress apart, that has decompiled so many classes, and saved
some of them and skipped some. -/
def account (archive path : Path) (count saved skipped : Nat) : List Printed :=
  .line s!"Decompiled {count} classes from {archive.name}" ::
    .line s!"Saved {saved} classes to {path}" ::
      if skipped = 0 then [] else [.line s!"[INFO] Skipped {skipped} classes without content"]

/-- Whether a run of `decompile` tells right numbers: of the classes that the engine has reported,
and of those that were saved and skipped.  A zip archive has an entry for each class saved. -/
structure TellsNumbers (archive : Path) (target : Target) (path : Path) (start : Workspace)
    (report : Report) (count saved skipped : Nat) : Prop where
  printed : report.printed.filter (fun p => !p.isProgress) =
    account archive path count saved skipped
  reported : ∃ reported, Reports .decompileArchive archive start .ready reported ∧
    (reported.map Prod.fst).eraseDups.length = count
  total : saved + skipped = count
  entries : target = .zip (.value path) → ∃ entries executable,
    report.world.files.get path = .ok (.file (.archive entries) executable) ∧ entries.length = saved

/-- Whether the tasks of `decompile` both succeed. -/
def BothSucceed (archive : Path) (target : Target) (path : Path) (start : Workspace) : Prop :=
  ∃ s₁ s₂ result₁ result₂, TaskEnds .decompileArchive archive start s₁ (.success result₁) ∧
    TaskEnds target.taskKind path s₁ s₂ (.success result₂)

/-- Whether a task of `decompile` fails with a reason. -/
inductive FailsWith (archive : Path) (target : Target) (path : Path) (start : Workspace)
    (reason : String) : Prop
  | decompiling {s₁ : Workspace}
      (hends : TaskEnds .decompileArchive archive start s₁ (.failure reason))
  | saving {s₁ s₂ : Workspace} {result : Option TaskResult}
      (hends₁ : TaskEnds .decompileArchive archive start s₁ (.success result))
      (hends₂ : TaskEnds target.taskKind path s₁ s₂ (.failure reason))

/-- The ways in which `decompile` can end. -/
inductive DecompileEnd (archive : Path) (target : Target) (path : Path) (start : Workspace)
    (report : Report) : Prop
  | stopped {s₁ : Workspace} {reason : String} {progress : List Printed}
      (hends : TaskEnds .decompileArchive archive start s₁ (.failure reason))
      (hreport : report = .ended (progress ++ [complaint reason]) (.exit 1) s₁.world)
  | unsaved {s₁ s₂ : Workspace} {result : Option TaskResult} {reason : String}
      {printed : List Printed}
      (hends₁ : TaskEnds .decompileArchive archive start s₁ (.success result))
      (hends₂ : TaskEnds target.taskKind path s₁ s₂ (.failure reason))
      (hreport : report = .ended (printed ++ [complaint reason]) (.exit 1) s₂.world)
  | saved {s₁ s₂ : Workspace} {result : Option TaskResult} {summary : Summary}
      {decompiling saving : List Printed}
      (hends₁ : TaskEnds .decompileArchive archive start s₁ (.success result))
      (hends₂ : TaskEnds target.taskKind path s₁ s₂ (.success (some (.exported summary))))
      (hdecompiling : AreProgress decompiling) (hsaving : AreProgress saving)
      (hreport : report = .ended (decompiling ++
        (.line s!"Decompiled {s₁.store.size} classes from {archive.name}" ::
          (saving ++ exportLines path summary))) .normal s₂.world)

variable {choice : EngineChoice} {settings : Settings} {engine : Option Factory} {w : World}
  {archive path : Path} {target : Target} {quiet : Bool} {start workspace : Workspace}
  {reason : String} {report : Report}

/-! ## The course of the command -/

theorem spares_beginning (hspares : (engine.getD (.decompiler settings)).Spares) :
    (beginning settings engine archive w).Spares where
  engine := nofun
  factory f hf := by
    obtain rfl := Option.some.inj hf
    exact hspares

theorem logs_beginning : w.Logs (beginning settings engine archive w).world := w.logs_note _

/-- The command ends in one of three ways, whatever its engine does. -/
theorem decompileEnd_perform (hsettings : choice.settings w = .ok settings)
    (htarget : target.path = .value path)
    (hspares : (engine.getD (.decompiler settings)).Spares) :
    DecompileEnd archive target path (beginning settings engine archive w)
      ((Command.decompile choice archive target quiet).perform engine w) := by
  rw [perform_decompile_eq hsettings, decompileAll]
  obtain ⟨s₁, o₁, hends₁⟩ :=
    exists_taskEnds (spares_beginning hspares) .decompileArchive archive
  rcases hends₁.decompiled rfl (logs_beginning (w := w)) with ⟨reason, rfl, -⟩ | ⟨tree, rfl, -⟩
  · obtain ⟨progress, hfirst⟩ := decompileFirst_of_failure rfl hends₁
    exact .stopped hends₁ hfirst
  · obtain ⟨s, decompiling, rfl, hidle, hdecompiling, hfirst⟩ :=
      decompileFirst_of_success rfl hends₁
    obtain ⟨s₂, o₂, hends₂⟩ :=
      exists_taskEnds (hends₁.spares (spares_beginning hspares)) target.taskKind path
    obtain ⟨saving, hsaving, hfailure, hsuccess⟩ := exportAll_eq hidle htarget hends₂
    rw [hfirst]
    rcases hends₂.exported (taskKind_ne target) with ⟨reason, rfl⟩ | ⟨summary, rfl, -⟩
    · rw [hfailure reason rfl]
      refine @DecompileEnd.unsaved archive target path _ _ s.pipeline.workspace s₂ _ reason
        (decompiling ++ .line s!"Decompiled {s.store.size} classes from {archive.name}" :: saving)
        hends₁ hends₂ ?_
      rw [List.append_assoc]
      rfl
    · rw [hsuccess summary rfl]
      exact .saved hends₁ hends₂ hdecompiling hsaving rfl

/-! ## What it prints -/

/-- A complaint is the end of the output. -/
theorem output_complaint (printed : List Printed) (reason : String) (ending : Ending) (w : World) :
    (Report.ended (printed ++ [complaint reason]) ending w).output =
      String.join (printed.map Printed.text) ++ "[ERROR] " ++ reason ++ "\n" := by
  have hlast : String.join [(complaint reason).text] = "[ERROR] " ++ reason ++ "\n" := by
    rw [String.join_cons]
    exact String.append_empty
  calc
    (Report.ended (printed ++ [complaint reason]) ending w).output =
        String.join (printed.map Printed.text ++ [(complaint reason).text]) :=
      congrArg String.join (List.map_append ..)
    _ = String.join (printed.map Printed.text) ++ ("[ERROR] " ++ reason ++ "\n") := by
      rw [String.join_append, hlast]
    _ = String.join (printed.map Printed.text) ++ "[ERROR] " ++ reason ++ "\n" := by
      rw [String.append_assoc, String.append_assoc, String.append_assoc]

theorem exportLines_eq (archive path : Path) (count : Nat) (summary : Summary) :
    .line s!"Decompiled {count} classes from {archive.name}" :: exportLines path summary =
      account archive path count summary.written.length summary.skipped.length := by
  unfold exportLines account
  cases summary.skipped <;> rfl

theorem filter_of_areProgress {printed : List Printed} (h : AreProgress printed) :
    printed.filter (fun p => !p.isProgress) = [] := by
  refine List.filter_eq_nil_iff.2 fun p hp => ?_
  rw [h p hp]
  exact Bool.false_ne_true

theorem filter_account (archive path : Path) (count saved skipped : Nat) :
    (account archive path count saved skipped).filter (fun p => !p.isProgress) =
      account archive path count saved skipped := by
  unfold account
  split <;> rfl

/-- What a command prints that has saved all classes is, progress apart, its account. -/
theorem filter_saved {decompiling saving : List Printed} (hdecompiling : AreProgress decompiling)
    (hsaving : AreProgress saving) (archive path : Path) (count : Nat) (summary : Summary) :
    (decompiling ++ (.line s!"Decompiled {count} classes from {archive.name}" ::
      (saving ++ exportLines path summary))).filter (fun p => !p.isProgress) =
        account archive path count summary.written.length summary.skipped.length := by
  calc
    (decompiling ++ (.line s!"Decompiled {count} classes from {archive.name}" ::
        (saving ++ exportLines path summary))).filter (fun p => !p.isProgress) =
        .line s!"Decompiled {count} classes from {archive.name}" ::
          (exportLines path summary).filter (fun p => !p.isProgress) := by
      rw [List.filter_append, filter_of_areProgress hdecompiling, List.nil_append,
        List.filter_cons_of_pos rfl, List.filter_append, filter_of_areProgress hsaving,
        List.nil_append]
    _ = (account archive path count summary.written.length summary.skipped.length).filter
          (fun p => !p.isProgress) := by
      rw [← exportLines_eq, List.filter_cons_of_pos rfl]
    _ = account archive path count summary.written.length summary.skipped.length :=
      filter_account ..

/-! ## Its end -/

namespace DecompileEnd

/-- The command ends normally if and only if both tasks succeed. -/
theorem normal_iff (h : DecompileEnd archive target path start report) :
    report.ending = .normal ↔ BothSucceed archive target path start := by
  cases h with
  | stopped hends hreport =>
    subst hreport
    refine ⟨nofun, ?_⟩
    rintro ⟨s₁, s₂, result₁, result₂, hends₁, -⟩
    exact nomatch (hends.unique hends₁).2
  | unsaved hends₁ hends₂ hreport =>
    subst hreport
    refine ⟨nofun, ?_⟩
    rintro ⟨s₁, s₂, result₁, result₂, hfirst, hsecond⟩
    obtain ⟨rfl, -⟩ := hends₁.unique hfirst
    exact nomatch (hends₂.unique hsecond).2
  | saved hends₁ hends₂ _ _ hreport =>
    subst hreport
    exact ⟨fun _ => ⟨_, _, _, _, hends₁, hends₂⟩, fun _ => rfl⟩

/-- Otherwise it ends with the reason of the task that has failed. -/
theorem complains (h : DecompileEnd archive target path start report)
    (hending : report.ending ≠ .normal) : report.ending = .exit 1 ∧ ∃ before reason,
      FailsWith archive target path start reason ∧
        report.output = before ++ "[ERROR] " ++ reason ++ "\n" := by
  cases h with
  | stopped hends hreport =>
    subst hreport
    exact ⟨rfl, _, _, .decompiling hends, output_complaint _ _ _ _⟩
  | unsaved hends₁ hends₂ hreport =>
    subst hreport
    exact ⟨rfl, _, _, .saving hends₁ hends₂, output_complaint _ _ _ _⟩
  | saved hends₁ hends₂ _ _ hreport =>
    subst hreport
    exact absurd rfl hending

/-- Where the first task fails, no file is made or changed. -/
theorem untouched (h : DecompileEnd archive target path start report)
    (hengine : start.engine = none) (hlogs : w.Logs start.world)
    (hfails : TaskEnds .decompileArchive archive start workspace (.failure reason)) :
    w.Untouched report.world := by
  have hstopped : w.Untouched workspace.world := by
    rcases hfails.decompiled hengine hlogs with ⟨_, -, huntouched⟩ | ⟨tree, hsuccess, -⟩
    · exact huntouched
    · cases hsuccess
  cases h with
  | stopped hends hreport =>
    obtain ⟨rfl, -⟩ := hends.unique hfails
    subst hreport
    exact hstopped
  | unsaved hends₁ _ _ => exact nomatch (hends₁.unique hfails).2
  | saved hends₁ _ _ _ _ => exact nomatch (hends₁.unique hfails).2

/-- Where both succeed, the numbers are right. -/
theorem tellsNumbers (h : DecompileEnd archive target path start report)
    (hfactory : start.factory ≠ none) (hending : report.ending = .normal) :
    ∃ count saved skipped, TellsNumbers archive target path start report count saved skipped := by
  cases h with
  | stopped _ hreport =>
    subst hreport
    cases hending
  | unsaved _ _ hreport =>
    subst hreport
    cases hending
  | @saved s₁ s₂ _ summary _ _ hends₁ hends₂ hdecompiling hsaving hreport =>
    subst hreport
    have haccounts : summary.Accounts target.taskKind path s₁.store.size s₂.world.files := by
      rcases hends₂.exported (taskKind_ne target) with ⟨_, hfailure⟩ | ⟨_, hsuccess, haccounts⟩
      · cases hfailure
      · cases hsuccess
        exact haccounts
    obtain ⟨reported, hreports⟩ := exists_reports .decompileArchive archive start .ready
    refine ⟨s₁.store.size, summary.written.length, summary.skipped.length,
      filter_saved hdecompiling hsaving archive path _ summary,
      ⟨reported, hreports, (hends₁.size_eq hfactory hreports).symm⟩, haccounts.total, ?_⟩
    rintro rfl
    exact haccounts.archive rfl

end DecompileEnd

/-- `decompile` as a whole, whatever its engine does, as long as that throws nothing but exceptions.
It ends normally if and only if both tasks succeed; otherwise it exits with 1, and the reason of the
task that has failed is the end of its output.  If it is the first task that fails, no file is made
or changed, at the target or elsewhere, but for the log.  If both succeed, the numbers that it
prints are right. -/
theorem perform_decompile_ends (quiet : Bool) (hsettings : choice.settings w = .ok settings)
    (htarget : target.path = .value path)
    (hspares : (engine.getD (.decompiler settings)).Spares) :
    let start := beginning settings engine archive w
    let report := (Command.decompile choice archive target quiet).perform engine w
    (report.ending = .normal ↔ BothSucceed archive target path start) ∧
    (report.ending ≠ .normal → report.ending = .exit 1 ∧ ∃ before reason,
      FailsWith archive target path start reason ∧
        report.output = before ++ "[ERROR] " ++ reason ++ "\n") ∧
    (∀ s₁ reason, TaskEnds .decompileArchive archive start s₁ (.failure reason) →
      w.Untouched report.world) ∧
    (report.ending = .normal → ∃ count saved skipped,
      TellsNumbers archive target path start report count saved skipped) := by
  intro start report
  have hend : DecompileEnd archive target path start report :=
    decompileEnd_perform hsettings htarget hspares
  exact ⟨hend.normal_iff, hend.complains, fun _ _ => hend.untouched rfl logs_beginning,
    hend.tellsNumbers (Option.some_ne_none _)⟩

namespace Sample

/-- No switches for the engine. -/
def bare : EngineChoice := ⟨none, none, none, []⟩

/-- Surroundings with nothing but a directory to work in. -/
def desk : World := .start ⟨[([], .directory), (["W"], .directory)], .roomy⟩ {}

/-- An engine that reports a class twice. -/
def reporter : Factory :=
  .script ⟨"", [], [.unit "A" none, .unit "A" (some "a")], []⟩

/-- The workspace before anything is reported. -/
def blank : Workspace := beginning Settings.default (some reporter) input desk

/-- The workspace after that, and how the first task ends. -/
def filled : Workspace × Outcome :=
  (Workspace.outcomeWithin .decompileArchive input 5 blank .ready).get (by decide +kernel)

theorem spares_reporter : reporter.Spares := by
  refine ⟨sparesWorker_nil, ?_, fun name acts hacts => nomatch hacts⟩
  intro t ht
  simp at ht

theorem taskEnds_filled : ∃ result,
    TaskEnds .decompileArchive input blank filled.1 (.success result) := by
  have hfilled : Workspace.outcomeWithin .decompileArchive input 5 blank .ready = some filled :=
    (Option.some_get _).symm
  have hends : TaskEnds .decompileArchive input blank filled.1 filled.2 :=
    .of_outcomeWithin (spares_beginning spares_reporter) hfilled
  obtain ⟨s₁, result, hsuccess, -⟩ := @exists_taskEnds_of_normal input blank reporter rfl rfl
  obtain ⟨-, houtcome⟩ := hends.unique hsuccess
  exact ⟨result, houtcome ▸ hends⟩

theorem units_filled : filled.1.store.units = [⟨"A", some "a"⟩] := by
  have hentries : filled.1.store.entries = [("A", some "a")] := by decide +kernel
  rw [Store.units, hentries]
  exact List.mergeSort_singleton _

theorem bothSucceed : BothSucceed input (.zip (.value output)) output blank := by
  obtain ⟨result, hends₁⟩ := taskEnds_filled
  have hopens : ((Export.Writer.forArchive output filled.1.delimiter
      filled.1.extension).openTarget (filled.1.world.note (exportingRecord 1 output)).files).2
        |>.toOption.isSome := by
    decide +kernel
  obtain ⟨writer, hopen⟩ := Option.isSome_iff_exists.1 hopens
  have hsaves : ∀ u ∈ filled.1.store.units, Saves (.forArchive output filled.1.delimiter
      filled.1.extension) u ("A.java", "a".toUTF8) := by
    intro u hu
    rw [units_filled, List.mem_singleton] at hu
    subst hu
    exact ⟨"a", ⟨.relative, ["A.java"]⟩, rfl, eq_ok_of_toOption (by decide +kernel),
      eq_ok_of_toOption (by decide +kernel), rfl⟩
  have hdevice : filled.1.world.files.device = .roomy := by
    rcases hends₁.decompiled rfl logs_beginning with ⟨reason, hreason, -⟩ | ⟨tree, -, hkeeps⟩
    · cases hreason
    · exact hkeeps.device
  have hroom : filled.1.world.files.device.HasRoomFor output.place
      (filled.1.store.units.map fun _ => ("A.java", "a".toUTF8)) := by
    rw [hdevice]
    refine Device.hasRoomFor_roomy _ fun e he => ?_
    obtain ⟨-, -, rfl⟩ := List.mem_map.1 he
    decide +kernel
  obtain ⟨s₂, sent, summary, executable, hcompletes, hreport, -⟩ := archives_of_saves
    (by rw [units_filled]; exact Prod.ext rfl (eq_ok_of_toOption hopen)) hsaves
    filled.1.store.nodup_names_units hroom
  exact ⟨_, s₂, _, _, hends₁, sent, hcompletes, hreport⟩

end Sample

theorem perform_decompile_ends_sample :
    let report := (Command.decompile Sample.bare Sample.input (.zip (.value Sample.output))
      true).perform (some Sample.reporter) Sample.desk
    report.ending = .normal ∧ ∃ count saved skipped, TellsNumbers Sample.input
      (.zip (.value Sample.output)) Sample.output Sample.blank report count saved skipped := by
  obtain ⟨hnormal, -, -, htells⟩ := @perform_decompile_ends Sample.bare Settings.default
    (some Sample.reporter) Sample.desk Sample.input Sample.output (.zip (.value Sample.output))
    true rfl rfl Sample.spares_reporter
  have hending := hnormal.2 Sample.bothSucceed
  exact ⟨hending, htells hending⟩

end ClassBrowser.CommandLine
