import ClassBrowser.CommandLine.Commands
import ClassBrowser.Proofs.CommandLine.Tasks
import ClassBrowser.Proofs.Except

/-!
# Quiet commands

The switch `--quiet` is handed on to both tasks of `decompile`, where it decides what is printed of
their messages and nothing else (`shownProgress`).  A quiet run is the other one without its reports
of progress (`Report.withoutProgress`), wherever it ends (`runTask_quiet`).  Between the words and
the command, the switch changes one field of what is read, and no other word is read differently for
it (`parse_quietWord`).
-/

namespace ClassBrowser.CommandLine

variable {fs : Files} {env : Environment} {w : World} {engine : Option Factory}

/-! ## What is printed -/

/-- A report of a run that prints no progress. -/
def Report.withoutProgress (r : Report) : Report :=
  { r with printed := r.printed.filter fun p => !p.isProgress }

namespace Report

@[simp] theorem withoutProgress_after (printed : List Printed) (r : Report) :
    (r.after printed).withoutProgress =
      .after (printed.filter fun p => !p.isProgress) r.withoutProgress := by
  simp [withoutProgress, after]

@[simp] theorem withoutProgress_ended (printed : List Printed) (ending : Ending) (w : World) :
    (Report.ended printed ending w).withoutProgress =
      .ended (printed.filter fun p => !p.isProgress) ending w := rfl

end Report

theorem filter_map_line {α : Type} (text : α → String) (l : List α) :
    (l.map fun a => Printed.line (text a)).filter (fun p => !p.isProgress) =
      l.map fun a => .line (text a) := by
  rw [List.filter_eq_self]
  intro p hp
  obtain ⟨a, -, rfl⟩ := List.mem_map.1 hp
  rfl

theorem filter_missingLineEnd (text : String) :
    (missingLineEnd text).filter (fun p => !p.isProgress) = missingLineEnd text := by
  unfold missingLineEnd
  split <;> rfl

theorem filter_shownProgress (quiet : Bool) (messages : List Message) :
    (shownProgress quiet messages).filter (fun p => !p.isProgress) = [] := by
  refine List.filter_eq_nil_iff.2 fun p hp => ?_
  simp [areProgress_shownProgress quiet messages p hp]

/-- A task that is run quietly leads where it leads otherwise, and fails where it fails. -/
theorem runTask_quiet {next next' : Session → Option TaskResult → Report}
    (hnext : ∀ s result, next' s result = (next s result).withoutProgress) (s : Session)
    (kind : TaskKind) (target : Path) (quiet : Bool) :
    runTask s kind target true next' = (runTask s kind target quiet next).withoutProgress := by
  unfold runTask
  cases s.start kind target with
  | error e => rfl
  | ok s₁ =>
    simp only [Report.withoutProgress_after, filter_shownProgress, shownProgress_of_quiet]
    split
    · rfl
    · rfl
    · rw [hnext]

theorem withSession_quiet {next next' : Session → Report} (choice : EngineChoice)
    (hnext : ∀ s, next' s = (next s).withoutProgress) :
    withSession choice engine w next' = (withSession choice engine w next).withoutProgress := by
  unfold withSession
  cases choice.settings w with
  | ok s => exact hnext _
  | error e =>
    dsimp only
    split <;> rfl

/-- What is said of an export is no progress. -/
theorem filter_exportLines (target : Path) (summary : Summary) :
    (exportLines target summary).filter (fun p => !p.isProgress) = exportLines target summary := by
  unfold exportLines
  split <;> rfl

theorem exportAll_quiet (s : Session) (target : Target) (quiet : Bool) :
    exportAll s target true = (exportAll s target quiet).withoutProgress := by
  unfold exportAll
  cases target.path.get .path with
  | error l => rfl
  | ok path =>
    refine runTask_quiet ?_ s _ path quiet
    rintro s (_ | (_ | summary))
    · rfl
    · rfl
    · rw [Report.withoutProgress_ended, filter_exportLines]

theorem decompileFirst_quiet {next next' : Session → Report}
    (hnext : ∀ s, next' s = (next s).withoutProgress) (s : Session) (archive : Path)
    (quiet : Bool) :
    decompileFirst s archive true next' =
      (decompileFirst s archive quiet next).withoutProgress :=
  runTask_quiet (fun _ _ => hnext _) s _ archive quiet

/-- A command, with the switch if it knows it. -/
def Command.quieted : Command → Command
  | .decompile engine archive target _ => .decompile engine archive target true
  | c => c

/-- A quiet command leaves behind what it leaves otherwise, but for progress that it does not
print.  The commands that do not know the switch print no progress. -/
theorem perform_quieted (c : Command) (engine : Option Factory) (w : World) :
    c.quieted.perform engine w = (c.perform engine w).withoutProgress := by
  cases c with
  | gui choice archive =>
    have hwindow : ∀ s : Session, Report.ended [] (.window s archive) s.world =
        (Report.ended [] (.window s archive) s.world).withoutProgress := fun _ => rfl
    exact withSession_quiet choice hwindow
  | list archive includeInner =>
    show listClasses archive includeInner w = (listClasses archive includeInner w).withoutProgress
    unfold listClasses
    dsimp only
    split
    · rw [Report.withoutProgress_ended, filter_map_line]
    · split <;> rfl
  | tree choice archive =>
    refine withSession_quiet choice fun s => decompileFirst_quiet (fun s => ?_) s archive true
    rw [printTree, Report.withoutProgress_ended]
    exact congrArg (Report.ended · _ _) (filter_map_line id _).symm
  | showClass choice archive name color =>
    refine withSession_quiet choice fun s => decompileFirst_quiet (fun s => ?_) s archive true
    unfold printClass
    split
    · rfl
    split
    · rfl
    · rw [Report.withoutProgress_ended, List.filter_cons_of_pos rfl, filter_missingLineEnd]
  | decompile choice archive target quiet =>
    refine withSession_quiet choice fun s => decompileFirst_quiet (fun s => ?_) s archive quiet
    rw [exportAll_quiet _ _ quiet, Report.withoutProgress_after]
    rfl

/-! ## What is read -/

/-- What has been read, with the switch. -/
def Draft.quieted (d : Draft) : Draft := { d with quiet := true }

/-- What was read of a sub-command, with the switch. -/
def Reader.quieted (r : Reader) : Reader := { r with draft := r.draft.quieted }

/-- What an accepted command line says, with the switch. -/
def Invocation.quieted (i : Invocation) : Invocation := { i with command := i.command.quieted }

theorem take_quieted (d : Draft) (s : Switch) (given : Given String) :
    d.quieted.take fs env s given = (d.take fs env s given).map Draft.quieted := by
  cases s with
  | config =>
    simp only [Draft.take]
    cases given.convert (toFile fs env) <;> rfl
  | logFile | engineJar | java =>
    simp only [Draft.take]
    cases given.convert (toPath env pathType) <;> rfl
  | output | zip =>
    simp only [Draft.take]
    cases given.convert (toPath env pathType) with
    | error e => rfl
    | ok p => rcases ht : d.target with _ | (_ | _) <;> simp [Draft.quieted, ht] <;> rfl
  | _ => rfl

theorem takeOperand_quieted (d : Draft) (o : Operand) (given : Given String) :
    d.quieted.takeOperand fs env o given = (d.takeOperand fs env o given).map Draft.quieted := by
  rcases o with _ | _ <;> rcases given with value | _
  · cases h : toFile fs env value <;> simp [Draft.takeOperand, h] <;> rfl
  all_goals rfl

theorem readOperands_quieted (command : Subcommand) (operands : List Operand) (words : Words)
    (d : Draft) :
    readOperands command fs env operands words d.quieted =
      (readOperands command fs env operands words d).map fun r => (r.1.quieted, r.2) := by
  induction operands generalizing words d with
  | nil => rfl
  | cons o operands ih =>
    unfold readOperands
    split
    · next given rest _ =>
      rw [takeOperand_quieted, mapError_map]
      exact map_bind fun d => ih _ d
    · next rest _ =>
      split
      · rfl
      · exact ih rest d

theorem readSwitch_quieted (command : Option Subcommand) (d : Draft) (s : Switch) (flag : String)
    (attached : Option String) (rest : Words) :
    readSwitch command fs env d.quieted s flag attached rest =
      (readSwitch command fs env d s flag attached rest).map fun r => (r.1.quieted, r.2) := by
  unfold readSwitch
  cases (valueOf s flag attached rest).mapError (·.toStop command s.name) with
  | error e => rfl
  | ok given =>
    have htake : (d.quieted.take fs env s given.1).mapError (·.toStop command s.name) =
        ((d.take fs env s given.1).mapError (·.toStop command s.name)).map Draft.quieted := by
      rw [take_quieted, mapError_map]
    -- two switches end the reading at once, whatever was read before
    cases s with
    | help => rfl
    | version => rfl
    | _ =>
      exact (congrArg (· >>= fun d => pure (d, given.2)) htake).trans
        (map_bind (g := fun d => pure (d, given.2)) fun _ => rfl)

/-- No word is read differently for a switch that was read before. -/
theorem readWords_quieted (command : Subcommand) (fuel : Nat) (words : Words) (r : Reader) :
    readWords command fs env fuel words r.quieted =
      (readWords command fs env fuel words r).map Reader.quieted := by
  induction fuel generalizing words r with
  | zero => rfl
  | succ fuel ih =>
    have hoperands : ∀ words, readOperands command fs env r.quieted.operands words r.quieted.draft =
        _ := fun words => readOperands_quieted command r.operands words r.draft
    rcases words with _ | ⟨⟨word, kind⟩, rest⟩
    · rw [readWords, readWords, hoperands]
      exact map_bind fun _ => rfl
    cases kind with
    | unknown => exact ih rest { r with unknown := r.unknown ++ [word] }
    | switch s flag attached =>
      rw [readWords, readWords, Reader.quieted, readSwitch_quieted]
      exact map_bind fun read => ih read.2 { r with draft := read.1 }
    | _ =>
      rw [readWords, readWords, hoperands]
      refine map_bind fun ⟨draft, operands, left⟩ => ?_
      dsimp only
      split
      · exact ih left { r with draft, operands }
      · exact ih _ { r with unknown := r.unknown ++ _ }
      all_goals nofun

theorem toCommand_quieted (d : Draft) (c : Subcommand) :
    d.quieted.toCommand c = (d.toCommand c).map Command.quieted := by
  rcases d with ⟨_, _, _ | archive, className, _, _, _, target, _⟩
  · cases c <;> rfl
  · cases c with
    | showClass => cases className <;> rfl
    | decompile => cases target <;> rfl
    | _ => rfl

/-- The word for the switch. -/
def quietWord : String := "--quiet"

theorem classifyAll_cons {flags : List (String × Switch)} {word : String} {kind : Word}
    (hword : classify flags word = .ok kind) (hne : word ≠ "--") (words : List String) :
    classifyAll flags (word :: words) =
      (classifyAll flags words).map ((word, kind) :: ·) := by
  rw [classifyAll, if_neg (by simpa using hne), hword]
  cases classifyAll flags words <;> rfl

theorem classify_quietWord : classify (flagsOf Subcommand.decompile.switches) quietWord =
    .ok (.switch .quiet quietWord none) := by
  decide +kernel

/-- The words in front of the sub-command know neither its name nor its switch. -/
theorem classify_main : classify (flagsOf mainSwitches) Subcommand.decompile.name = .ok .plain ∧
    classify (flagsOf mainSwitches) quietWord = .ok .unknown := by
  decide +kernel

theorem readWords_quietWord (words : Words) (r : Reader) :
    readWords .decompile fs env (words.length + 2)
        ((quietWord, .switch .quiet quietWord none) :: words) r =
      (readWords .decompile fs env (words.length + 1) words r).map Reader.quieted := by
  rw [readWords]
  exact readWords_quieted .decompile (words.length + 1) words r

/-- The sub-command reads its switch and goes on with the words behind it. -/
theorem readSubcommand_quietWord (d : Draft) (words : List String) :
    readSubcommand .decompile fs env d (quietWord :: words) =
      (readSubcommand .decompile fs env d words).map fun r => (r.1.quieted, r.2) := by
  unfold readSubcommand
  rw [classifyAll_cons classify_quietWord (by decide), mapError_map]
  refine map_bind fun words => ?_
  rw [List.length_cons, readWords_quietWord]
  refine map_bind fun r => ?_
  rw [Reader.quieted, toCommand_quieted, mapError_map]
  exact map_bind fun c => rfl

/-! ## The command line -/

theorem readMain_decompile (fuel : Nat) (words : Words) (d : Draft) :
    readMain fs env (fuel + 1) ((Subcommand.decompile.name, .plain) :: words) d [] =
      readSubcommand .decompile fs env d (words.map Prod.fst) := by
  have hname : Subcommand.ofName? Subcommand.decompile.name = some .decompile := by decide
  rw [readMain, hname]
  · dsimp only
    cases readSubcommand .decompile fs env d (words.map Prod.fst) <;> rfl
  all_goals nofun

/-- The switch right behind the sub-command changes what is read in nothing else. -/
theorem parse_quietWord (fs : Files) (env : Environment) (rest : List String) :
    parse fs env (Subcommand.decompile.name :: quietWord :: rest) =
      (parse fs env (Subcommand.decompile.name :: rest)).map Invocation.quieted := by
  have hcommand := fun words =>
    @classifyAll_cons (flagsOf mainSwitches) _ _ classify_main.1 (by decide) words
  have hboth : classifyAll (flagsOf mainSwitches)
        (Subcommand.decompile.name :: quietWord :: rest) =
      (classifyAll (flagsOf mainSwitches) rest).map fun words =>
        (Subcommand.decompile.name, .plain) :: (quietWord, .unknown) :: words := by
    rw [hcommand, classifyAll_cons classify_main.2 (by decide)]
    cases classifyAll (flagsOf mainSwitches) rest <;> rfl
  simp only [parse, List.isEmpty_cons, Bool.false_eq_true, if_false, hboth, hcommand rest,
    mapError_map]
  cases (classifyAll (flagsOf mainSwitches) rest).mapError (Stop.usage none) with
  | error stop => rfl
  | ok words =>
    change readMain _ _ _ _ _ _ >>= _ = Except.map _ (readMain _ _ _ _ _ _ >>= _)
    rw [readMain_decompile, readMain_decompile, List.map_cons, readSubcommand_quietWord]
    refine map_bind fun ⟨i, unknown⟩ => ?_
    dsimp only
    split <;> rfl

theorem withoutProgress_report (program : String) (w : World) (stop : Stop) :
    (stop.report program w).withoutProgress = stop.report program w := by
  cases stop <;> rfl

theorem run_quietWord (program : String) (rest : List String) (engine : Option Factory)
    (w : World) :
    run program (Subcommand.decompile.name :: quietWord :: rest) engine w =
      (run program (Subcommand.decompile.name :: rest) engine w).withoutProgress := by
  unfold run
  dsimp only
  rw [parse_quietWord]
  cases parse w.files w.env (Subcommand.decompile.name :: rest) with
  | error stop => exact (withoutProgress_report program _ stop).symm
  | ok i =>
    dsimp only [Except.map]
    rw [show i.quieted.beginLog _ = i.beginLog _ from rfl]
    cases i.beginLog { w with log := [], logFile := none } with
    | error e => rfl
    | ok w' =>
      dsimp only [Invocation.quieted]
      rw [perform_quieted]
      rfl

/-- **The switch `--quiet` changes only what is printed as progress.**  Whatever the settings, the
engine and the target are, and wherever the command ends, a quiet `decompile` prints all that the
other one prints but for the reports of progress, and leaves the same behind: the way it ends, the
files, the log and the complaints.  The command line says so by one word, with which any other words
behind it are read as without it. -/
theorem run_quiet (choice : EngineChoice) (archive : Path) (target : Target) (program : String)
    (rest : List String) (engine : Option Factory) (w : World) :
    let loud := (Command.decompile choice archive target false).perform engine w
    let quiet := (Command.decompile choice archive target true).perform engine w
    quiet = loud.withoutProgress ∧ quiet.exitCode? = loud.exitCode? ∧
      quiet.world.files = loud.world.files ∧
      (∀ p ∈ loud.printed, p ∉ quiet.printed ↔ ∃ report, p = .progress report) ∧
      run program ("decompile" :: "--quiet" :: rest) engine w =
        (run program ("decompile" :: rest) engine w).withoutProgress := by
  intro loud quiet
  have hsame : quiet = loud.withoutProgress :=
    perform_quieted (.decompile choice archive target false) engine w
  refine ⟨hsame, by rw [hsame]; rfl, by rw [hsame]; rfl, ?_, ?_⟩
  · intro p hp
    cases p <;> simp [hsame, Report.withoutProgress, Printed.isProgress, hp]
  exact run_quietWord program rest engine w

end ClassBrowser.CommandLine
