import ClassBrowser.Proofs.Engine.Failures
import ClassBrowser.Proofs.Engine.Reports
import ClassBrowser.Proofs.Text.Lines
import ClassBrowser.Proofs.Text.Pieces

/-!
# What the decompiler says of its failure

When the process ends with an exit code other than 0, the message of the failure lists the lines
that tell of it: of the output, then of the error stream, the ones that begin with the mark of an
error or mention an exception, whatever their case.  The lines of the output that are logged as
errors are among them.

With the exit code 0 the lines are logged all the same, but do not make the run fail
(`decompile_of_completed`, `exists_error_line_ignored`).
-/

namespace ClassBrowser

namespace Engine

variable {mark : List Char} {text line output : String}

/-! ## Marks -/

/-- Whether a text begins with a mark, in any case. -/
def Opens (mark : List Char) (text : String) : Prop :=
  ∃ found rest, text.toList = found ++ rest ∧ found.map Char.toLower = mark

/-- Whether a text has a mark in it, in any case. -/
def Mentions (mark : List Char) (text : String) : Prop :=
  ∃ before found rest, text.toList = before ++ found ++ rest ∧ found.map Char.toLower = mark

/-- Whether a text tells of a failure. -/
def TellsFailure (text : String) : Prop :=
  Opens errorMark text ∨ Mentions exceptionMark text

theorem opens_iff : Opens mark text ↔ mark <+: text.toList.map Char.toLower := by
  constructor
  · rintro ⟨found, rest, htext, rfl⟩
    rw [htext, List.map_append]
    exact List.prefix_append _ _
  · rintro ⟨rest, h⟩
    obtain ⟨found, rest, htext, hfound, -⟩ := List.map_eq_append_iff.1 h.symm
    exact ⟨found, rest, htext, hfound⟩

theorem mentions_iff : Mentions mark text ↔ mark <:+: text.toList.map Char.toLower := by
  constructor
  · rintro ⟨before, found, rest, htext, rfl⟩
    rw [htext, List.map_append, List.map_append]
    exact List.infix_append _ _ _
  · rintro ⟨before, rest, h⟩
    obtain ⟨front, rest, htext, hfront, -⟩ := List.map_eq_append_iff.1 h.symm
    obtain ⟨before, found, rfl, -, hfound⟩ := List.map_eq_append_iff.1 hfront
    exact ⟨before, found, rest, htext, hfound⟩

theorem occurs_iff {cs : List Char} : Text.occurs mark cs = true ↔ mark <:+: cs := by
  induction cs with
  | nil => simp [Text.occurs]
  | cons c cs ih =>
    calc
      Text.occurs mark (c :: cs) = true ↔
          (Text.dropStart? mark (c :: cs)).isSome = true ∨ mark <:+: cs := by
        rw [Text.occurs, Bool.or_eq_true, ih]
      _ ↔ mark <+: c :: cs ∨ mark <:+: cs := by
        rw [Option.isSome_iff_ne_none, ne_eq, Text.dropStart?_eq_none_iff, not_not]
      _ ↔ mark <:+: c :: cs := List.infix_cons_iff.symm

theorem lowered_eq (line : String) :
    lowered line = (Text.strip line).toList.map Char.toLower := by
  rw [lowered, Text.strip, String.toList_ofList]

theorem beginsWith_iff : beginsWith mark line = true ↔ Opens mark (Text.strip line) := by
  calc
    beginsWith mark line = true ↔
        (Text.dropStart? mark ((Text.strip line).toList.map Char.toLower)).isSome = true := by
      rw [beginsWith, lowered_eq]
    _ ↔ mark <+: (Text.strip line).toList.map Char.toLower := by
      rw [Option.isSome_iff_ne_none, ne_eq, Text.dropStart?_eq_none_iff, not_not]
    _ ↔ Opens mark (Text.strip line) := opens_iff.symm

theorem isFailureLine_iff : isFailureLine line = true ↔ TellsFailure (Text.strip line) := by
  rw [isFailureLine, Bool.or_eq_true, beginsWith_iff, occurs_iff, lowered_eq, TellsFailure,
    mentions_iff]

instance (mark : List Char) (text : String) : Decidable (Opens mark text) :=
  decidable_of_iff _ opens_iff.symm

instance (mark : List Char) (text : String) : Decidable (Mentions mark text) :=
  decidable_of_iff (Text.occurs mark (text.toList.map Char.toLower) = true)
    (occurs_iff.trans mentions_iff.symm)

instance (text : String) : Decidable (TellsFailure text) :=
  inferInstanceAs (Decidable (_ ∨ _))

/-! ## Lines -/

/-- Those of some lines that tell of a failure, without the blanks around them. -/
def told (lines : List String) : List String := (lines.map Text.strip).filter TellsFailure

/-- Those of some lines that begin with the mark of an error, without the blanks around them. -/
def reported (lines : List String) : List String :=
  (lines.map Text.strip).filter (Opens errorMark)

/-- A line that reports an error tells of a failure. -/
theorem reported_sublist (lines : List String) : (reported lines).Sublist (told lines) := by
  refine List.monotone_filter_right _ fun line h => ?_
  exact decide_eq_true (.inl (of_decide_eq_true h))

theorem told_append (lines lines' : List String) :
    told (lines ++ lines') = told lines ++ told lines' := by
  rw [told, List.map_append, List.filter_append, told, told]

theorem failureLines_eq (output : String) : failureLines output = told (Text.lines output) := by
  have hfilter : (Text.lines output).filter isFailureLine =
      (Text.lines output).filter ((fun text => decide (TellsFailure text)) ∘ Text.strip) := by
    refine List.filter_congr fun line _ => ?_
    rw [Bool.eq_iff_iff, isFailureLine_iff, Function.comp_apply, decide_eq_true_iff]
  rw [failureLines, hfilter, told, List.filter_map]

theorem lineRecord?_of_opens (h : Opens errorMark (Text.strip line)) :
    lineRecord? line = some ⟨.error, .engine, Text.strip line⟩ := by
  rw [lineRecord?, if_pos (beginsWith_iff.2 h)]

/-- Other lines are logged as something else, if at all. -/
theorem level_of_lineRecord? {record : Log.Record} (h : ¬ Opens errorMark (Text.strip line))
    (hrecord : lineRecord? line = some record) : record.level ≠ .error := by
  rw [lineRecord?, if_neg (mt beginsWith_iff.1 h)] at hrecord
  split at hrecord
  · obtain rfl := Option.some.inj hrecord
    nofun
  · split at hrecord
    · cases hrecord
    · obtain rfl := Option.some.inj hrecord
      nofun

/-- What is logged of an output as errors are its lines that begin with the mark of an error. -/
theorem errors_outputRecords (output : String) :
    ((outputRecords output).filter (·.level = .error)).map (·.text) =
      reported (Text.lines output) := by
  rw [outputRecords, reported]
  induction Text.lines output with
  | nil => rfl
  | cons line lines ih =>
    rw [List.map_cons]
    by_cases hopens : Opens errorMark (Text.strip line)
    · rw [List.filterMap_cons_some (lineRecord?_of_opens hopens),
        List.filter_cons_of_pos (by simp), List.map_cons, ih,
        List.filter_cons_of_pos (by simpa using hopens)]
    · rw [List.filter_cons_of_neg (by simpa using hopens), ← ih]
      cases hrecord : lineRecord? line with
      | none => rw [List.filterMap_cons_none hrecord]
      | some record =>
        rw [List.filterMap_cons_some hrecord,
          List.filter_cons_of_neg (by simpa using level_of_lineRecord? hopens hrecord)]

end Engine

/-! ## Finished processes -/

theorem World.log_noteAll (w : World) (records : List Log.Record) :
    (w.noteAll records).log = w.log ++ records := by
  induction records generalizing w with
  | nil => exact (List.append_nil _).symm
  | cons record rest ih =>
    show ((w.note record).noteAll rest).log = _
    rw [ih, note, List.append_assoc, List.singleton_append]

namespace Decompiler

variable {d : Decompiler} {w w' : World} {completed : Engine.Completed}

/-- What a run comes to once the process has ended, by its exit code and by what is found of what it
has made; `out` and `err` are the lines of the two streams, and `d'` is the decompiler that the run
leaves. -/
structure Verdict (d d' : Decompiler) (w' : World) (completed : Engine.Completed)
    (out err : List String) (outcome : Except EngineError (List Act)) : Prop where
  /-- another exit code than 0 is a failure, and its message lists the lines that tell of it -/
  failed : completed.exitCode ≠ 0 → ∃ e, outcome = .error e ∧ e.isReported = true ∧
    e.streams? = some (completed.stdout, completed.stderr) ∧
      (Engine.told (out ++ err) ≠ [] → e.message =
        "Decompiler failed on " ++ ", ".intercalate (d.sources.map (·.name.text)) ++ ": " ++
          " ".intercalate (Engine.told (out ++ err)))
  /-- an archive that cannot be looked through ends the run before anything is looked for -/
  resists : completed.exitCode = 0 →
    (∃ s ∈ d.sources, Resists w'.files outputDirectory.parts s) →
      ∃ e, outcome = .error e ∧ e.isReported = false
  /-- it is a failure that nothing is found -/
  nothing : completed.exitCode = 0 →
    (∀ s ∈ d.sources, ¬ Resists w'.files outputDirectory.parts s) →
    (∀ s ∈ d.sources, ∀ p, ¬ Yields w'.files outputDirectory.parts s p) →
      ∃ e, outcome = .error e ∧ e.isReported = true ∧
        e.streams? = some (completed.stdout, completed.stderr)
  /-- otherwise the classes are reported, whatever the lines are, and the run ends well unless that
  breaks off at one of them -/
  found : completed.exitCode = 0 →
    (∀ s ∈ d.sources, ¬ Resists w'.files outputDirectory.parts s) →
    (∃ s ∈ d.sources, ∃ p, Yields w'.files outputDirectory.parts s p) →
      collect w'.files outputDirectory.parts d.sources = .ok d'.locations ∧
      ∃ acts, outcome = .ok acts ∧
        ((∃ t, .throw t ∈ acts) ↔ ∃ name, d'.Breaks w'.files name) ∧
        ∀ t, .throw t ∈ acts → ∃ e, t = .engine e ∧ e.isReported = false

/-- The records of a run end with those of the lines that the process has printed. -/
theorem exists_log_of_launch (h : d.launch w = (w', .ok completed)) :
    ∃ command, w'.log = w.log ++ ⟨.info, .engine, Engine.startText command⟩ ::
      Engine.outputRecords completed.stdout := by
  have hlog : (d.emptied w).log = w.log := by
    unfold emptied close
    split <;> rfl
  rw [launch_eq] at h
  split at h
  · cases h
  · next command hcommand =>
    split at h
    · cases h
    · next completed' files hexecute =>
      obtain ⟨rfl, hcompleted⟩ := Prod.mk.inj h
      obtain rfl := Except.ok.inj hcompleted
      refine ⟨command, ?_⟩
      rw [World.log_noteAll, ← hlog]
      show (d.emptied w).log ++ [_] ++ _ = _
      rw [List.append_assoc, List.singleton_append]

theorem message_failed {archives lines : List String} (h : lines ≠ []) (exitCode : Int)
    (stdout stderr : String) : (EngineError.failed archives lines exitCode stdout stderr).message =
      "Decompiler failed on " ++ ", ".intercalate archives ++ ": " ++ " ".intercalate lines := by
  have hlines : lines.isEmpty = false := by simpa using h
  show "Decompiler failed on " ++ ", ".intercalate archives ++ (if lines.isEmpty then _ else _) = _
  rw [hlines, if_neg Bool.false_ne_true, ← String.append_assoc]

theorem verdict (hsources : d.sources ≠ []) (h : d.launch w = (w', .ok completed)) :
    Verdict d (d.decompile w).2.1 w' completed (Text.lines completed.stdout)
      (Text.lines completed.stderr) (d.decompile w).2.2 := by
  have hrun : (d.decompile w).2 = d.started.gather w' completed := by
    rw [decompile_eq hsources, h]
  have hstarted : d.started.sources = d.sources := rfl
  refine ⟨fun hexit => ?failed, fun hexit hresists => ?resists,
    fun hexit hclear hnone => ?nothing, fun hexit hclear hsome => ?found⟩
  case failed =>
    rw [gather_of_exitCode hexit, Engine.failureLines_eq, Engine.failureLines_eq,
      ← Engine.told_append] at hrun
    rw [hrun]
    exact ⟨_, rfl, rfl, rfl, fun hne => message_failed hne _ _ _⟩
  case resists =>
    obtain ⟨e, hcollect, hunreported⟩ := exists_collect_eq_error hresists
    rw [gather, failure?_eq_none hexit, hstarted, hcollect] at hrun
    rw [hrun]
    exact ⟨_, rfl, hunreported⟩
  case nothing =>
    obtain ⟨locations, hcollect⟩ := exists_collect_eq_ok hclear
    obtain rfl := (eq_nil_iff_of_collect hcollect).2 hnone
    rw [gather, failure?_eq_none hexit, hstarted, hcollect] at hrun
    rw [hrun]
    exact ⟨_, rfl, rfl, rfl⟩
  case found =>
    obtain ⟨locations, hcollect⟩ := exists_collect_eq_ok hclear
    obtain ⟨s, hs, p, hp⟩ := hsome
    have hne : locations ≠ [] := fun hnil => (eq_nil_iff_of_collect hcollect).1 hnil s hs p hp
    have hgather : d.started.gather w' completed = _ :=
      gather_eq_ok_iff.2 ⟨hexit, locations, hne, hcollect, rfl, rfl⟩
    rw [hrun, hgather]
    refine ⟨hcollect, _, rfl, exists_throw_mem_reports_iff, fun t ht => ?_⟩
    obtain ⟨name, e, -, hunreported, rfl⟩ := exists_of_throw_mem_reports ht
    exact ⟨_, rfl, hunreported⟩

/-- **A finished process.**  Whatever it has printed and left, an exit code other than 0 is reported
as a failure with both streams and the lines that tell of it, and so is a run of which nothing is
found; with the exit code 0 the lines make no difference.  An archive that was left and cannot be
looked through, or a text in it that cannot be read, ends the run with another error.  What is
logged as errors are the lines of the output that begin with the mark of one, and they are among the
lines that tell of a failure. -/
theorem decompile_of_completed (hsources : d.sources ≠ [])
    (h : d.launch w = (w', .ok completed)) : ∃ out err : List String,
      Text.AreLines completed.stdout.toList (out.map String.toList) ∧
      Text.AreLines completed.stderr.toList (err.map String.toList) ∧
      Verdict d (d.decompile w).2.1 w' completed out err (d.decompile w).2.2 ∧
      ∃ added, (d.decompile w).1.log = w.log ++ added ∧
        (added.filter (·.level = .error)).map (·.text) = Engine.reported out ∧
        (Engine.reported out).Sublist (Engine.told (out ++ err)) := by
  obtain ⟨command, hlog⟩ := exists_log_of_launch h
  have hworld : (d.decompile w).1 = w' := by rw [decompile_eq hsources, h]
  refine ⟨Text.lines completed.stdout, Text.lines completed.stderr, Text.areLines_lines _,
    Text.areLines_lines _, verdict hsources h, _, hworld ▸ hlog, ?_, ?_⟩
  · rw [List.filter_cons_of_neg (by simp), Engine.errors_outputRecords]
  · rw [Engine.told_append]
    exact (Engine.reported_sublist _).trans (List.sublist_append_left _ _)

namespace Complaint

/-- A decompiler that was given one archive. -/
def decompiler : Decompiler := { Sample.decompiler with sources := [Sample.first] }

/-- What the process leaves. -/
def entries : List (String × ByteArray) := [("X.java", "x".toUTF8)]

/-- What the process prints. -/
def printed : String := "INFO: a\n Error: bad class\n"

/-- What the process prints on the error stream. -/
def mentioned : String := "an Exception\n"

/-- Surroundings where the process leaves a class, complains and ends with an exit code. -/
def world (exitCode : Int) : World :=
  .start ⟨[([], .directory), (["W"], .directory), (["W", "a.jar"], .file (.zip []) false),
    (["W", "engine.jar"], .file (.bytes .empty) false),
    (["W", "java"], .program [⟨printed.toUTF8, mentioned.toUTF8, exitCode,
      [⟨["a.jar"], some (.archive entries)⟩], false⟩] 0)], .roomy⟩ {}

/-- The surroundings when the process has ended. -/
def ended (exitCode : Int) : World := (decompiler.launch (world exitCode)).1

theorem launch_one : decompiler.launch (world 1) = (ended 1, .ok ⟨1, printed, mentioned⟩) :=
  Prod.ext rfl (eq_ok_of_toOption (by decide +kernel))

theorem launch_zero : decompiler.launch (world 0) = (ended 0, .ok ⟨0, printed, mentioned⟩) :=
  Prod.ext rfl (eq_ok_of_toOption (by decide +kernel))

end Complaint

theorem decompile_of_completed_sample :
    ∃ e, (Complaint.decompiler.decompile (Complaint.world 1)).2.2 = .error e ∧
      e.streams? = some (Complaint.printed, Complaint.mentioned) ∧
      e.message = "Decompiler failed on a.jar: Error: bad class an Exception" := by
  obtain ⟨out, err, hout, herr, hverdict, -⟩ :=
    decompile_of_completed (List.cons_ne_nil _ _) Complaint.launch_one
  obtain rfl := hout.eq_lines
  obtain rfl := herr.eq_lines
  have htold : Engine.told (Text.lines Complaint.printed ++ Text.lines Complaint.mentioned) =
      ["Error: bad class", "an Exception"] := by
    decide +kernel
  obtain ⟨e, he, -, hstreams, hmessage⟩ := hverdict.failed (by decide)
  rw [htold] at hmessage
  exact ⟨e, he, hstreams, (hmessage (List.cons_ne_nil _ _)).trans (by decide +kernel)⟩

/-- A process that reports an error, but ends with the exit code 0 and leaves a class, does not make
the run fail. -/
theorem exists_error_line_ignored : ∃ (d : Decompiler) (w w' : World)
    (completed : Engine.Completed) (line : String) (acts : List Act),
    d.sources ≠ [] ∧ d.launch w = (w', .ok completed) ∧
      line ∈ Text.lines completed.stdout ∧ Engine.Opens Engine.errorMark (Text.strip line) ∧
      (d.decompile w).2.2 = .ok acts ∧ ∀ t, .throw t ∉ acts := by
  have hleft : (Complaint.ended 0).files.openZip (outputOf Sample.first) =
      .ok (.ok (.sound Complaint.entries)) := by
    decide +kernel
  have hne : Complaint.decompiler.sources ≠ [] := List.cons_ne_nil _ _
  have hexit : Engine.Completed.exitCode ⟨0, Complaint.printed, Complaint.mentioned⟩ = 0 := rfl
  have hclass : ∃ n, n ++ sourceSuffix ∈ (Entries.sound Complaint.entries).map Prod.fst :=
    ⟨"X", by decide +kernel⟩
  obtain ⟨names, -, -, d', hgather⟩ :=
    gather_archive (d := Complaint.decompiler.started) rfl hexit hleft (by decide)
      (isReadable_sound _) hclass
  have houtcome := outcome_of_launch_ok hne Complaint.launch_zero
  rw [hgather] at houtcome
  exact ⟨Complaint.decompiler, Complaint.world 0, Complaint.ended 0, _, " Error: bad class", _, hne,
    Complaint.launch_zero, by decide +kernel, by decide +kernel, houtcome, by simp⟩

end Decompiler

end ClassBrowser
