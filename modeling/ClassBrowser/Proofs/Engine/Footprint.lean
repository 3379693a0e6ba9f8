import ClassBrowser.Engine.Basic
import ClassBrowser.Proofs.Assoc
import ClassBrowser.Proofs.Engine.Reports
import ClassBrowser.Proofs.Except
import ClassBrowser.Proofs.Log
import ClassBrowser.Proofs.Text.Glyphs

/-!
# What a run of the decompiler changes

A run of the external decompiler puts files into the directory for what it makes, which is removed
when the engine is closed.  Everywhere else it leaves nothing but records of the log
(`Engine.keeps_decompile`); beside that a program knows how often it was run.  An engine that was
not run leaves that directory alone, too.

What is in that directory after a run was made by the run, and is told by texts
(`Decompiler.exists_names_of_launch`).  The name of a class, which is read off the way to its file,
thereby loses nothing of it (`Decompiler.joined_of_launch`).
-/

namespace ClassBrowser

open Text (Loose)

/-- Whether what stands at a place has changed at most by records of the log, or by how often a
program was run. -/
inductive Files.Kept (log : Option Place) (place : Place) : Option Node → Option Node → Prop
  | logged {a b : Option Node} (h : Logged log place a b) : Kept log place a b
  | played (runs : List Run) (before after : Nat) :
    Kept log place (some (.program runs before)) (some (.program runs after))

/-- Whether a place is that of the directory for what the decompiler makes, or below it. -/
def Place.IsTemporary (place : Place) : Prop := Decompiler.outputDirectory.parts <+: place

/-- Whether the files outside the directory for what the decompiler makes were kept. -/
structure World.Keeps (w w' : World) : Prop where
  logFile : w'.logFile = w.logFile
  device : w'.files.device = w.files.device
  files : ∀ place : Place, ¬ place.IsTemporary →
    Files.Kept w.logPlace place (w.files.node? place) (w'.files.node? place)

/-- Whether an engine has run the decompiler since it was closed last. -/
def Engine.isRunning (e : Engine) : Bool :=
  match e.machine with
  | .script _ => false
  | .decompiler d => d.running

/-! ## Files -/

namespace Files

variable {fs fs' : Files} {log : Option Place} {place q : Place} {a b c : Option Node} {p : Path}

namespace Kept

theorem trans (h₁ : Kept log place a b) (h₂ : Kept log place b c) : Kept log place a c := by
  cases h₁ with
  | logged h₁ =>
    cases h₂ with
    | logged h₂ => exact .logged (h₁.trans h₂)
    | played runs before after =>
      cases h₁
      exact .played runs before after
  | played runs before after =>
    cases h₂ with
    | logged h₂ =>
      cases h₂
      exact .played runs before after
    | played _ _ last => exact .played runs before last

end Kept

theorem node?_removeTree (fs : Files) (place q : Place) :
    (fs.removeTree place).node? q = if place.isPrefixOf q then none else fs.node? q := by
  have hfilter := Assoc.get?_filter (fun at_ => !place.isPrefixOf at_) fs.nodes q
  refine hfilter.trans ?_
  cases place.isPrefixOf q <;> rfl

theorem node?_removeTree_of_prefix (h : place <+: q) (fs : Files) :
    (fs.removeTree place).node? q = none := by
  rw [node?_removeTree, if_pos (List.isPrefixOf_iff_prefix.2 h)]

theorem node?_removeTree_of_not_prefix (h : ¬ place <+: q) (fs : Files) :
    (fs.removeTree place).node? q = fs.node? q := by
  rw [node?_removeTree, if_neg fun hbelow => h (List.isPrefixOf_iff_prefix.1 hbelow)]

theorem isTemporary_take (h : place.IsTemporary) {n : Nat} (hn : n ≠ 0) :
    Place.IsTemporary (place.take n) := by
  obtain ⟨rest, rfl⟩ := h
  obtain ⟨n, rfl⟩ := Nat.exists_eq_succ_of_ne_zero hn
  exact ⟨rest.take n, rfl⟩

theorem not_isTemporary_root : ¬ Place.IsTemporary [] := by
  rintro ⟨rest, hrest⟩
  cases hrest

theorem device_plant (fs : Files) (place : Place) (node : Node) :
    (fs.plant place node).device = fs.device := by
  have hways (ways : List Place) (fs : Files) :
      (ways.foldl (fun fs p => if (fs.node? p).isNone then fs.set p .directory else fs) fs).device =
        fs.device := by
    induction ways generalizing fs with
    | nil => rfl
    | cons p ways ih =>
      rw [List.foldl_cons, ih]
      split <;> rfl
  exact hways _ fs

/-- Where there is a root, planting something below the directory for what the decompiler makes
changes nothing outside of it. -/
theorem node?_plant (hroot : fs.node? [] ≠ none) (hplace : place.IsTemporary) (node : Node)
    (hq : ¬ q.IsTemporary) : (fs.plant place node).node? q = fs.node? q := by
  have hways (ways : List Place) (hways : ∀ p ∈ ways, p = [] ∨ p.IsTemporary) :
      (ways.foldl (fun fs p => if (fs.node? p).isNone then fs.set p .directory else fs) fs).node?
        q = fs.node? q := by
    induction ways generalizing fs with
    | nil => rfl
    | cons p ways ih =>
      obtain ⟨hp, hrest⟩ := List.forall_mem_cons.1 hways
      rw [List.foldl_cons]
      split
      · next hnone =>
        have htemporary : p.IsTemporary := hp.resolve_left fun hp =>
          hroot (Option.isNone_iff_eq_none.1 (hp ▸ hnone))
        have hsame (q : Place) (hq : ¬ q.IsTemporary) :
            (fs.set p .directory).node? q = fs.node? q := by
          rw [node?_set, if_neg]
          rintro rfl
          exact hq htemporary
        rw [ih (by rw [hsame [] not_isTemporary_root]; exact hroot) hrest, hsame q hq]
      · exact ih hroot hrest
  have hne : place ≠ q := by
    rintro rfl
    exact hq hplace
  rw [plant, node?_set, if_neg hne]
  refine hways _ ?_
  intro p hp
  obtain ⟨n, -, rfl⟩ := List.mem_map.1 hp
  by_cases hn : n = 0
  · exact .inl (by rw [hn, List.take_zero])
  · exact .inr (isTemporary_take hplace hn)

/-- What stands after something was planted stood there before, or is on the way to it. -/
theorem standing_of_plant {node : Node} (h : (fs.plant place node).node? q ≠ none) :
    fs.node? q ≠ none ∨ q <+: place := by
  have hways (ways : List Place) (fs : Files)
      (hstands : (ways.foldl (fun fs p => if (fs.node? p).isNone then fs.set p .directory else fs)
        fs).node? q ≠ none) : fs.node? q ≠ none ∨ q ∈ ways := by
    induction ways generalizing fs with
    | nil => exact .inl hstands
    | cons p ways ih =>
      rw [List.foldl_cons] at hstands
      rcases ih _ hstands with hstood | hway
      · split at hstood
        · rw [node?_set] at hstood
          split at hstood
          · next hp => exact .inr (hp ▸ List.mem_cons_self)
          · exact .inl hstood
        · exact .inl hstood
      · exact .inr (List.mem_cons_of_mem _ hway)
  rw [plant, node?_set] at h
  split at h
  · next hplace => exact .inr (hplace ▸ List.prefix_refl _)
  · refine (hways _ fs h).imp_right fun hway => ?_
    obtain ⟨n, -, rfl⟩ := List.mem_map.1 hway
    exact List.take_prefix n place

/-- Something is found behind an absolute path only where there is a root. -/
theorem root_of_locate (hanchor : p.anchor ≠ .relative) (hlocate : fs.locate p = .ok place)
    (hnode : fs.node? place ≠ none) : fs.node? [] ≠ none := by
  have hwalk := walk_of_locate hlocate
  rw [if_neg hanchor] at hwalk
  cases hparts : p.parts with
  | nil =>
    rw [hparts] at hwalk
    obtain rfl := Except.ok.inj hwalk
    exact hnode
  | cons part rest =>
    rw [hparts] at hwalk
    obtain ⟨hroot, -⟩ := walk_cons_eq_ok_iff.1 hwalk
    rw [hroot]
    nofun

theorem exists_of_executableAt {name : Loose} {node : Node}
    (h : fs.executableAt name = .ok (place, node)) :
    fs.locate (.ofLoose name) = .ok place ∧ fs.node? place = some node := by
  obtain ⟨found, hlocate, h⟩ := bind_eq_ok_iff.1 h
  split at h
  · cases h
  · cases h
  · next hnode =>
    split at h
    · cases h
    · split at h
      · cases h
        exact ⟨mapError_eq_ok_iff.1 hlocate, hnode⟩
      · cases h

end Files

theorem Path.anchor_ofLoose_toLoose {p : Path} (h : p.anchor = .root) :
    (ofLoose p.toLoose).anchor ≠ .relative := by
  obtain ⟨anchor, parts⟩ := p
  obtain rfl : anchor = .root := h
  have hglyphs : (toLoose ⟨.root, parts⟩).glyphs = .char '/' :: (joined parts).glyphs := by
    show (Loose.whole "/" ++ joined parts).glyphs = _
    rw [Loose.glyphs_append]
    rfl
  show anchorOf (toLoose ⟨.root, parts⟩) ≠ .relative
  unfold anchorOf
  rw [hglyphs]
  split
  · decide
  · decide
  · decide
  · next hother => exact absurd rfl (hother _)

/-! ## Commands -/

namespace Engine

variable {fs fs' : Files} {env : Environment} {jar java : Option (Given Path)}
  {options : Assoc Loose Loose} {sources : List Path} {output p : Path} {command : List Loose}
  {completed : Completed}

theorem anchor_of_resolve {q : Path} (h : p.resolve Files.cwd = .ok q) : q.anchor = .root := by
  unfold Path.resolve at h
  split at h
  · cases h
  · cases h
    rfl

theorem anchor_of_resolveJava (h : resolveJava fs env java = .ok p) : p.anchor = .root := by
  cases java with
  | none =>
    unfold resolveJava at h
    dsimp only at h
    split at h
    · exact anchor_of_resolve (mapError_eq_ok_iff.1 h)
    · cases h
  | some given =>
    obtain ⟨named, -, h⟩ := bind_eq_ok_iff.1 h
    obtain ⟨expanded, -, h⟩ := bind_eq_ok_iff.1 h
    obtain ⟨resolved, hresolve, h⟩ := bind_eq_ok_iff.1 h
    obtain ⟨found, -, h⟩ := bind_eq_ok_iff.1 h
    cases found with
    | false => cases h
    | true =>
      cases h
      exact anchor_of_resolve (mapError_eq_ok_iff.1 hresolve)

/-- A command begins with the absolute path of a program and ends with the directory for what is
made. -/
theorem exists_of_commandFor
    (h : commandFor fs env jar java options sources output = .ok command) :
    ∃ program words, program.anchor = .root ∧
      command = Path.toLoose program :: words ++ [output.toLoose] := by
  obtain ⟨program, hjava, h⟩ := bind_eq_ok_iff.1 h
  obtain ⟨jar, -, h⟩ := bind_eq_ok_iff.1 h
  cases h
  exact ⟨program, _, anchor_of_resolveJava hjava, rfl⟩

/-- The last word of a command is the directory for what is made. -/
theorem directory_of_commandFor
    (h : commandFor fs env jar java options sources Decompiler.outputDirectory = .ok command) :
    (Path.ofLoose (command.getLastD "")).parts = Decompiler.outputDirectory.parts := by
  obtain ⟨program, words, -, rfl⟩ := exists_of_commandFor h
  rw [List.getLastD_eq_getLast?, List.getLast?_concat]
  decide +kernel

/-- What a command that was played has changed: a program was run once more, and what it made was
put into the directory that the command names. -/
theorem exists_of_execute (h : execute fs env command = .ok (completed, fs')) :
    ∃ place runs played outputs, fs.node? place = some (.program runs played) ∧
      (∃ program node, fs.executableAt (command.headD "") = .ok (program, node)) ∧
      fs' = plantOutputs (fs.set place (.program runs (played + 1)))
        (Path.ofLoose (command.getLastD "")).parts outputs := by
  unfold execute at h
  split at h
  · cases h
  · obtain ⟨place, hplace, h⟩ := bind_eq_ok_iff.1 h
    obtain ⟨found, hexecutable, -⟩ := bind_eq_ok_iff.1 (mapError_eq_ok_iff.1 hplace)
    split at h
    · next runs played hnode =>
      cases h
      exact ⟨place, runs, played, _, hnode, ⟨found.1, found.2, hexecutable⟩, rfl⟩
    · cases h

theorem node?_plantOutputs {directory q : Place} (hroot : fs.node? [] ≠ none)
    (hdirectory : directory.IsTemporary) (outputs : List Output)
    (hq : ¬ q.IsTemporary) : (plantOutputs fs directory outputs).node? q = fs.node? q := by
  induction outputs generalizing fs with
  | nil => rfl
  | cons first rest ih =>
    have hplace : Place.IsTemporary (directory ++ first.names.map Loose.whole) :=
      hdirectory.trans (List.prefix_append _ _)
    have hkept (q : Place) (hq : ¬ q.IsTemporary) (node : Node) :=
      Files.node?_plant hroot hplace node hq
    show (plantOutputs (fs.plant (directory ++ first.names.map Loose.whole) _) directory
      rest).node? q = _
    rw [ih (by rw [hkept [] Files.not_isTemporary_root]; exact hroot), hkept q hq]

/-- What stands after the files of a run were planted stood there before, or is told by texts. -/
theorem standing_of_plantOutputs {directory q : Place} (outputs : List Output)
    (h : (plantOutputs fs directory outputs).node? q ≠ none) :
    fs.node? q ≠ none ∨ ∃ names : List String, q <+: directory ++ names.map Loose.whole := by
  induction outputs generalizing fs with
  | nil => exact .inl h
  | cons first rest ih =>
    rcases ih h with hplanted | hnamed
    · exact (Files.standing_of_plant hplanted).imp_right fun hway => ⟨first.names, hway⟩
    · exact .inr hnamed

theorem device_plantOutputs (fs : Files) (directory : Place) (outputs : List Output) :
    (plantOutputs fs directory outputs).device = fs.device := by
  induction outputs generalizing fs with
  | nil => rfl
  | cons first rest ih =>
    show (plantOutputs (fs.plant (directory ++ first.names.map Loose.whole) _) directory
      rest).device = _
    rw [ih, Files.device_plant]

theorem device_execute (h : execute fs env command = .ok (completed, fs')) :
    fs'.device = fs.device := by
  obtain ⟨place, runs, played, outputs, -, -, rfl⟩ := exists_of_execute h
  exact device_plantOutputs _ _ _

/-- What a command that was played has made in the directory is told by texts. -/
theorem standing_of_execute {d : Decompiler} {w : World} {rel : Place}
    (hcommand : d.command w Decompiler.outputDirectory = .ok command)
    (h : execute fs env command = .ok (completed, fs'))
    (hstands : fs'.node? (Decompiler.outputDirectory.parts ++ rel) ≠ none) :
    fs.node? (Decompiler.outputDirectory.parts ++ rel) ≠ none ∨
      ∃ names : List String, rel = names.map Loose.whole := by
  obtain ⟨place, runs, played, outputs, hnode, -, rfl⟩ := exists_of_execute h
  rcases standing_of_plantOutputs outputs hstands with hbefore | ⟨names, hway⟩
  · rw [Files.node?_set] at hbefore
    split at hbefore
    · next hplace =>
      rw [← hplace]
      exact .inl (ne_of_eq_of_ne hnode (Option.some_ne_none _))
    · exact .inl hbefore
  · rw [directory_of_commandFor hcommand, List.prefix_append_right_inj] at hway
    refine .inr ⟨names.take rel.length, ?_⟩
    calc
      rel = (names.map Loose.whole).take rel.length := List.prefix_iff_eq_take.1 hway
      _ = (names.take rel.length).map Loose.whole := List.map_take.symm

/-- A command that was played has changed nothing outside the directory that it names, but for how
often its program was run. -/
theorem kept_execute {d : Decompiler} {w : World} {q : Place}
    (hcommand : d.command w Decompiler.outputDirectory = .ok command)
    (h : execute fs env command = .ok (completed, fs')) (hq : ¬ q.IsTemporary)
    (log : Option Place) : Files.Kept log q (fs.node? q) (fs'.node? q) := by
  have hdirectory := directory_of_commandFor hcommand
  obtain ⟨program, words, hanchor, rfl⟩ := exists_of_commandFor hcommand
  obtain ⟨place, runs, played, outputs, hnode, ⟨found, node, hexecutable⟩, rfl⟩ :=
    exists_of_execute h
  have hroot : fs.node? [] ≠ none := by
    obtain ⟨hlocate, hfound⟩ := Files.exists_of_executableAt hexecutable
    exact Files.root_of_locate (Path.anchor_ofLoose_toLoose hanchor) hlocate
      (hfound ▸ Option.some_ne_none node)
  have hset (q : Place) : Files.Kept log q (fs.node? q)
      ((fs.set place (.program runs (played + 1))).node? q) := by
    rw [Files.node?_set]
    split
    · next hplace =>
      rw [← hplace, hnode]
      exact .played runs played (played + 1)
    · exact .logged (.same _)
  have hrooted : (fs.set place (.program runs (played + 1))).node? [] ≠ none := by
    rw [Files.node?_set]
    split
    · exact nofun
    · exact hroot
  rw [hdirectory, node?_plantOutputs hrooted (List.prefix_refl _) outputs hq]
  exact hset q

end Engine

/-! ## Engines -/

namespace World

variable {w w₁ w₂ : World}

theorem Keeps.of_logs (h : w.Logs w₁) : w.Keeps w₁ :=
  ⟨h.logFile, h.files.device, fun place _ => .logged (h.files.node place)⟩

theorem Keeps.trans (h₁ : w.Keeps w₁) (h₂ : w₁.Keeps w₂) : w.Keeps w₂ := by
  refine ⟨h₂.logFile.trans h₁.logFile, h₂.device.trans h₁.device,
    fun place hplace => (h₁.files place hplace).trans ?_⟩
  have hlog : w₁.logPlace = w.logPlace := by
    rw [logPlace, logPlace, h₁.logFile]
  exact hlog ▸ h₂.files place hplace

theorem Keeps.of_files {files : Files} (hdevice : files.device = w.files.device)
    (h : ∀ place : Place, ¬ place.IsTemporary →
      Files.Kept w.logPlace place (w.files.node? place) (files.node? place)) :
    w.Keeps { w with files } := ⟨rfl, hdevice, h⟩

theorem logs_noteAll (w : World) (records : List Log.Record) : w.Logs (w.noteAll records) := by
  induction records generalizing w with
  | nil => exact .refl w
  | cons record rest ih => exact (w.logs_note record).trans (ih (w.note record))

end World

namespace Decompiler

variable {d : Decompiler} {w : World}

theorem keeps_close (d : Decompiler) (w : World) : w.Keeps (d.close w).1 := by
  unfold close
  dsimp only
  split
  · refine .of_files rfl fun place hplace => ?_
    rw [Files.node?_removeTree_of_not_prefix hplace]
    exact .logged (.same _)
  · exact .of_logs (.refl w)

theorem keeps_launch (d : Decompiler) (w : World) : w.Keeps (d.launch w).1 := by
  have hemptied : w.Keeps { (d.close w).1 with
      files := ((d.close w).1.files.removeTree outputDirectory.parts).set outputDirectory.parts
        .directory } := by
    refine (d.keeps_close w).trans (.of_files rfl fun place hplace => ?_)
    have hne : outputDirectory.parts ≠ place := by
      rintro rfl
      exact hplace (List.prefix_refl _)
    rw [Files.node?_set, if_neg hne, Files.node?_removeTree_of_not_prefix hplace]
    exact .logged (.same _)
  unfold launch
  dsimp only
  split
  · exact hemptied
  · next command hcommand =>
    have hstarted := hemptied.trans
      (.of_logs (World.logs_note _ ⟨.info, .engine, Engine.startText command⟩))
    split
    · exact hstarted
    · next completed files hexecute =>
      have hplayed := hstarted.trans (.of_files (Engine.device_execute hexecute)
        fun place hplace => Engine.kept_execute hcommand hexecute hplace _)
      exact hplayed.trans (.of_logs (World.logs_noteAll _ (Engine.outputRecords completed.stdout)))

/-- Below the directory of a run, everything is told by texts, but for the file of the log. -/
theorem exists_names_of_launch {rel : Place}
    (hlog : w.logPlace ≠ some (outputDirectory.parts ++ rel))
    (h : (d.launch w).1.files.node? (outputDirectory.parts ++ rel) ≠ none) :
    ∃ names : List String, rel = names.map Loose.whole := by
  let emptied : World := { (d.close w).1 with
    files := ((d.close w).1.files.removeTree outputDirectory.parts).set outputDirectory.parts
      .directory }
  have hemptied : emptied.logFile = w.logFile := (d.keeps_close w).logFile
  have hkept {w₁ w₂ : World} (hfile : w₁.logFile = w.logFile) (hlogs : w₁.Logs w₂) :
      w₂.files.node? (outputDirectory.parts ++ rel) =
        w₁.files.node? (outputDirectory.parts ++ rel) := by
    refine (hlogs.files.node _).eq_of_ne ?_
    rw [World.logPlace, hfile]
    exact hlog
  have hempty (h : emptied.files.node? (outputDirectory.parts ++ rel) ≠ none) :
      ∃ names : List String, rel = names.map Loose.whole := by
    refine ⟨[], Classical.byContradiction fun hrel => h ?_⟩
    have hne : outputDirectory.parts ≠ outputDirectory.parts ++ rel := fun heq =>
      hrel (List.self_eq_append_right.1 heq)
    rw [Files.node?_set, if_neg hne,
      Files.node?_removeTree_of_prefix (List.prefix_append _ _)]
  unfold launch at h
  dsimp only at h
  split at h
  · exact hempty h
  · next command hcommand =>
    let begun := emptied.note ⟨.info, .engine, Engine.startText command⟩
    have hbegun : emptied.Logs begun := emptied.logs_note _
    have hstood (h : begun.files.node? (outputDirectory.parts ++ rel) ≠ none) :=
      hempty (hkept hemptied hbegun ▸ h)
    split at h
    · exact hstood h
    · next completed files hexecute =>
      let ended : World := { begun with files }
      have hended : ended.Logs (ended.noteAll (Engine.outputRecords completed.stdout)) :=
        ended.logs_noteAll _
      have hfile : ended.logFile = w.logFile := hbegun.logFile.trans hemptied
      have hmade : files.node? (outputDirectory.parts ++ rel) ≠ none := hkept hfile hended ▸ h
      exact (Engine.standing_of_execute hcommand hexecute hmade).elim hstood id

/-- So the way to a file of a run is a whole text, and a class that is named by it has its name
without a loss. -/
theorem joined_of_launch {rel : Place} (hlog : w.logPlace ≠ some (outputDirectory.parts ++ rel))
    (h : (d.launch w).1.files.node? (outputDirectory.parts ++ rel) ≠ none) :
    Path.joined rel = .whole (Path.joined rel).text := by
  obtain ⟨names, rfl⟩ := exists_names_of_launch hlog h
  obtain ⟨s, hs⟩ := Path.exists_joined_map_whole names
  rw [hs]
  rfl

theorem keeps_decompile (d : Decompiler) (w : World) : w.Keeps (d.decompile w).1 := by
  by_cases hsources : d.sources = []
  · rw [decompile_of_no_archive hsources]
    exact .of_logs (.refl w)
  · rw [world_decompile hsources]
    exact d.keeps_launch w

/-- A decompiler that has no source is not run. -/
theorem decompile_of_not_running (h : (d.decompile w).2.1.running = false) :
    (d.decompile w).1 = w ∧ d.running = false := by
  by_cases hsources : d.sources = []
  · rw [decompile_of_no_archive hsources] at h ⊢
    exact ⟨rfl, h⟩
  · rcases decompile_cases hsources w with ⟨w', e, hfails⟩ | ⟨w', locations, acts, hends⟩
    · rw [hfails] at h
      cases h
    · rw [hends] at h
      cases h

end Decompiler

namespace Engine

variable {e : Engine} {w : World} {place : Place}

theorem keeps_close (e : Engine) (w : World) : w.Keeps (e.close w).1 := by
  have htrace : w.Keeps (e.trace w .close) := .of_logs ⟨rfl, .refl _ _⟩
  unfold close
  dsimp only
  split
  · exact htrace
  · next d _ => exact htrace.trans (d.keeps_close _)

theorem keeps_decompile (e : Engine) (w : World) : w.Keeps (e.decompile w).1 := by
  have htrace : w.Keeps (e.trace w .decompile) := .of_logs ⟨rfl, .refl _ _⟩
  unfold decompile
  dsimp only
  split
  · exact htrace
  · next d _ => exact htrace.trans (d.keeps_decompile _)

theorem decompile_of_not_running (h : (e.decompile w).2.1.isRunning = false) :
    (e.decompile w).1.files = w.files ∧ e.isRunning = false := by
  unfold decompile at h ⊢
  dsimp only at h ⊢
  split
  · next hscript => exact ⟨rfl, by rw [isRunning, hscript]⟩
  · next d hd =>
    simp only [hd, isRunning] at h
    obtain ⟨hsame, hidle⟩ := Decompiler.decompile_of_not_running h
    refine ⟨?_, by simp only [isRunning, hd, hidle]⟩
    show (d.decompile (e.trace w .decompile)).1.files = w.files
    rw [hsame]
    rfl

/-- Closing an engine that has run the decompiler removes what that has made. -/
theorem node?_close_of_running (h : e.isRunning = true) (w : World) (hplace : place.IsTemporary) :
    (e.close w).1.files.node? place = none := by
  cases hmachine : e.machine with
  | script script =>
    rw [isRunning, hmachine] at h
    cases h
  | decompiler d =>
    have hrunning : d.running = true := by
      rwa [isRunning, hmachine] at h
    simp only [close, hmachine, Decompiler.close, hrunning, if_true]
    exact Files.node?_removeTree_of_prefix hplace _

theorem files_close_of_not_running (h : e.isRunning = false) (w : World) :
    (e.close w).1.files = w.files := by
  unfold close
  unfold isRunning at h
  dsimp only
  split
  · rfl
  · next d hd =>
    simp only [hd] at h
    simp only [Decompiler.close, h]
    rfl

/-- An engine that is given an archive changes no file, and does not run. -/
theorem addSource_keeps (e : Engine) (w : World) (archive : Path) :
    w.Logs (e.addSource w archive).1 ∧ (e.addSource w archive).2.1.isRunning = e.isRunning := by
  unfold addSource
  dsimp only
  split
  · exact ⟨⟨rfl, .refl _ _⟩, rfl⟩
  · next d hd =>
    split
    · next d' hadd =>
      refine ⟨⟨rfl, .refl _ _⟩, ?_⟩
      obtain ⟨source, rfl⟩ := Decompiler.addSource_eq_ok hadd
      simp only [isRunning, hd]
    · exact ⟨⟨rfl, .refl _ _⟩, rfl⟩

end Engine

/-- An engine that is made changes no file, and does not run. -/
theorem Factory.make_keeps {f : Factory} {w w' : World} {made : Except Thrown Engine}
    (h : f.make w = (w', made)) : w.Logs w' ∧ ∀ e, made = .ok e → e.isRunning = false := by
  cases f with
  | broken t =>
    cases h
    exact ⟨.refl w, nofun⟩
  | _ =>
    cases h
    refine ⟨⟨rfl, .refl _ _⟩, ?_⟩
    rintro e ⟨⟩
    rfl

end ClassBrowser
