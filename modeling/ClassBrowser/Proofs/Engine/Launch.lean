import ClassBrowser.Engine.Decompiler
import ClassBrowser.Proofs.Assoc
import ClassBrowser.Proofs.Files.Entries
import ClassBrowser.Proofs.Files.Places

/-!
# Runs of the external decompiler

What the decompiler makes of one archive.  A run has two halves: the process is started and plays to
its end (`launch`), and then what it left is looked through (`gather`); a failure of either is that
of the run (`decompile_eq`).

Where the process has left an archive in which every entry has a name and every text can be read,
each class is reported once, with the text of its last entry (`gather_archive`).  An entry without a
name makes the whole run fail (`gather_nameless`).
-/

namespace ClassBrowser

namespace Act

variable {act : Act} {acts : List Act}

theorem mem_of_mem_performed (h : act ∈ performed acts) : act ∈ acts := by
  induction acts with
  | nil => exact h
  | cons first rest ih =>
    cases first with
    | throw t =>
      obtain rfl := List.mem_singleton.1 h
      exact List.mem_cons_self
    | _ =>
      obtain heq | hmem := List.mem_cons.1 h
      · exact List.mem_cons.2 (.inl heq)
      · exact List.mem_cons_of_mem _ (ih hmem)

/-- What comes behind acts of which none throws is performed as on its own. -/
theorem performed_append (h : ∀ t, .throw t ∉ acts) (more : List Act) :
    performed (acts ++ more) = acts ++ performed more := by
  induction acts with
  | nil => rfl
  | cons act rest ih =>
    have hrest := ih fun t ht => h t (List.mem_cons_of_mem _ ht)
    cases act with
    | throw t => exact absurd List.mem_cons_self (h t)
    | _ => exact congrArg _ hrest

/-- Acts of which none throws are all performed. -/
theorem performed_of_calm (h : ∀ t, .throw t ∉ acts) : performed acts = acts := by
  simpa [performed] using performed_append h []

end Act

namespace Decompiler

variable {d : Decompiler} {w w' : World} {fs : Files} {name entry : String} {source : Path}
  {completed : Engine.Completed} {entries : Entries}

/-! ## The two halves of a run -/

/-- The decompiler at the start of a run. -/
def started (d : Decompiler) : Decompiler := { d with running := true, locations := [] }

/-- Starts the process in an empty directory and lets it play to its end. -/
def launch (d : Decompiler) (w : World) : World × Except EngineError Engine.Completed :=
  let w := (d.close w).1
  let files := (w.files.removeTree outputDirectory.parts).set outputDirectory.parts .directory
  let w := { w with files }
  match d.started.command w outputDirectory with
  | .error e => (w, .error e)
  | .ok command =>
    let w := w.note ⟨.info, .engine, Engine.startText command⟩
    match Engine.execute w.files w.env command with
    | .error e => (w, .error e)
    | .ok (completed, files) =>
      ({ w with files }.noteAll (Engine.outputRecords completed.stdout), .ok completed)

/-- Looks through what the process has left, and gives the acts that report it. -/
def gather (d : Decompiler) (w : World) (completed : Engine.Completed) :
    Decompiler × Except EngineError (List Act) :=
  match Engine.failure? completed d.sources with
  | some e => (d, .error e)
  | none => match collect w.files outputDirectory.parts d.sources with
    | .error e => (d, .error (.archive e))
    | .ok [] => (d, .error (.noSources completed.stdout completed.stderr))
    | .ok locations => ({ d with locations }, .ok ({ d with locations }.reports w.files))

theorem decompile_eq (h : d.sources ≠ []) :
    d.decompile w = match d.launch w with
      | (w, .error e) => (w, d.started, .error e)
      | (w, .ok completed) => (w, d.started.gather w completed) := by
  have hsources : d.sources.isEmpty = false := by
    simpa using h
  unfold decompile launch
  rw [hsources]
  dsimp only [close, started]
  cases command _ _ outputDirectory with
  | error e => rfl
  | ok command =>
    dsimp only
    cases Engine.execute _ _ command with
    | error e => rfl
    | ok result =>
      obtain ⟨completed, files⟩ := result
      dsimp only [gather]
      cases Engine.failure? completed d.sources with
      | some e => rfl
      | none =>
        dsimp only
        cases collect _ outputDirectory.parts d.sources with
        | error e => rfl
        | ok locations => cases locations <;> rfl

theorem failure?_eq_none (h : completed.exitCode = 0) (sources : List Path) :
    Engine.failure? completed sources = none := by
  rw [Engine.failure?, if_pos h]

/-- A process that ends with another exit code than 0 makes the run fail. -/
theorem gather_of_exitCode (h : completed.exitCode ≠ 0) (w : World) :
    d.gather w completed = (d, .error (.failed (d.sources.map (·.name.text))
      (Engine.failureLines completed.stdout ++ Engine.failureLines completed.stderr)
      completed.exitCode completed.stdout completed.stderr)) := by
  rw [gather, Engine.failure?, if_neg h]

/-! ## The place of what was made -/

/-- Where the process leaves what it makes of an archive. -/
def outputOf (source : Path) : Path := ⟨.root, outputDirectory.parts ++ [source.name]⟩

/-- Where a class lies in the archive that the process leaves. -/
def locationIn (source : Path) (n : String) : Location :=
  ⟨outputOf source, some (n ++ sourceSuffix)⟩

theorem node?_outputOf (h : fs.openZip (outputOf source) = .ok (.ok entries)) :
    ∃ executable, fs.node? (outputDirectory.parts ++ [source.name]) =
      some (.file (.zip entries) executable) := by
  obtain ⟨executable, hget⟩ := Files.get_of_openZip h
  obtain ⟨place, hlocate, hnode⟩ := Files.exists_locate_of_get hget
  refine ⟨executable, ?_⟩
  have hwalk : fs.walk (outputOf source) [] ["OUT", source.name] = .ok place :=
    Files.walk_of_locate hlocate
  obtain ⟨hroot, -, hinside⟩ := Files.walk_cons_eq_ok_iff.1 hwalk
  obtain ⟨-, -, hend⟩ := Files.walk_cons_eq_ok_iff.1 hinside
  have hplace : place = Path.step ["OUT"] source.name := (Except.ok.inj hend).symm
  by_cases hup : source.name = .whole ".."
  · -- up from the directory there is the root, which is no archive
    rw [hplace, Path.step, if_pos hup] at hnode
    cases hroot.symm.trans hnode
  · rw [hplace, Path.step, if_neg hup] at hnode
    exact hnode

/-! ## What a run reports -/

theorem classOf_append (n : String) : classOf (n ++ sourceSuffix) = n := by
  rw [classOf, Text.dropEnding?_eq_some_iff.2 rfl]
  rfl

/-- The text of a class in an archive that was left. -/
def classText (entries : Entries) (n : String) : String :=
  Text.Utf8.decodeLossy
    (((Archive.lastEntry? entries (n ++ sourceSuffix)).bind Except.toOption).getD .empty)

/-- Whether the program texts in an archive can be read: of each name the last. -/
def IsReadable (entries : Entries) : Prop :=
  ∀ n held, Archive.IsLast entries (n ++ sourceSuffix, held) → ∃ data, held = .ok data

theorem isReadable_sound (entries : List (String × ByteArray)) : IsReadable (.sound entries) := by
  intro n held hlast
  obtain ⟨e, -, he⟩ := List.mem_map.1 hlast.mem
  exact ⟨e.2, (Prod.mk.inj he).2.symm⟩

theorem hasSuffix_not_directory (n : String) :
    (!Archive.isDirectoryEntry (n ++ sourceSuffix) &&
      Archive.hasSuffix sourceSuffix (n ++ sourceSuffix)) = true := by
  have hlast : (n ++ sourceSuffix).toList.getLast? = some 'a' := by
    rw [String.toList_append, List.getLast?_append]
    rfl
  rw [Archive.isDirectoryEntry, hlast, Archive.hasSuffix_iff.2 ⟨n, rfl⟩]
  rfl

theorem fromArchive_of_named (h : ∀ e ∈ entries, e.1 ≠ "") (source : Path) :
    ∃ found, fromArchive (outputOf source) entries = .ok found ∧
      (∀ p ∈ found, p.2 = locationIn source p.1) ∧
      ∀ n, n ∈ found.map Prod.fst ↔ n ++ sourceSuffix ∈ entries.map Prod.fst := by
  have hlisted : Archive.filesWithSuffix sourceSuffix entries = .ok _ :=
    Archive.filesWithSuffix_of_named h
  refine ⟨_, by rw [fromArchive, hlisted]; rfl, ?_, fun n => ?_⟩
  · intro p hp
    obtain ⟨e, he, rfl⟩ := List.mem_map.1 hp
    obtain ⟨-, hkept⟩ := List.mem_filter.1 he
    obtain ⟨n, rfl⟩ := Archive.hasSuffix_iff.1 (Bool.and_eq_true_iff.1 hkept).2
    rw [classOf_append]
    rfl
  · rw [List.map_map]
    constructor
    · intro hn
      obtain ⟨e, he, rfl⟩ := List.mem_map.1 hn
      obtain ⟨hmem, hkept⟩ := List.mem_filter.1 he
      obtain ⟨n, rfl⟩ := Archive.hasSuffix_iff.1 (Bool.and_eq_true_iff.1 hkept).2
      show classOf (n ++ sourceSuffix) ++ sourceSuffix ∈ _
      rw [classOf_append]
      exact hmem
    · intro hmem
      refine List.mem_map.2 ⟨n ++ sourceSuffix, List.mem_filter.2 ⟨hmem, ?_⟩, classOf_append n⟩
      exact hasSuffix_not_directory n

theorem fromSource_of_archive {output : Place} {executable : Bool}
    (h : fs.node? (output ++ [source.name]) = some (.file (.zip entries) executable)) :
    fromSource fs output source = fromArchive ⟨.root, output ++ [source.name]⟩ entries := by
  unfold fromSource
  simp only [h]

theorem collect_singleton (h : fs.openZip (outputOf source) = .ok (.ok entries)) :
    collect fs outputDirectory.parts [source] =
      (fromArchive (outputOf source) entries).map (Assoc.insertAll []) := by
  obtain ⟨executable, hnode⟩ := node?_outputOf h
  have hsource : fromSource fs outputDirectory.parts source =
      fromArchive (outputOf source) entries := fromSource_of_archive hnode
  have hfound : [source].mapM (fromSource fs outputDirectory.parts) =
      (fromArchive (outputOf source) entries).map fun found => [found] := by
    rw [List.mapM_cons, List.mapM_nil, hsource]
    cases fromArchive (outputOf source) entries <;> rfl
  rw [collect, hfound]
  cases fromArchive (outputOf source) entries with
  | error e => rfl
  | ok found =>
    show Except.ok (Assoc.insertAll [] [found].flatten) = Except.ok _
    rw [List.flatten_singleton]

/-- A class in an archive that was left has the text of its last entry. -/
theorem textOf_eq {locations : Assoc String Location}
    (hleft : fs.openZip (outputOf source) = .ok (.ok entries)) (hreadable : IsReadable entries)
    (hlocation : locations.get? name = some (locationIn source name))
    (hentry : name ++ sourceSuffix ∈ entries.map Prod.fst) :
    textOf { d with locations } fs name = some (.ok (classText entries name)) := by
  obtain ⟨held, hlast⟩ := Archive.exists_isLast hentry
  obtain ⟨data, rfl⟩ := hreadable name held hlast
  have hfound := Archive.isLast_iff.2 hlast
  have hread : Archive.read fs (outputOf source) (some (name ++ sourceSuffix)) = .ok data := by
    rw [Archive.read, Archive.readMember, hleft]
    dsimp only
    rw [hfound]
    rfl
  unfold textOf
  dsimp only
  rw [hlocation, Option.map_some]
  dsimp only [locationIn]
  rw [hread, classText, hfound]
  rfl

/-- A run that has left an archive reports each class in it once, with its last text. -/
theorem gather_archive (hsources : d.sources = [source]) (hexit : completed.exitCode = 0)
    (hleft : w.files.openZip (outputOf source) = .ok (.ok entries))
    (hnamed : ∀ e ∈ entries, e.1 ≠ "") (hreadable : IsReadable entries)
    (hsome : ∃ n, n ++ sourceSuffix ∈ entries.map Prod.fst) :
    ∃ names : List String, names.Nodup ∧
      (∀ n, n ∈ names ↔ n ++ sourceSuffix ∈ entries.map Prod.fst) ∧
      ∃ d', d.gather w completed = (d', .ok (.total names.length ::
        names.map fun n => .unit n (some (classText entries n)))) := by
  obtain ⟨found, hfound, hvalues, hnames⟩ := fromArchive_of_named hnamed source
  have hcollect : collect w.files outputDirectory.parts d.sources =
      .ok (Assoc.insertAll [] found) := by
    rw [hsources, collect_singleton hleft, hfound]
    rfl
  generalize hlocations : Assoc.insertAll [] found = locations at hcollect
  have hget : ∀ n, locations.get? n =
      if n ∈ found.map Prod.fst then some (locationIn source n) else none := by
    intro n
    rw [← hlocations]
    exact Assoc.get?_insertAll hvalues [] n
  have hkeys : ∀ n, n ∈ locations.keys ↔ n ++ sourceSuffix ∈ entries.map Prod.fst := by
    intro n
    rw [Assoc.mem_keys_iff, hget, ← hnames]
    by_cases hn : n ∈ found.map Prod.fst <;> simp [hn]
  have hne : locations ≠ [] := by
    rintro rfl
    obtain ⟨n, hn⟩ := hsome
    exact absurd ((hkeys n).2 hn) (by simp [Assoc.keys])
  have hreports : reports { d with locations } w.files = .total locations.keys.length ::
      locations.keys.map fun n => .unit n (some (classText entries n)) := by
    have hreport : ∀ n ∈ locations.keys,
        report { d with locations } w.files n = [.unit n (some (classText entries n))] := by
      intro n hn
      have hentry := (hkeys n).1 hn
      have hlocation : locations.get? n = some (locationIn source n) := by
        rw [hget, if_pos ((hnames n).2 hentry)]
      rw [report, textOf_eq hleft hreadable hlocation hentry]
    have hcalm : ∀ t, .throw t ∉
        locations.keys.map fun n => Act.unit n (some (classText entries n)) := by
      simp
    calc
      reports { d with locations } w.files = .total locations.length ::
          Act.performed (locations.keys.map fun n => .unit n (some (classText entries n))) := by
        rw [reports, List.flatMap_congr hreport, ← List.map_eq_flatMap]
      _ = .total locations.keys.length ::
          locations.keys.map fun n => .unit n (some (classText entries n)) := by
        rw [Act.performed_of_calm hcalm, Assoc.keys, List.length_map]
  refine ⟨locations.keys, ?_, hkeys, { d with locations }, ?_⟩
  · rw [← hlocations]
    exact Assoc.nodup_keys_insertAll (by simp [Assoc.keys]) found
  · unfold gather
    rw [failure?_eq_none hexit, hcollect, ← hreports]
    dsimp only
    cases locations with
    | nil => exact absurd rfl hne
    | cons p rest => rfl

/-- A run that has left an archive with a nameless entry fails. -/
theorem gather_nameless (hsources : d.sources = [source]) (hexit : completed.exitCode = 0)
    (hleft : w.files.openZip (outputOf source) = .ok (.ok entries))
    {e : String × Except ZipFault ByteArray} (he : e ∈ entries) (hname : e.1 = "") :
    d.gather w completed = (d, .error (.archive .namelessEntry)) := by
  have hcollect : collect w.files outputDirectory.parts d.sources = .error .namelessEntry := by
    rw [hsources, collect_singleton hleft, fromArchive,
      Archive.filesWithSuffix_of_nameless he hname]
    rfl
  unfold gather
  rw [failure?_eq_none hexit, hcollect]

end Decompiler

end ClassBrowser
