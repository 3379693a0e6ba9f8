import ClassBrowser.Proofs.Engine.Failures
import ClassBrowser.Proofs.Task.EngineRuns

/-!
# Failed runs of the decompiler

A run of the decompiler reports nothing, or it reports all that it has collected: first the total,
and then each class at most once (`Decompiler.AllOrNothing`).  There is one exception: where the
text of a class cannot be read and the reason is not expected, the report breaks off at that class
(`Decompiler.BreaksOff`).  So a task whose decompiler fails sends nothing but the failure and leaves
nothing in the store, unless the report has broken off (`decompile_all_or_nothing`).

Not every failure is reported as a fault of the engine, and what escapes is known exactly
(`Decompiler.Escapes`); the name of a tool may just be too long (`exists_failure_unreported`).
-/

namespace ClassBrowser

namespace Decompiler

variable {d : Decompiler} {w : World} {fs : Files} {act : Act}

/-- What the decompiler does when it is asked to decompile. -/
def acts (d : Decompiler) (w : World) : List Act :=
  match (d.decompile w).2.2 with
  | .ok acts => acts
  | .error e => [.throw (.engine e)]

/-- Whether a run breaks off while it reports what it has collected. -/
def BreaksOff (d : Decompiler) (w : World) : Prop :=
  ∃ w' d' acts name, d.decompile w = (w', d', .ok acts) ∧ d'.Breaks w'.files name

/-! ## Reports -/

/-- What is reported of a class that can be reported. -/
inductive IsReport : Act → Prop
  | unit (name text : String) : IsReport (.unit name (some text))
  | note (record : Log.Record) : IsReport (.note record)

variable {names : List String} {reported : List Act}

theorem isReport_of_mem_flatMap (h : ∀ name ∈ names, ¬ d.Breaks fs name)
    (hact : act ∈ names.flatMap (d.report fs)) : IsReport act := by
  obtain ⟨name, hname, hact⟩ := List.mem_flatMap.1 hact
  obtain ⟨e, htext, hunreported, -⟩ | ⟨-, ⟨text, -, hreport⟩ |
    ⟨-, hreport | ⟨record, hreport⟩⟩⟩ := d.report_cases fs name
  · exact absurd ⟨e, htext, hunreported⟩ (h name hname)
  · rw [hreport] at hact
    obtain rfl := List.mem_singleton.1 hact
    exact .unit _ _
  · rw [hreport] at hact
    cases hact
  · rw [hreport] at hact
    obtain rfl := List.mem_singleton.1 hact
    exact .note _

theorem classes_report (d : Decompiler) (fs : Files) (name : String) :
    ((Act.classes (d.report fs name)).map Prod.fst).Sublist [name] := by
  obtain ⟨e, -, -, hreport⟩ | ⟨-, ⟨text, -, hreport⟩ | ⟨-, hreport | ⟨record, hreport⟩⟩⟩ :=
    d.report_cases fs name
  all_goals simp [hreport, Act.classes, Act.class?]

/-- Each name is reported at most once, in the order of the names. -/
theorem classes_flatMap_report (d : Decompiler) (fs : Files) (names : List String) :
    ((Act.classes (names.flatMap (d.report fs))).map Prod.fst).Sublist names := by
  induction names with
  | nil => exact .refl _
  | cons name rest ih =>
    rw [List.flatMap_cons, Act.classes, List.filterMap_append, List.map_append]
    exact (classes_report d fs name).append ih

/-- Classes that are reported one after the other, each at most once, and nothing else. -/
structure AreReports (locations : Assoc String Location) (reported : List Act) : Prop where
  reports : ∀ act ∈ reported, IsReport act
  names : ((Act.classes reported).map Prod.fst).Sublist locations.keys

theorem areReports_flatMap (hcalm : ∀ name ∈ names, ¬ d.Breaks fs name)
    (hnames : names.Sublist d.locations.keys) :
    AreReports d.locations (names.flatMap (d.report fs)) :=
  ⟨fun _ => isReport_of_mem_flatMap hcalm, (classes_flatMap_report d fs names).trans hnames⟩

/-- What comes behind reports is performed as on its own. -/
theorem ofActs_append (h : ∀ act ∈ reported, IsReport act) (rest : List Act) :
    EngineRun.ofActs (reported ++ rest) =
      ⟨reported ++ (EngineRun.ofActs rest).acts, (EngineRun.ofActs rest).ending⟩ := by
  induction reported with
  | nil => rfl
  | cons act reported ih =>
    have hrest := ih fun a ha => h a (List.mem_cons_of_mem _ ha)
    cases h act List.mem_cons_self <;> simp only [List.cons_append, EngineRun.ofActs, hrest]

theorem ofActs_total (count : Int) (rest : List Act) : EngineRun.ofActs (.total count :: rest) =
    ⟨.total count :: (EngineRun.ofActs rest).acts, (EngineRun.ofActs rest).ending⟩ := rfl

/-! ## Runs -/

/-- The three ways in which a run ends: it has failed, it has reported all, or it has broken off. -/
inductive Ends (d : Decompiler) (w : World) : List Act → Prop
  | failed {e : EngineError} (houtcome : (d.decompile w).2.2 = .error e) :
    Ends d w [.throw (.engine e)]
  | whole {locations : Assoc String Location} {reported : List Act} (hcalm : ¬ d.BreaksOff w)
    (hcollect : collect (d.decompile w).1.files outputDirectory.parts d.sources = .ok locations)
    (hreported : AreReports locations reported) :
    Ends d w (.total locations.keys.length :: reported)
  | broken {locations : Assoc String Location} {reported : List Act} {e : ArchiveError}
    (hbreaks : d.BreaksOff w)
    (hcollect : collect (d.decompile w).1.files outputDirectory.parts d.sources = .ok locations)
    (hreported : AreReports locations reported) (hunreported : e.isReported = false) :
    Ends d w (.total locations.keys.length :: reported ++ [.throw (.engine (.archive e))])

theorem ends_acts (d : Decompiler) (w : World) : Ends d w (d.acts w) := by
  rcases hrun : d.decompile w with ⟨w', d', outcome⟩
  cases outcome with
  | error e =>
    have houtcome : (d.decompile w).2.2 = .error e := by rw [hrun]
    rw [acts, houtcome]
    exact .failed houtcome
  | ok acts =>
    obtain ⟨-, -, -, -, hcollect, rfl⟩ := exists_of_decompile hrun
    have hacts : d.acts w = d'.reports w'.files := by rw [Decompiler.acts, hrun]
    have hcollect : collect (d.decompile w).1.files outputDirectory.parts d.sources =
        .ok d'.locations := by rw [hrun]; exact hcollect
    have hbreaks : d.BreaksOff w ↔ ∃ name, d'.Breaks w'.files name := by
      constructor
      · rintro ⟨w'', d'', acts, name, hrun', hname⟩
        cases hrun.symm.trans hrun'
        exact ⟨name, hname⟩
      · rintro ⟨name, hname⟩
        exact ⟨w', d', _, name, hrun, hname⟩
    have hlength : d'.locations.length = d'.locations.keys.length := (List.length_map _).symm
    rw [hacts]
    generalize hreports : d'.reports w'.files = reports
    have hreporting := hreports ▸ d'.reporting w'.files
    cases hreporting with
    | whole hcalm =>
      rw [hlength]
      refine .whole ?_ hcollect (areReports_flatMap hcalm (.refl _))
      rw [hbreaks]
      rintro ⟨name, hname⟩
      exact hcalm name hname.mem_keys hname
    | @broken before behind name e hkeys hcalm htext hunreported =>
      have hbefore : before.Sublist d'.locations.keys := by
        rw [hkeys]
        exact List.sublist_append_left _ _
      rw [hlength]
      exact .broken (hbreaks.2 ⟨name, e, htext, hunreported⟩) hcollect
        (areReports_flatMap hcalm hbefore) hunreported

/-- Whether a run reports nothing, failing for a known cause or another one, or all, or breaks off
at a text that cannot be read. -/
structure AllOrNothing (d : Decompiler) (w : World) : Prop where
  /-- A run that throws does nothing else, unless its report breaks off. -/
  nothing_of_throw : (∃ t, .throw t ∈ d.acts w ∨ .abort t ∈ d.acts w) → ¬ d.BreaksOff w →
    (∀ name text, .unit name text ∉ d.acts w) ∧ ∀ count, .total count ∉ d.acts w
  fails : ∀ streams, Cause d w streams → ∃ e, d.acts w = [.throw (.engine e)] ∧
    (e.isReported = true ↔ ¬ Escapes d w) ∧ (e.isReported = true → e.streams? = streams)
  reports : (∀ t, .throw t ∉ d.acts w) → ∃ locations rest,
    collect (d.decompile w).1.files outputDirectory.parts d.sources = .ok locations ∧
    locations.keys.Nodup ∧ d.acts w = .total locations.keys.length :: rest ∧
    (∀ count, .total count ∉ rest) ∧
    ((Act.classes rest).map Prod.fst).Sublist locations.keys
  /-- A report that breaks off has told the total and some classes by then, each at most once, and
  what it throws is not reported as a fault of the engine. -/
  breaks : d.BreaksOff w → ∃ locations rest e,
    collect (d.decompile w).1.files outputDirectory.parts d.sources = .ok locations ∧
    locations.keys.Nodup ∧
    d.acts w = .total locations.keys.length :: rest ++ [.throw (.engine (.archive e))] ∧
    e.isReported = false ∧ (∀ count, .total count ∉ rest) ∧ (∀ t, .throw t ∉ rest) ∧
    ((Act.classes rest).map Prod.fst).Sublist locations.keys

theorem not_isReport_total (count : Int) : ¬ IsReport (.total count) := nofun

theorem not_isReport_throw (t : Thrown) : ¬ IsReport (.throw t) := nofun

theorem not_isReport_abort (t : Thrown) : ¬ IsReport (.abort t) := nofun

theorem allOrNothing (d : Decompiler) (w : World) : AllOrNothing d w := by
  refine ⟨?nothing, ?fails, ?reports, ?breaks⟩
  case nothing =>
    rintro ⟨t, ht⟩ hcalm
    generalize hacts : d.acts w = acts at ht ⊢
    have hends := hacts ▸ d.ends_acts w
    cases hends with
    | failed => simp
    | whole _ _ hreported =>
      obtain ht | ht := ht
      · exact absurd (hreported.reports _ (by simpa using ht)) (not_isReport_throw t)
      · exact absurd (hreported.reports _ (by simpa using ht)) (not_isReport_abort t)
    | broken hbreaks => exact absurd hbreaks hcalm
  case fails =>
    intro streams hcause
    obtain ⟨e, houtcome, hfails⟩ := hcause.failsWith
    refine ⟨e, ?_, hfails⟩
    rw [acts, houtcome]
  case reports =>
    intro hthrow
    generalize hacts : d.acts w = acts at hthrow ⊢
    have hends := hacts ▸ d.ends_acts w
    cases hends with
    | @failed e => exact absurd List.mem_cons_self (hthrow (.engine e))
    | whole _ hcollect hreported =>
      exact ⟨_, _, hcollect, nodup_keys_of_collect hcollect, rfl,
        fun count hcount => not_isReport_total count (hreported.reports _ hcount),
        hreported.names⟩
    | @broken _ _ e => exact absurd (by simp) (hthrow (.engine (.archive e)))
  case breaks =>
    intro hbreaks
    generalize hacts : d.acts w = acts
    have hends := hacts ▸ d.ends_acts w
    cases hends with
    | failed houtcome =>
      obtain ⟨w', d', acts, name, hrun, -⟩ := hbreaks
      rw [hrun] at houtcome
      cases houtcome
    | whole hcalm => exact absurd hbreaks hcalm
    | broken _ hcollect hreported hunreported =>
      exact ⟨_, _, _, hcollect, nodup_keys_of_collect hcollect, rfl, hunreported,
        fun count hcount => not_isReport_total count (hreported.reports _ hcount),
        fun t ht => not_isReport_throw t (hreported.reports _ ht), hreported.names⟩

/-- A run ends by itself, or by what is thrown; then nothing was done before, or the total was
told first. -/
theorem ofActs_acts (d : Decompiler) (w : World) :
    (EngineRun.ofActs (d.acts w)).ending = .normal ∨
      ∃ e, (EngineRun.ofActs (d.acts w)).ending = .thrown (.engine e) ∧
        ((EngineRun.ofActs (d.acts w)).acts = [] ∨
          ∃ count, .total count ∈ (EngineRun.ofActs (d.acts w)).acts) := by
  generalize hacts : d.acts w = acts
  have hends := hacts ▸ d.ends_acts w
  cases hends with
  | failed => exact .inr ⟨_, rfl, .inl rfl⟩
  | @whole locations reported _ _ hreported =>
    refine .inl ?_
    have hrun := ofActs_append hreported.reports []
    rw [List.append_nil] at hrun
    rw [ofActs_total, hrun]
    rfl
  | @broken _ _ e _ _ hreported =>
    refine .inr ⟨.archive e, ?_, .inr ⟨_, List.mem_cons_self⟩⟩
    rw [List.cons_append, ofActs_total, ofActs_append hreported.reports]
    rfl

/-- What is done before a run ends is to tell a total and to report. -/
theorem isReport_of_mem_ofActs (h : act ∈ (EngineRun.ofActs (d.acts w)).acts) :
    IsReport act ∨ ∃ count, act = .total count := by
  generalize hacts : d.acts w = acts at h
  have hends := hacts ▸ d.ends_acts w
  cases hends with
  | failed => cases h
  | @whole locations reported _ _ hreported =>
    have hrun := ofActs_append hreported.reports []
    rw [List.append_nil] at hrun
    rw [ofActs_total, hrun] at h
    rcases List.mem_cons.1 h with rfl | hmem
    · exact .inr ⟨_, rfl⟩
    · exact .inl (hreported.reports act (by simpa [EngineRun.ofActs] using hmem))
  | broken _ _ hreported =>
    rw [List.cons_append, ofActs_total, ofActs_append hreported.reports] at h
    rcases List.mem_cons.1 h with rfl | hmem
    · exact .inr ⟨_, rfl⟩
    · exact .inl (hreported.reports act (by simpa [EngineRun.ofActs] using hmem))

/-- The run of the decompiler that is made for an archive fails at the archive, or is that of the
decompiler which has taken it. -/
theorem run_eq (settings : Settings) (w : World) (archive : Path) :
    (∃ e, (Factory.decompiler settings).run w archive = ⟨[], .thrown (.engine e)⟩) ∨
      ∃ (d : Decompiler) (w' : World),
        (Factory.decompiler settings).run w archive = .ofActs (d.acts w') := by
  let made := Engine.make (.decompiler (.ofSettings settings)) w
  let traced := made.2.trace made.1 (.addSource archive)
  have hrun : (Factory.decompiler settings).run w archive =
      Engine.run (made.2.addSource made.1 archive).2.1 (made.2.addSource made.1 archive).1
        (made.2.addSource made.1 archive).2.2 := rfl
  have hmade : made.2 = ⟨w.engines, .decompiler (.ofSettings settings)⟩ := rfl
  rw [hrun]
  cases hadd : (ofSettings settings).addSource traced archive with
  | error e =>
    have hsource : made.2.addSource made.1 archive = (traced, made.2, [.throw (.engine e)]) := by
      rw [Engine.addSource, hmade]
      dsimp only
      rw [← hmade, hadd]
    rw [hsource]
    exact .inl ⟨e, rfl⟩
  | ok d =>
    have hsource : made.2.addSource made.1 archive =
        (traced, ⟨w.engines, .decompiler d⟩, []) := by
      rw [Engine.addSource, hmade]
      dsimp only
      rw [← hmade, hadd]
    rw [hsource]
    exact .inr ⟨d, _, rfl⟩

/-- The run of the decompiler that is made for an archive ends by itself, or it throws: then nothing
was done before, or the total was told first. -/
theorem run_cases (settings : Settings) (w : World) (archive : Path) :
    ((Factory.decompiler settings).run w archive).ending = .normal ∨
      ∃ e, ((Factory.decompiler settings).run w archive).ending = .thrown (.engine e) ∧
        (((Factory.decompiler settings).run w archive).acts = [] ∨
          ∃ count, .total count ∈ ((Factory.decompiler settings).run w archive).acts) := by
  rcases run_eq settings w archive with ⟨e, hrun⟩ | ⟨d, w', hrun⟩
  · rw [hrun]
    exact .inr ⟨e, rfl, .inl rfl⟩
  · rw [hrun]
    exact ofActs_acts d w'

/-- Each class that the decompiler reports has a text. -/
theorem exists_text_of_mem_classes {settings : Settings} {archive : Path}
    {c : String × Option String}
    (h : c ∈ Act.classes ((Factory.decompiler settings).run w archive).acts) :
    ∃ text, c.2 = some text := by
  obtain ⟨act, hact, hclass⟩ := List.mem_filterMap.1 h
  rcases run_eq settings w archive with ⟨e, hrun⟩ | ⟨d, w', hrun⟩
  · rw [hrun] at hact
    cases hact
  · rw [hrun] at hact
    obtain hreport | ⟨count, rfl⟩ := isReport_of_mem_ofActs hact
    · cases hreport with
      | unit name text =>
        obtain rfl := Option.some.inj hclass
        exact ⟨text, rfl⟩
      | note record => cases hclass
    · cases hclass

end Decompiler

open Decompiler

/-- Every run of the decompiler is all or nothing, unless its report breaks off; of the paths that
are given for its tools, without NUL and tilde, just those are refused that have no encoding or are
too long; and a task whose decompiler fails sends what was reported by then and the failure, which
is the failure alone, with nothing in the store, if no total was told. -/
theorem decompile_all_or_nothing (d : Decompiler) (w : World) :
    d.AllOrNothing w ∧
    (∀ (fs : Files) (env : Environment) (p : Path), p.IsTidy →
      (Engine.Refused fs env (.value p) ↔
        (∃ fault, p.nameFault? = some (.unencodable fault)) ∨
          p.nameFault? = none ∧
            fs.isFile p.absolute = .error (.refused .nameTooLong p.absolute))) ∧
    ∀ (s : Workspace) (settings : Settings) (archive : Path),
      s.factory = some (.decompiler settings) →
      (s.engineRun (.decompiler settings) archive).ending ≠ .normal →
      let acts := (s.engineRun (.decompiler settings) archive).acts
      ∃ s' e sent, Completes .decompileArchive archive s .ready s' sent ∧
        sent = (Act.progressAfter [] acts).map .progress ++ [.finished (.failure e)] ∧
        s'.store.entries = Assoc.insertAll [] (Act.classes acts) ∧
        ((∀ count, .total count ∉ acts) →
          sent = [.finished (.failure e)] ∧ s'.store.entries = []) := by
  refine ⟨allOrNothing d w, fun fs env p htidy => Engine.refused_iff_of_isTidy htidy, ?_⟩
  intro s settings archive hfactory hending
  dsimp only
  obtain ⟨s', hcompletes, hentries, -⟩ := exists_completes_run hfactory archive
  have hcases := run_cases settings (s.cleared archive).world archive
  rw [← Workspace.engineRun] at hcases
  obtain hnormal | ⟨e, hthrown, hacts⟩ := hcases
  · exact absurd hnormal hending
  · rw [hthrown] at hcompletes
    refine ⟨s', _, _, hcompletes, rfl, hentries, fun htotal => ?_⟩
    obtain hnil | ⟨count, hcount⟩ := hacts
    · rw [hentries, hnil]
      exact ⟨rfl, rfl⟩
    · exact absurd hcount (htotal count)

namespace Decompiler.Sample

/-- A name that is too long by one byte. -/
@[irreducible] def longName : String := String.ofList (List.replicate 256 'x')

/-- The path of a java program with that name. -/
def longJava : Path := ⟨.relative, [longName]⟩

def settings : Settings := { Settings.default with java := some (.value longJava) }

def archive : Path := ⟨.relative, ["a.jar"]⟩

/-- Surroundings with nothing but an archive. -/
def bare : World :=
  .start ⟨[([], .directory), (["W"], .directory), (["W", "a.jar"], .file (.zip []) false)],
    .roomy⟩ {}

/-- A decompiler with an archive and the long path. -/
def misled : Decompiler := { ofSettings settings with sources := [⟨.root, ["W", "a.jar"]⟩] }

/-- A workspace there, where no java program is to be found. -/
def workspace : Workspace :=
  ⟨bare, .empty, none, some (.decompiler .default), "/", ".java"⟩

theorem utf8ByteSize_longName : longName.utf8ByteSize = 256 := by
  have hsize : 'x'.utf8Size = 1 := by decide
  unfold longName
  rw [Text.utf8ByteSize_replicate, hsize]

theorem mem_glyphs_longName {g : Text.Glyph} (h : g ∈ (longName : Text.Loose).glyphs) :
    g = .char 'x' := by
  rw [Text.Loose.glyphs_whole, List.mem_map] at h
  obtain ⟨c, hc, rfl⟩ := h
  unfold longName at hc
  rw [String.toList_ofList] at hc
  rw [List.eq_of_mem_replicate hc]

theorem isTidy_longJava : longJava.IsTidy := by
  intro part hpart
  obtain rfl := List.mem_singleton.1 hpart
  constructor
  · intro h
    exact absurd (mem_glyphs_longName h) (by decide)
  · intro h
    exact absurd (mem_glyphs_longName h) (by decide)

theorem nameFault?_longJava : longJava.nameFault? = none := by
  refine Path.nameFault?_eq_none_iff.2 fun part hpart => ?_
  obtain rfl := List.mem_singleton.1 hpart
  refine Text.Loose.nameFault?_eq_none_iff.2 fun g hg => ?_
  rw [mem_glyphs_longName hg]
  rfl

theorem absolute_longJava : longJava.absolute = ⟨.root, [.whole "W", .whole longName]⟩ := by
  have hne : (longName : Text.Loose) ≠ .whole ".." := by
    intro h
    have hsize := congrArg String.utf8ByteSize (Text.Loose.whole.inj h)
    rw [utf8ByteSize_longName] at hsize
    exact absurd hsize (by decide +kernel)
  have hup : ("W" : Text.Loose) ≠ .whole ".." := by decide
  show Path.mk .root (Path.step (Path.step [] "W") longName) = _
  rw [Path.step, Path.step, if_neg hne, if_neg hup]
  rfl

theorem byteSize_whole (s : String) : (Text.Loose.whole s).byteSize = s.utf8ByteSize := rfl

theorem toLoose_eq (name : String) :
    (Path.mk .root [.whole "W", .whole name]).toLoose = .whole ("/W/" ++ name) := by
  have hlead : "/" ++ ("W" ++ "/") = "/W/" := by decide +kernel
  show Text.Loose.whole ("/" ++ ("W" ++ "/" ++ name)) = _
  rw [← String.append_assoc, hlead]

theorem walk_eq {fs : Files} (hroot : fs.node? [] = some .directory) (p : Path) (name : String) :
    fs.walk p [] [.whole "W", .whole name] = fs.walk p [.whole "W"] [.whole name] := by
  have hfits : ¬ Files.maxNameBytes < (Text.Loose.whole "W").byteSize := by decide +kernel
  exact Files.walk_cons hroot hfits

theorem isFile_longJava {fs : Files} (hroot : fs.node? [] = some .directory)
    (hdirectory : fs.node? ["W"] = some .directory) :
    fs.isFile longJava.absolute = .error (.refused .nameTooLong longJava.absolute) := by
  have hname : (Path.mk .root [.whole "W", .whole longName]).toLoose.nameFault? = none := by
    rw [toLoose_eq]
    refine Text.Loose.nameFault?_eq_none_iff.2 fun g hg => ?_
    rw [Text.Loose.glyphs_whole, String.toList_append, List.map_append, List.mem_append] at hg
    obtain hg | hg := hg
    · revert g
      decide
    · rw [mem_glyphs_longName hg]
      rfl
  have hshort : (Path.mk .root [.whole "W", .whole longName]).toLoose.byteSize ≤
      Files.maxPathBytes := by
    have hlead : "/W/".utf8ByteSize = 3 := by decide +kernel
    rw [toLoose_eq, byteSize_whole, String.utf8ByteSize_append, utf8ByteSize_longName, hlead]
    decide
  have hlong : Files.maxNameBytes < (Text.Loose.whole longName).byteSize := by
    rw [byteSize_whole, utf8ByteSize_longName]
    decide
  rw [absolute_longJava]
  refine Files.isFile_of_tooLong (q := ⟨.root, [.whole "W", .whole longName]⟩) ?_
  rw [Files.locate_of_anchored hname hshort nofun, walk_eq hroot]
  exact Files.walk_of_tooLong _ hdirectory hlong

theorem isRefused_longJava :
    Engine.IsRefused (misled.emptied bare).files bare.env misled.java := by
  have hroot : (misled.emptied bare).files.node? [] = some .directory := rfl
  have hdirectory : (misled.emptied bare).files.node? ["W"] = some .directory := rfl
  exact ⟨_, rfl, (Engine.refused_iff_of_isTidy isTidy_longJava).2
    (.inr ⟨nameFault?_longJava, isFile_longJava hroot hdirectory⟩)⟩

end Decompiler.Sample

theorem decompile_all_or_nothing_without_java :
    Sample.misled.AllOrNothing Sample.bare ∧
    Engine.Refused (Sample.misled.emptied Sample.bare).files {} (.value Sample.longJava) ∧
    ∃ s' e, Completes .decompileArchive Sample.archive Sample.workspace .ready s'
        [.finished (.failure e)] ∧ s'.store.entries = [] := by
  obtain ⟨hrun, hrefused, htask⟩ := decompile_all_or_nothing Sample.misled Sample.bare
  obtain ⟨s', e, sent, hcompletes, -, -, hsilent⟩ :=
    htask Sample.workspace .default Sample.archive rfl (by decide +kernel)
  have hacts : (Sample.workspace.engineRun (.decompiler .default) Sample.archive).acts = [] := by
    decide +kernel
  rw [hacts] at hsilent
  obtain ⟨rfl, hentries⟩ := hsilent fun _ => List.not_mem_nil
  exact ⟨hrun, (hrefused _ _ _ Sample.isTidy_longJava).2
      (.inr ⟨Sample.nameFault?_longJava, Sample.isFile_longJava rfl rfl⟩), s', e, hcompletes,
    hentries⟩

/-- The path of java may name no file and yet have neither a NUL nor a tilde, and still the failure
is not reported as a fault of the engine: the path is too long. -/
theorem exists_failure_unreported : ∃ (d : Decompiler) (w : World) (p : Path) (e : EngineError),
    d.sources ≠ [] ∧ d.java = some (.value p) ∧ p.IsTidy ∧
      (d.emptied w).files.isFile p.absolute ≠ .ok true ∧
      d.acts w = [.throw (.engine e)] ∧ e.isReported = false := by
  have hrefused := Sample.isRefused_longJava
  have hcause : Cause Sample.misled Sample.bare none :=
    .noJava fun hjava => hjava.not_isRefused hrefused
  obtain ⟨e, hacts, hreported, -⟩ := (allOrNothing _ _).fails none hcause
  refine ⟨Sample.misled, Sample.bare, Sample.longJava, e, List.cons_ne_nil _ _, rfl,
    Sample.isTidy_longJava, ?_, hacts, ?_⟩
  · rw [Sample.isFile_longJava rfl rfl]
    nofun
  · refine Bool.eq_false_iff.2 fun hyes => hreported.1 hyes ?_
    exact .java (List.cons_ne_nil _ _) hrefused

end ClassBrowser
