import ClassBrowser.Proofs.Engine.Launch
import ClassBrowser.Proofs.Except

/-!
# What a run of the decompiler reports

A run whose process ends well has collected the places of some classes, and no place twice under one
name.  It reports the classes whose text can be read there, under the names under which they were
collected (`mem_reports_iff`), and nothing but these (`exists_of_decompile`).

The report may break off (`Reporting`): an entry of an archive may be encrypted, packed in a way
that is not known, or cut off, and then reading it fails with an error that is not expected where
classes are reported.  What comes before such an entry was reported by then.
-/

namespace ClassBrowser.Decompiler

variable {d d' : Decompiler} {w w' : World} {fs : Files} {name text : String} {acts : List Act}
  {output : Place} {sources : List Path} {locations : Assoc String Location}
  {completed : Engine.Completed}

theorem nodup_keys_of_collect (h : collect fs output sources = .ok locations) :
    locations.keys.Nodup := by
  obtain ⟨found, -, h⟩ := bind_eq_ok_iff.1 h
  obtain rfl := Except.ok.inj h
  exact Assoc.nodup_keys_insertAll (t := []) List.nodup_nil _

theorem textOf_eq_none_iff : d.textOf fs name = none ↔ name ∉ d.locations.keys := by
  rw [textOf, Option.map_eq_none_iff, Assoc.get?_eq_none_iff]

/-- The text of a class is what is read where the class lies. -/
theorem textOf_eq_ok_iff : d.textOf fs name = some (.ok text) ↔
    ∃ l bytes, d.locations.get? name = some l ∧ Archive.read fs l.file l.entry = .ok bytes ∧
      text = Text.Utf8.decodeLossy bytes := by
  rw [textOf, Option.map_eq_some_iff]
  refine exists_congr fun l => ?_
  cases Archive.read fs l.file l.entry with
  | error e => simp [Except.map]
  | ok bytes => simp [Except.map, eq_comm]

/-- Whether the report of classes breaks off at one of them: its text cannot be read, and the reason
is none that is expected. -/
def Breaks (d : Decompiler) (fs : Files) (name : String) : Prop :=
  ∃ e, d.textOf fs name = some (.error e) ∧ e.isReported = false

/-- What the report of a class is. -/
theorem report_cases (d : Decompiler) (fs : Files) (name : String) :
    (∃ e, d.textOf fs name = some (.error e) ∧ e.isReported = false ∧
        d.report fs name = [.throw (.engine (.archive e))]) ∨
      ¬ d.Breaks fs name ∧ ((∃ t, d.textOf fs name = some (.ok t) ∧
          d.report fs name = [.unit name (some t)]) ∨
        (∀ t, d.textOf fs name ≠ some (.ok t)) ∧
          (d.report fs name = [] ∨ ∃ record, d.report fs name = [.note record])) := by
  unfold report Breaks
  cases htext : d.textOf fs name with
  | none => simp
  | some result =>
    cases result with
    | ok t => simp
    | error e => cases hreported : e.isReported <;> simp [hreported]

theorem throw_not_mem_report {t : Thrown} (h : ¬ d.Breaks fs name) :
    .throw t ∉ d.report fs name := by
  obtain ⟨e, htext, hreported, -⟩ | ⟨-, ⟨text, -, hreport⟩ | ⟨-, hreport | ⟨record, hreport⟩⟩⟩ :=
    d.report_cases fs name
  · exact absurd ⟨e, htext, hreported⟩ h
  all_goals simp [hreport]

theorem mem_report_iff {text : Option String} {n : String} :
    .unit n text ∈ d.report fs name ↔
      n = name ∧ ∃ t, text = some t ∧ d.textOf fs name = some (.ok t) := by
  obtain ⟨e, htext, -, hreport⟩ | ⟨-, ⟨t, htext, hreport⟩ | ⟨hnone, hreport | ⟨record, hreport⟩⟩⟩ :=
    d.report_cases fs name
  · simp [hreport, htext]
  · simp [hreport, htext, eq_comm]
  · simp [hreport, hnone]
  · simp [hreport, hnone]

/-- How a run reports what it has collected. -/
inductive Reporting (d : Decompiler) (fs : Files) : List Act → Prop
  /-- Every class is reported. -/
  | whole (hcalm : ∀ name ∈ d.locations.keys, ¬ d.Breaks fs name) :
    Reporting d fs (.total d.locations.length :: d.locations.keys.flatMap (d.report fs))
  /-- The report breaks off at a class. -/
  | broken {before behind : List String} {name : String} {e : ArchiveError}
    (hkeys : d.locations.keys = before ++ name :: behind)
    (hcalm : ∀ n ∈ before, ¬ d.Breaks fs n) (htext : d.textOf fs name = some (.error e))
    (hreported : e.isReported = false) :
    Reporting d fs (.total d.locations.length :: before.flatMap (d.report fs) ++
      [.throw (.engine (.archive e))])

/-- All of some classes can be reported, or there is a first one at which the report breaks off. -/
theorem breaks_cases (d : Decompiler) (fs : Files) (names : List String) :
    (∀ name ∈ names, ¬ d.Breaks fs name) ∨
      ∃ before name behind, names = before ++ name :: behind ∧
        (∀ n ∈ before, ¬ d.Breaks fs n) ∧ d.Breaks fs name := by
  induction names with
  | nil => exact .inl nofun
  | cons name rest ih =>
    by_cases hbreaks : d.Breaks fs name
    · exact .inr ⟨[], name, rest, rfl, nofun, hbreaks⟩
    · obtain hcalm | ⟨before, n, behind, rfl, hcalm, hn⟩ := ih
      · exact .inl (List.forall_mem_cons.2 ⟨hbreaks, hcalm⟩)
      · exact .inr ⟨name :: before, n, behind, rfl, List.forall_mem_cons.2 ⟨hbreaks, hcalm⟩, hn⟩

theorem throw_not_mem_flatMap {names : List String} (h : ∀ n ∈ names, ¬ d.Breaks fs n)
    (t : Thrown) : .throw t ∉ names.flatMap (d.report fs) := by
  rw [List.mem_flatMap]
  rintro ⟨n, hn, hthrow⟩
  exact throw_not_mem_report (h n hn) hthrow

theorem reporting (d : Decompiler) (fs : Files) : Reporting d fs (d.reports fs) := by
  unfold reports
  obtain hcalm | ⟨before, name, behind, hkeys, hcalm, e, htext, hreported⟩ :=
    d.breaks_cases fs d.locations.keys
  · rw [Act.performed_of_calm (throw_not_mem_flatMap hcalm)]
    exact .whole hcalm
  · have hreport : d.report fs name = [.throw (.engine (.archive e))] := by
      simp [report, htext, hreported]
    have hsplit : d.locations.keys.flatMap (d.report fs) = before.flatMap (d.report fs) ++
        .throw (.engine (.archive e)) :: behind.flatMap (d.report fs) := by
      rw [hkeys, List.flatMap_append, List.flatMap_cons, hreport]
      rfl
    rw [hsplit, Act.performed_append (throw_not_mem_flatMap hcalm)]
    exact .broken hkeys hcalm htext hreported

theorem Breaks.mem_keys (h : d.Breaks fs name) : name ∈ d.locations.keys := by
  obtain ⟨e, htext, -⟩ := h
  by_contra hname
  rw [textOf_eq_none_iff.2 hname] at htext
  cases htext

/-- What is thrown while classes are reported is why the text of one of them cannot be read. -/
theorem exists_of_throw_mem_reports {t : Thrown} (h : .throw t ∈ d.reports fs) :
    ∃ name e, d.textOf fs name = some (.error e) ∧ e.isReported = false ∧
      t = .engine (.archive e) := by
  generalize hacts : d.reports fs = acts at h
  have hreporting := hacts ▸ d.reporting fs
  cases hreporting with
  | whole hcalm => exact absurd (by simpa using h) (throw_not_mem_flatMap hcalm t)
  | @broken before behind name e hkeys hcalm htext hreported =>
    have hthrown : t = .engine (.archive e) := by
      simpa [throw_not_mem_flatMap hcalm t] using h
    exact ⟨name, e, htext, hreported, hthrown⟩

/-- The report throws if it breaks off at some class. -/
theorem exists_throw_mem_reports_iff :
    (∃ t, .throw t ∈ d.reports fs) ↔ ∃ name, d.Breaks fs name := by
  constructor
  · rintro ⟨t, ht⟩
    obtain ⟨name, e, htext, hreported, -⟩ := exists_of_throw_mem_reports ht
    exact ⟨name, e, htext, hreported⟩
  · rintro ⟨name, hbreaks⟩
    generalize hacts : d.reports fs = acts
    have hreporting := hacts ▸ d.reporting fs
    cases hreporting with
    | whole hcalm => exact absurd hbreaks (hcalm name hbreaks.mem_keys)
    | broken => exact ⟨_, List.mem_append_right _ (List.mem_singleton_self _)⟩

/-- What is reported of a class is its text. -/
theorem textOf_of_mem_reports {text : Option String} (h : .unit name text ∈ d.reports fs) :
    ∃ t, text = some t ∧ d.textOf fs name = some (.ok t) := by
  have hunit : ∀ names : List String, .unit name text ∈ names.flatMap (d.report fs) →
      ∃ t, text = some t ∧ d.textOf fs name = some (.ok t) := by
    intro names hmem
    obtain ⟨n, -, hn⟩ := List.mem_flatMap.1 hmem
    obtain ⟨rfl, htext⟩ := mem_report_iff.1 hn
    exact htext
  generalize hacts : d.reports fs = acts at h
  have hreporting := hacts ▸ d.reporting fs
  cases hreporting with
  | whole => exact hunit _ (by simpa using h)
  | broken => exact hunit _ (by simpa using h)

/-- Where the report does not break off, each class whose text can be read is reported. -/
theorem mem_reports_iff {text : Option String}
    (hcalm : ∀ name ∈ d.locations.keys, ¬ d.Breaks fs name) :
    .unit name text ∈ d.reports fs ↔ ∃ t, text = some t ∧ d.textOf fs name = some (.ok t) := by
  refine ⟨textOf_of_mem_reports, ?_⟩
  rintro ⟨t, rfl, ht⟩
  rw [reports, Act.performed_of_calm (throw_not_mem_flatMap hcalm), List.mem_cons, List.mem_flatMap]
  refine .inr ⟨name, ?_, mem_report_iff.2 ⟨rfl, t, rfl, ht⟩⟩
  by_contra hname
  rw [textOf_eq_none_iff.2 hname] at ht
  cases ht

/-- An archive that is accepted is the last source; nothing else changes. -/
theorem addSource_eq_ok {archive : Path} (h : d.addSource w archive = .ok d') :
    ∃ source, d' = { d with sources := d.sources ++ [source] } := by
  obtain ⟨source, -, hadded⟩ := bind_eq_ok_iff.1 h
  exact ⟨source, (Except.ok.inj hadded).symm⟩

/-! ## What a run leaves -/

theorem decompile_of_no_archive (h : d.sources = []) (w : World) :
    d.decompile w = (w, d, .error .noArchive) := by
  unfold decompile
  rw [if_pos (by rw [h]; rfl)]

/-- What the process leaves of the surroundings is what the run leaves of them. -/
theorem world_decompile (h : d.sources ≠ []) (w : World) :
    (d.decompile w).1 = (d.launch w).1 := by
  rw [decompile_eq h]
  rcases d.launch w with ⟨w', e | completed⟩ <;> rfl

/-- A run that fails leaves a decompiler that has forgotten all; one that ends well adds what it has
collected to that. -/
theorem decompile_cases (h : d.sources ≠ []) (w : World) :
    (∃ w' e, d.decompile w = (w', d.started, .error e)) ∨
      ∃ w' locations acts, d.decompile w = (w', { d.started with locations }, .ok acts) := by
  rw [decompile_eq h]
  rcases d.launch w with ⟨w', e | completed⟩
  · exact .inl ⟨w', e, rfl⟩
  · dsimp only [gather]
    split
    · exact .inl ⟨w', _, rfl⟩
    · split
      · exact .inl ⟨w', _, rfl⟩
      · exact .inl ⟨w', _, rfl⟩
      · exact .inr ⟨w', _, _, rfl⟩

/-! ## Runs that end well -/

theorem gather_eq_ok_iff :
    d.gather w completed = (d', .ok acts) ↔
      completed.exitCode = 0 ∧ ∃ locations, locations ≠ [] ∧
        collect w.files outputDirectory.parts d.sources = .ok locations ∧
        d' = { d with locations } ∧ acts = d'.reports w.files := by
  by_cases hexit : completed.exitCode = 0
  · unfold gather
    rw [failure?_eq_none hexit]
    dsimp only
    constructor
    · intro h
      split at h
      · cases h
      · cases h
      · next locations hne hcollect =>
        cases h
        exact ⟨hexit, locations, hne, hcollect, rfl, rfl⟩
    · rintro ⟨-, locations, hne, hcollect, rfl, rfl⟩
      rw [hcollect]
      cases locations with
      | nil => exact absurd rfl hne
      | cons p rest => rfl
  · have hfailure : ∃ e, Engine.failure? completed d.sources = some e :=
      ⟨_, if_neg hexit⟩
    obtain ⟨e, he⟩ := hfailure
    unfold gather
    rw [he]
    simp [hexit]

/-- What a run that ends well has collected, and what it reports. -/
theorem exists_of_decompile (h : d.decompile w = (w', d', .ok acts)) :
    d.sources ≠ [] ∧ (∃ completed, d.launch w = (w', .ok completed) ∧ completed.exitCode = 0) ∧
      d'.locations ≠ [] ∧ d' = { d with running := true, locations := d'.locations } ∧
      collect w'.files outputDirectory.parts d.sources = .ok d'.locations ∧
      acts = d'.reports w'.files := by
  have hsources : d.sources ≠ [] := by
    intro hnil
    rw [decompile_of_no_archive hnil] at h
    cases h
  rw [decompile_eq hsources] at h
  rcases hlaunch : d.launch w with ⟨world, launched⟩
  rw [hlaunch] at h
  cases launched with
  | error e => cases h
  | ok completed =>
    obtain ⟨rfl, hgather⟩ := Prod.mk.inj h
    obtain ⟨hexit, locations, hne, hcollect, rfl, hacts⟩ := gather_eq_ok_iff.1 hgather
    exact ⟨hsources, ⟨completed, rfl, hexit⟩, hne, rfl, hcollect, hacts⟩

end ClassBrowser.Decompiler
