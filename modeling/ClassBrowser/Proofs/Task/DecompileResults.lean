import ClassBrowser.Proofs.Session.Consistency
import ClassBrowser.Proofs.Task.EngineRuns

/-!
# Results of decompile tasks

What is left and what was sent when a decompile task has come to its end, read off the run of its
engine.  The progress reports count the classes, and their totals are never too small
(`Pipeline.progress_of_decompile`).  The store holds what was reported in this run and nothing else,
whether the task succeeds or fails (`Session.perform_decompile_result`).
-/

namespace ClassBrowser

open Act

/-- The progress report in a message. -/
def Message.progress? : Message → Option Progress
  | .progress p => some p
  | .finished _ => none

variable {archive : Path} {s s' : Workspace} {f : Factory} {p q : Pipeline} {sent : List Message}

theorem filterMap_progress? (events : List Progress) (ending : RunEnd) (archive : Path)
    (s : Workspace) :
    (events.map Message.progress ++ ending.sent archive s).filterMap Message.progress? =
      events := by
  cases ending <;> simp [RunEnd.sent, Message.progress?, Function.comp_def]

/-! ## Progress -/

namespace Pipeline

/-- The progress reports of a decompile task, whatever its engine does.  They count the classes one
by one; the report for a class has no total where none was given before, and else the one given
last, or the number of classes where that is larger.  So no report tells of more classes than there
are. -/
theorem progress_of_decompile (hstart : p.start .decompileArchive archive = .ok q)
    (hfactory : p.workspace.factory = some f) :
    let acts := (p.workspace.engineRun f archive).acts
    ∃ t, q.finish.tasks.head? = some t ∧ t.stage = .finished ∧
      let events := t.queue.filterMap Message.progress?
      events.map Progress.completed = List.range' 1 (classes acts).length ∧
      (∀ before name text after, acts = before ++ .unit name text :: after →
        let k := (classes before).length + 1
        events[k - 1]? = some
          ⟨k, (latestTotal before).map fun c => max c (k : Int), s!"Decompiled {name}"⟩) ∧
      ∀ event ∈ events, event.Fits := by
  intro acts
  obtain ⟨-, rfl⟩ := start_eq_ok_iff.1 hstart
  obtain ⟨s', hcompletes, -⟩ := exists_completes_run hfactory archive
  let t : Task := ⟨p.tasks.length, .decompileArchive, archive, [], none, .ready⟩
  have hfinish := @finish_eq s' _ p.workspace t p.tasks hcompletes
  rw [hfinish]
  refine ⟨_, rfl, rfl, ?_⟩
  dsimp only [t]
  rw [List.nil_append, filterMap_progress?]
  refine ⟨map_completed_progressAfter [] acts, fun before name text after hacts => ?_,
    fun _ => fits_of_mem_progressAfter⟩
  rw [show (p.workspace.engineRun f archive).acts = _ from hacts]
  exact getElem?_progressAfter [] before after name text

/-- A pipeline with a class in its store, and an engine that performs these acts. -/
def scripted (acts : List Act) : Pipeline :=
  ⟨⟨.start ⟨[], .roomy⟩ {}, Store.empty.put "Old" none, none, some (.script ⟨"", [], acts, []⟩),
    "/", ".java"⟩, []⟩

/-- A total that comes late is too small at once, and again with the next class. -/
theorem progress_of_decompile_late :
    let acts : List Act := [.unit "A" none, .unit "B" none, .total 1, .unit "C" none]
    ∃ q t, (scripted acts).start .decompileArchive ⟨.relative, ["a.jar"]⟩ = .ok q ∧
      q.finish.tasks.head? = some t ∧
      (t.queue.filterMap Message.progress?)[2]? = some ⟨3, some 3, "Decompiled C"⟩ := by
  intro acts
  obtain ⟨t, hlatest, -, -, hevents, -⟩ :=
    @progress_of_decompile ⟨.relative, ["a.jar"]⟩ _ (scripted acts) _ rfl rfl
  exact ⟨_, t, rfl, hlatest, hevents [.unit "A" none, .unit "B" none, .total 1] "C" none [] rfl⟩

end Pipeline

/-! ## Results -/

/-- Whether a decompile task has left on a workspace and sent what a run of its engine comes to.  Of
two reports of one class the later one counts; names that are not valid are in the store, but not in
the hierarchy. -/
structure EngineRun.Result (run : EngineRun) (archive : Path) (s : Workspace) (sent : List Message)
    (outcome : Outcome) : Prop where
  store : ∀ name, s.store.entries.get? name = Assoc.last? (classes run.acts) name
  sent : ∃ events : List Progress, sent = events.map .progress ++ [.finished outcome] ∧
    events.map Progress.text = (classes run.acts).map fun c => s!"Decompiled {c.1}"
  failure : ∀ t, run.ending = .thrown t → outcome = .failure t.reason
  success : run.ending = .normal → ∃ tree,
    let names := ((classes run.acts).map Prod.fst).eraseDups
    outcome = .success (some (.decompiled archive tree names.length)) ∧
      tree.members.map Member.qualified =
        QualifiedName.sorted (names.filter (QualifiedName.isValid s.delimiter))

/-- What is sent is the report of an outcome, unless the worker is lost. -/
theorem exists_result {run : EngineRun} (archive : Path) (hending : run.ending ≠ .lost)
    (hentries : s.store.entries = Assoc.insertAll [] (classes run.acts)) :
    let sent := (progressAfter [] run.acts).map .progress ++ run.ending.sent archive s
    ∃ outcome, IsReport sent outcome ∧ run.Result archive s sent outcome := by
  have hstore (name : String) :
      s.store.entries.get? name = Assoc.last? (classes run.acts) name := by
    rw [hentries, Assoc.get?_insertAll_eq_or, Assoc.get?_nil, Option.or_none]
  have hkeys : s.store.entries.keys = ((classes run.acts).map Prod.fst).eraseDups := by
    rw [hentries, Assoc.keys_insertAll (t := []) List.nodup_nil]
    rfl
  have htext := map_text_progressAfter [] run.acts
  cases hend : run.ending with
  | lost => exact absurd hend hending
  | thrown t =>
    refine ⟨.failure t.reason, isReport_progress _ _, hstore, ⟨_, rfl, htext⟩, ?_, ?_⟩
    · intro t' ht'
      rw [RunEnd.thrown.inj (hend.symm.trans ht')]
    · intro hnormal
      exact nomatch hend.symm.trans hnormal
  | normal =>
    have hsize : s.store.size = ((classes run.acts).map Prod.fst).eraseDups.length := by
      rw [← hkeys, Assoc.keys, List.length_map]
      rfl
    refine ⟨_, isReport_progress _ _, hstore, ⟨_, rfl, htext⟩, ?_, fun _ => ⟨s.tree.2, ?_, ?_⟩⟩
    · intro t ht
      exact nomatch hend.symm.trans ht
    · rw [hsize]
    · rw [Session.qualified_tree, ← hkeys]
      exact Package.sorted_congr ((List.mergeSort_perm _ _).filter _)

namespace Session

/-- A decompile task as a whole, for a session in any state.  With an engine configured, it leaves
and sends what the run of that comes to, as long as this throws nothing but exceptions.  Without one
it fails and changes neither the store nor the engine.  While a worker is there, it is refused, and
a request that is refused changes nothing. -/
theorem perform_decompile_result (s : Session) (archive : Path) :
    (∀ f, s.pipeline.workspace.factory = some f → s.isBusy = false →
      (s.pipeline.workspace.engineRun f archive).ending ≠ .lost →
      ∃ q sent outcome, s.pipeline.perform .decompileArchive archive = .ok (q, sent) ∧
        (s.pipeline.workspace.engineRun f archive).Result archive q.workspace sent outcome ∧
        q.workspace.delimiter = s.pipeline.workspace.delimiter) ∧
    (s.pipeline.workspace.factory = none → s.isBusy = false →
      ∃ q, s.pipeline.perform .decompileArchive archive =
          .ok (q, [.finished (.failure "No decompiler engine is configured.")]) ∧
        q.workspace.store = s.pipeline.workspace.store ∧
        q.workspace.engine = s.pipeline.workspace.engine) ∧
    (s.isBusy = true → ∀ ahead,
      s.after (.start .decompileArchive archive ahead) = (s, .refused .busy)) ∧
    ∀ event error, (s.after event).2 = .refused error → (s.after event).1 = s := by
  refine ⟨fun f hfactory hidle hending => ?_, fun hfactory hidle => ?_, fun hbusy ahead => ?_,
    fun _ _ => fst_after_of_refused⟩
  · obtain ⟨s', hcompletes, hentries, hdelimiter⟩ := exists_completes_run hfactory archive
    obtain ⟨outcome, hreport, hresult⟩ := exists_result archive hending hentries
    obtain ⟨q, hperform, rfl, -⟩ := Pipeline.perform_eq hidle hcompletes hreport
    exact ⟨q, _, outcome, hperform, hresult, hdelimiter⟩
  · have hready : s.pipeline.workspace.Moves .decompileArchive archive .ready _ :=
      .unconfigured rfl hfactory
    let last := s.pipeline.workspace.fail .decompileArchive .noEngine
    have hcompletes : Completes .decompileArchive archive s.pipeline.workspace .ready
        last.workspace [.finished (.failure TaskFailure.noEngine.reason)] :=
      .of_ends nofun (hready.eq_advance ▸ ends_fail _ _ _ _)
    obtain ⟨q, hperform, hq, -⟩ := Pipeline.perform_eq hidle hcompletes (isReport_singleton _)
    exact ⟨q, hperform, by rw [hq]; rfl, by rw [hq]; rfl⟩
  · have hstart : s.pipeline.start .decompileArchive archive = .error .busy := if_pos hbusy
    rw [after, startAhead, hstart]
    rfl

/-- An engine that breaks off keeps its partial result, and what was known before is gone. -/
theorem perform_decompile_result_broken :
    let acts : List Act := [.unit "A" (some "a"), .unit "x//y" none, .unit "A" none,
      .throw (.other "ValueError" "broken"), .unit "B" none]
    let s : Session := ⟨.default, .scripted acts, none, .empty⟩
    ∃ q sent, s.pipeline.perform .decompileArchive ⟨.relative, ["a.jar"]⟩ = .ok (q, sent) ∧
      ["Old", "A", "x//y", "B"].map q.workspace.store.entries.get? =
        [none, some none, some none, none] ∧
      .finished (.failure "broken") ∈ sent := by
  intro acts s
  obtain ⟨hrun, -⟩ := s.perform_decompile_result ⟨.relative, ["a.jar"]⟩
  obtain ⟨q, sent, outcome, hperform, hresult, -⟩ := hrun _ rfl rfl nofun
  obtain ⟨events, rfl, -⟩ := hresult.sent
  refine ⟨q, _, hperform, ?_, ?_⟩
  · rw [List.map_congr_left fun name _ => hresult.store name]
    rfl
  · rw [hresult.failure _ rfl]
    exact List.mem_append_right _ (List.mem_singleton_self _)

end Session

end ClassBrowser
