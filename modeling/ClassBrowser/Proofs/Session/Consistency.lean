import ClassBrowser.Proofs.CommandLine.Tasks
import ClassBrowser.Proofs.Package.Hierarchy
import ClassBrowser.Proofs.Session.Requests
import ClassBrowser.Proofs.Store
import ClassBrowser.Proofs.Task.Receiving
import Mathlib.Logic.Relation

/-!
# What a session shows

A session whose tasks are served one after the other, each outcome being taken over before the next
request is accepted.  Whatever the engines do, each outcome leaves on show the hierarchy of just the
classes in the store, and the store holds what the engine of the last opened archive has reported
(`consistent_of_reaches`).

The hierarchy and the store are changed at different times: opening an archive empties the first at
once, the worker empties and fills the second, and the outcome brings them together again.  What
holds in between is `Pipeline.Serves`.
-/

namespace ClassBrowser

/-! ## The course of a session -/

/-- The class that the engine of the latest task reports by its next act. -/
def Pipeline.reports (p : Pipeline) : List (String × Option String) :=
  match p.tasks with
  | [] => []
  | t :: _ => t.stage.reports

/-- The classes that are reported within a number of steps. -/
def Pipeline.reportsWithin : Nat → Pipeline → List (String × Option String)
  | 0, _ => []
  | n + 1, p => p.reports ++ reportsWithin n p.step

/-- The outcome of the latest task, if it was received. -/
def Pipeline.outcome? (p : Pipeline) : Option Outcome := p.tasks.head?.bind Task.outcome

namespace Session

/-- A session with what is remembered of its course: the archive of the last accepted request to
open one, the classes that its engine has reported, and whether an accepted task has an outcome that
was not taken over yet. -/
structure Course where
  session : Session
  opened : Option Path
  reported : List (String × Option String)
  isPending : Bool

namespace Course

/-- The course of a new session. -/
def start (settings : Settings) (factory : Factory) (world : World) : Course :=
  ⟨.new settings (some factory) world, none, [], false⟩

/-- The course in which a task was accepted, whose engine has reported some classes by now. -/
def accept (c : Course) (s : Session) (kind : TaskKind) (target : Path)
    (reported : List (String × Option String)) : Course where
  session := s
  opened := if kind = .decompileArchive then some target else c.opened
  reported := (if kind = .decompileArchive then [] else c.reported) ++ reported
  isPending := true

/-- What may happen in the course of a session.  A request is accepted when no outcome is pending,
and it may be refused at any time. -/
inductive Step : Course → Course → Prop
  | accept {c : Course} {kind : TaskKind} {target : Path} {ahead : Nat} {p : Pipeline} {s : Session}
      (hpending : c.isPending = false) (hstart : c.session.pipeline.start kind target = .ok p)
      (hs : c.session.startAhead kind target ahead = .ok s) :
      Step c (c.accept s kind target (p.reportsWithin ahead))
  | refuse {c : Course} {kind : TaskKind} {target : Path} {ahead : Nat} {e : RequestError}
      (hs : (c.session.after (.start kind target ahead)).2 = .refused e) :
      Step c { c with session := (c.session.after (.start kind target ahead)).1 }
  | work {c : Course} :
      Step c { c with
        session := (c.session.after .work).1
        reported := c.reported ++ c.session.pipeline.reports }
  | poll {c : Course} {task : Nat} :
      Step c { c with session := (c.session.after (.poll task)).1 }
  | wait {c : Course} {task : Nat} :
      Step c { c with session := (c.session.after (.wait task)).1 }
  | apply {c : Course} {o : Outcome} (hpending : c.isPending = true)
      (ho : c.session.pipeline.outcome? = some o) :
      Step c { c with session := (c.session.after (.apply o)).1, isPending := false }
  | supply {c : Course} {factory : Factory} :
      Step c { c with session := (c.session.after (.supply factory)).1 }

end Course

end Session

variable {s : Workspace} {t u : Task} {reported : List (String × Option String)} {p : Pipeline}
  {kind : TaskKind} {delimiter : Text.Loose} {tree : Package}

/-! ## While a task is served -/

/-- What holds of the latest task: once it has begun, the store has what is reported; once it has
sent an outcome, it is over, and the outcome shows what is in the store. -/
structure Task.Faithful (t : Task) (s : Workspace) (reported : List (String × Option String)) :
    Prop where
  unbegun : t.kind = .decompileArchive → t.stage = .ready → reported = []
  stored : (t.kind = .decompileArchive → t.stage ≠ .ready) →
    s.store.entries = Assoc.insertAll [] reported
  fits : t.kind ≠ .decompileArchive → t.stage.isDecompiling = false
  ended : ∀ o ∈ t.outcomes, t.stage.isOver = true
  shown : ∀ o ∈ t.outcomes, o.Shows s

theorem Task.Faithful.receives (h : t.Faithful s reported) (hu : t.Receives u) :
    u.Faithful s reported := by
  refine ⟨?_, ?_, ?_, ?_, ?_⟩
  · rw [hu.kind, hu.stage]
    exact h.unbegun
  · rw [hu.kind, hu.stage]
    exact h.stored
  · rw [hu.kind, hu.stage]
    exact h.fits
  · intro o ho
    rw [hu.stage]
    exact h.ended o (hu.outcomes ho)
  · intro o ho
    exact h.shown o (hu.outcomes ho)

/-- The task after a step of its worker. -/
def Task.advanced (t : Task) (a : Advance) : Task :=
  { t with stage := a.stage, queue := t.queue ++ a.sent }

theorem Task.Faithful.entries_advance (h : t.Faithful s reported) (hfactory : s.factory ≠ none) :
    (s.advance t.kind t.target t.stage).workspace.store.entries =
      Assoc.insertAll [] (reported ++ t.stage.reports) := by
  by_cases hbegin : t.kind = .decompileArchive ∧ t.stage = .ready
  · obtain ⟨hkind, hstage⟩ := hbegin
    obtain ⟨world, hworkspace⟩ := @Workspace.beginDecompile_eq s t.target hfactory
    have hadvance : s.advance t.kind t.target t.stage = s.beginDecompile t.target := by
      rw [hkind, hstage]
      rfl
    rw [hadvance, hworkspace, h.unbegun hkind hstage, hstage]
    rfl
  · rw [not_and] at hbegin
    obtain ⟨world, store, engine, hworkspace, hentries, -⟩ :=
      (s.isStep_advance t.kind t.target t.stage).changes hbegin
    rw [hworkspace, Assoc.insertAll, List.foldl_append]
    exact hentries.trans (by rw [h.stored hbegin]; rfl)

theorem Task.Faithful.advance (h : t.Faithful s reported) (hfactory : s.factory ≠ none) :
    (t.advanced (s.advance t.kind t.target t.stage)).Faithful
      (s.advance t.kind t.target t.stage).workspace (reported ++ t.stage.reports) := by
  have hstep := s.isStep_advance t.kind t.target t.stage
  have hsent : ∀ o ∈ (t.advanced (s.advance t.kind t.target t.stage)).outcomes,
      (s.advance t.kind t.target t.stage).stage.isOver = true ∧
        o.Shows (s.advance t.kind t.target t.stage).workspace := by
    intro o ho
    rw [Task.outcomes, Task.advanced, List.filterMap_append, ← List.append_assoc,
      List.mem_append] at ho
    rcases ho with hold | hnew
    · rw [Workspace.advance_of_isOver (h.ended o hold)]
      exact ⟨rfl, h.shown o hold⟩
    · rcases hstep.sends with
        ⟨hsent, -⟩ | ⟨p, hsent, -⟩ | ⟨o', hsent, hstage, hshows⟩
      · rw [hsent] at hnew
        cases hnew
      · rw [hsent] at hnew
        cases hnew
      · rw [hsent] at hnew
        obtain rfl : o = o' := List.mem_singleton.1 hnew
        rw [hstage]
        exact ⟨rfl, hshows⟩
  refine ⟨?_, ?_, ?_, ?_, ?_⟩
  · intro _ hstage
    exact absurd hstage hstep.begun
  · intro _
    exact h.entries_advance hfactory
  · intro hkind
    exact hstep.fits hkind (h.fits hkind)
  · intro o ho
    exact (hsent o ho).1
  · intro o ho
    exact (hsent o ho).2

/-- Nothing is on show where no class is known. -/
theorem Workspace.tree_of_entries_eq_nil (h : s.store.entries = []) : s.tree.2 = .empty := by
  have hnames : s.store.names = [] := by
    rw [Store.names, h]
    exact List.mergeSort_nil
  show (Package.ofValidNames s.delimiter s.store.names).1 = .empty
  rw [hnames, Package.ofValidNames, QualifiedName.sorted, List.mergeSort_nil]
  rfl

namespace Pipeline

/-- What holds while a task of a kind is served: the hierarchy on show is that of the store, unless
an archive was opened. -/
structure Serves (p : Pipeline) (kind : TaskKind) (delimiter : Text.Loose) (tree : Package)
    (reported : List (String × Option String)) : Prop where
  latest : ∃ t, p.tasks.head? = some t ∧ t.kind = kind ∧ t.Faithful p.workspace reported
  factory : p.workspace.factory ≠ none
  delimiter : p.workspace.delimiter = delimiter
  shown : kind ≠ .decompileArchive → p.workspace.tree.2 = tree

/-- What holds when the outcome was taken over. -/
structure Rests (p : Pipeline) (delimiter : Text.Loose) (tree : Package)
    (reported : List (String × Option String)) : Prop where
  latest : ∀ t, p.tasks.head? = some t → t.stage.isOver = true
  factory : p.workspace.factory ≠ none
  delimiter : p.workspace.delimiter = delimiter
  shown : p.workspace.tree.2 = tree
  stored : p.workspace.store.entries = Assoc.insertAll [] reported

variable {q : Pipeline}

theorem Serves.step (h : p.Serves kind delimiter tree reported) :
    p.step.Serves kind delimiter tree (reported ++ p.reports) := by
  obtain ⟨⟨t, ht, hkind, hfaithful⟩, hfactory, hdelimiter, hshown⟩ := h
  obtain ⟨workspace, tasks⟩ := p
  cases tasks with
  | nil => cases ht
  | cons first earlier =>
    cases ht
    obtain ⟨hsame, hcut⟩ := Workspace.settings_advance hfactory t.kind t.target t.stage
    refine ⟨⟨_, rfl, hkind, hfaithful.advance hfactory⟩, ?_, hcut.trans hdelimiter, ?_⟩
    · exact hsame ▸ hfactory
    · intro hexport
      have hbegin : t.kind = .decompileArchive → t.stage ≠ .ready := fun h =>
        absurd (hkind ▸ h) hexport
      have hstored : workspace.store.entries = Assoc.insertAll [] reported :=
        hfaithful.stored hbegin
      have hreports : t.stage.reports = [] := by
        have hfits := hfaithful.fits (hkind ▸ hexport)
        cases hstage : t.stage with
        | decompiling => rw [hstage] at hfits; cases hfits
        | _ => rfl
      have hentries := hfaithful.entries_advance hfactory
      rw [hreports, List.append_nil, ← hstored] at hentries
      exact (Workspace.tree_congr hcut hentries).trans (hshown hexport)

theorem Serves.work (h : p.Serves kind delimiter tree reported) (n : Nat) :
    (work n p).Serves kind delimiter tree (reported ++ p.reportsWithin n) := by
  induction n generalizing p reported with
  | zero => simpa [Pipeline.work, reportsWithin] using h
  | succ n ih =>
    rw [Pipeline.work, reportsWithin, ← List.append_assoc]
    exact ih h.step

theorem Serves.receives (h : p.Serves kind delimiter tree reported) (hq : p.Receives q) :
    q.Serves kind delimiter tree reported := by
  obtain ⟨⟨t, ht, hkind, hfaithful⟩, hfactory, hdelimiter, hshown⟩ := h
  rw [← hq.workspace] at hfaithful hfactory hdelimiter hshown
  refine ⟨?_, hfactory, hdelimiter, hshown⟩
  rcases hq.latest with hsame | ⟨t', u, ht', hu, hreceives⟩
  · exact ⟨t, hsame.trans ht, hkind, hfaithful⟩
  · obtain rfl : t = t' := Option.some.inj (ht.symm.trans ht')
    exact ⟨u, hu, hreceives.kind.trans hkind, hfaithful.receives hreceives⟩

theorem Rests.receives (h : p.Rests delimiter tree reported) (hq : p.Receives q) :
    q.Rests delimiter tree reported := by
  obtain ⟨hlatest, hfactory, hdelimiter, hshown, hstored⟩ := h
  rw [← hq.workspace] at hfactory hdelimiter hshown hstored
  refine ⟨?_, hfactory, hdelimiter, hshown, hstored⟩
  intro u hu
  rcases hq.latest with hsame | ⟨t, u', ht, hu', hreceives⟩
  · exact hlatest u (hsame ▸ hu)
  · obtain rfl : u = u' := Option.some.inj (hu.symm.trans hu')
    rw [hreceives.stage]
    exact hlatest t ht

theorem Serves.of_world (h : p.Serves kind delimiter tree reported)
    (w : World) :
    Serves { p with workspace := p.workspace.withWorld w } kind delimiter tree reported := by
  obtain ⟨⟨t, ht, hkind, hfaithful⟩, hfactory, hdelimiter, hshown⟩ := h
  exact ⟨⟨t, ht, hkind, hfaithful.unbegun, hfaithful.stored, hfaithful.fits, hfaithful.ended,
    hfaithful.shown⟩, hfactory, hdelimiter, hshown⟩

/-- Only the worker's last step may still be to come. -/
theorem Rests.step (h : p.Rests delimiter tree reported) :
    p.step.Rests delimiter tree (reported ++ p.reports) := by
  obtain ⟨workspace, tasks⟩ := p
  cases tasks with
  | nil => simpa [Pipeline.reports, Pipeline.step] using h
  | cons t earlier =>
    have hended : t.stage.isOver = true := h.latest t rfl
    have hreports : t.stage.reports = [] := by
      cases hstage : t.stage with
      | decompiling => rw [hstage] at hended; cases hended
      | _ => rfl
    have hadvance : workspace.advance t.kind t.target t.stage = workspace.silently .finished :=
      Workspace.advance_of_isOver hended workspace
    rw [Pipeline.step, Pipeline.reports]
    dsimp only
    rw [hadvance, hreports, List.append_nil]
    refine ⟨?_, h.factory, h.delimiter, h.shown, h.stored⟩
    intro u hu
    cases hu
    rfl

/-- The reports of the tasks before are gone when an archive is opened. -/
theorem Rests.start (h : p.Rests delimiter tree reported) {target : Path}
    (hstart : p.start kind target = .ok q) :
    q.Serves kind delimiter tree (if kind = .decompileArchive then [] else reported) := by
  obtain ⟨-, rfl⟩ := start_eq_ok_iff.1 hstart
  refine ⟨⟨_, rfl, rfl, ?_, ?_, ?_, nofun, nofun⟩, h.factory, h.delimiter, fun _ => h.shown⟩
  · intro hkind _
    exact if_pos hkind
  · intro hready
    rw [if_neg fun hkind => hready hkind rfl]
    exact h.stored
  · intro _
    rfl

end Pipeline

namespace Session

variable {settings : Settings} {factory : Factory} {world : World} {c c' : Course} {s : Session}

/-! ## When an outcome is taken over -/

theorem recoverTree_tree (h : s.tree = .empty ∨ s.pipeline.workspace.tree.2 = s.tree) :
    s.recoverTree.tree = s.pipeline.workspace.tree.2 := by
  unfold recoverTree
  split
  · rfl
  · next hkept =>
    rcases h with hempty | hsame
    · have hsize : s.pipeline.workspace.store.entries = [] := by
        rw [hempty, hasResults] at hkept
        simpa [Package.empty, Contents.isEmpty, Store.size, store] using hkept
      rw [Workspace.tree_of_entries_eq_nil hsize, hempty]
    · exact hsame.symm

theorem recoverTree_pipeline (s : Session) :
    ∃ w, s.recoverTree.pipeline =
      { s.pipeline with workspace := s.pipeline.workspace.withWorld w } := by
  unfold recoverTree
  split
  · exact ⟨_, rfl⟩
  · exact ⟨s.world, rfl⟩

/-- Taking over an outcome changes neither the settings nor what archive was opened. -/
theorem unchanged_apply (s : Session) (o : Outcome) :
    (s.apply o).settings = s.settings ∧ (s.apply o).archive = s.archive := by
  have hrecover : s.recoverTree.settings = s.settings ∧ s.recoverTree.archive = s.archive := by
    unfold recoverTree
    split <;> exact ⟨rfl, rfl⟩
  unfold Session.apply
  split
  · exact ⟨rfl, rfl⟩
  · exact hrecover

/-- Each outcome brings what is on show and what is in the store together. -/
theorem rests_apply {o : Outcome} (h : s.pipeline.Serves kind delimiter s.tree reported)
    (hopen : kind = .decompileArchive → s.tree = .empty) (ho : s.pipeline.outcome? = some o) :
    (s.apply o).pipeline.Rests delimiter (s.apply o).tree reported := by
  obtain ⟨⟨t, ht, hkind, hfaithful⟩, hfactory, hdelimiter, hshown⟩ := h
  have hmem : o ∈ t.outcomes := by
    rw [Pipeline.outcome?, ht] at ho
    exact List.mem_append_left _ (Option.mem_toList.2 ho)
  have hended := hfaithful.ended o hmem
  have hstored := hfaithful.stored fun _ hready => by
    rw [hready] at hended
    cases hended
  have hlatest : ∀ u, s.pipeline.tasks.head? = some u → u.stage.isOver = true := by
    intro u hu
    obtain rfl : t = u := Option.some.inj (ht.symm.trans hu)
    exact hended
  have hrecover : s.recoverTree.pipeline.Rests delimiter s.recoverTree.tree reported := by
    have htree : s.recoverTree.tree = s.pipeline.workspace.tree.2 := by
      apply recoverTree_tree
      by_cases hdecompile : kind = .decompileArchive
      · exact .inl (hopen hdecompile)
      · exact .inr (hshown hdecompile)
    obtain ⟨w, hpipeline⟩ := s.recoverTree_pipeline
    rw [htree, hpipeline]
    exact ⟨hlatest, hfactory, hdelimiter, rfl, hstored⟩
  unfold Session.apply
  split
  · exact ⟨hlatest, hfactory, hdelimiter, (hfaithful.shown _ hmem _ _ _ rfl).symm, hstored⟩
  · exact hrecover

/-! ## The whole course -/

/-- What holds all along the course of a session. -/
structure Course.Consistent (c : Course) (delimiter : Text.Loose) : Prop where
  archive : c.session.archive = c.opened
  rests : c.isPending = false → c.session.pipeline.Rests delimiter c.session.tree c.reported
  serves : c.isPending = true → ∃ kind,
    c.session.pipeline.Serves kind delimiter c.session.tree c.reported ∧
      (kind = .decompileArchive → c.session.tree = .empty)

theorem Course.consistent_start (settings : Settings) (factory : Factory) (world : World) :
    (Course.start settings factory world).Consistent settings.delimiter := by
  have htree := @Workspace.tree_of_entries_eq_nil
    (Session.new settings (some factory) world).pipeline.workspace rfl
  refine ⟨rfl, ?_, nofun⟩
  intro _
  refine ⟨?_, Option.some_ne_none factory, rfl, htree, rfl⟩
  intro t ht
  cases ht

theorem Course.Consistent.accept {target : Path} {ahead : Nat} {p : Pipeline} {s : Session}
    (h : c.Consistent delimiter) (hpending : c.isPending = false)
    (hstart : c.session.pipeline.start kind target = .ok p)
    (hs : c.session.startAhead kind target ahead = .ok s) :
    (c.accept s kind target (p.reportsWithin ahead)).Consistent delimiter := by
  have hserves := ((h.rests hpending).start hstart).work ahead
  rw [startAhead, hstart] at hs
  cases kind with
  | decompileArchive =>
    cases hs
    refine ⟨rfl, fun hnot => Bool.noConfusion hnot, ?_⟩
    intro _
    obtain ⟨hlatest, hfactory, hdelimiter, -⟩ := hserves.of_world
      ((p.work ahead).workspace.world.note ⟨.info, .session, s!"Opening {target}"⟩)
    exact ⟨.decompileArchive, ⟨hlatest, hfactory, hdelimiter, fun h => absurd rfl h⟩, fun _ => rfl⟩
  | exportDirectory =>
    cases hs
    refine ⟨h.archive, fun hnot => Bool.noConfusion hnot, ?_⟩
    intro _
    exact ⟨.exportDirectory, hserves, fun hkind => TaskKind.noConfusion hkind⟩
  | exportArchive =>
    cases hs
    refine ⟨h.archive, fun hnot => Bool.noConfusion hnot, ?_⟩
    intro _
    exact ⟨.exportArchive, hserves, fun hkind => TaskKind.noConfusion hkind⟩

theorem Course.Consistent.receives {q : Pipeline} (h : c.Consistent delimiter)
    (hq : c.session.pipeline.Receives q) :
    Course.Consistent { c with session := { c.session with pipeline := q } } delimiter := by
  refine ⟨h.archive, ?_, ?_⟩
  · intro hpending
    exact (h.rests hpending).receives hq
  · intro hpending
    obtain ⟨kind, hserves, hopen⟩ := h.serves hpending
    exact ⟨kind, hserves.receives hq, hopen⟩

theorem Course.Consistent.step (h : c.Consistent delimiter) (hstep : c.Step c') :
    c'.Consistent delimiter := by
  cases hstep with
  | accept hpending hstart hs => exact h.accept hpending hstart hs
  | refuse hs =>
    rw [fst_after_of_refused hs]
    exact h
  | work =>
    refine ⟨h.archive, ?_, ?_⟩
    · intro hpending
      exact (h.rests hpending).step
    · intro hpending
      obtain ⟨kind, hserves, hopen⟩ := h.serves hpending
      exact ⟨kind, hserves.step, hopen⟩
  | poll => exact h.receives (c.session.pipeline.receives_poll _)
  | wait => exact h.receives (c.session.pipeline.receives_wait _)
  | apply hpending ho =>
    obtain ⟨kind, hserves, hopen⟩ := h.serves hpending
    exact ⟨(unchanged_apply _ _).2.trans h.archive, fun _ => rests_apply hserves hopen ho, nofun⟩
  | supply =>
    refine ⟨h.archive, ?_, ?_⟩
    · intro hpending
      obtain ⟨hlatest, -, hdelimiter, hshown, hstored⟩ := h.rests hpending
      exact ⟨hlatest, nofun, hdelimiter, hshown, hstored⟩
    · intro hpending
      obtain ⟨kind, ⟨⟨t, ht, hkind, hfaithful⟩, -, hdelimiter, hshown⟩, hopen⟩ := h.serves hpending
      exact ⟨kind, ⟨⟨t, ht, hkind, hfaithful.unbegun, hfaithful.stored, hfaithful.fits,
        hfaithful.ended, hfaithful.shown⟩, nofun, hdelimiter, hshown⟩, hopen⟩

theorem Course.Consistent.reaches (h : c.Consistent delimiter)
    (hc : Relation.ReflTransGen Course.Step c c') : c'.Consistent delimiter := by
  induction hc with
  | refl => exact h
  | tail _ hstep ih => exact ih.step hstep

/-- The settings of a session stay as they are. -/
theorem Course.settings_step (h : c.Step c') : c'.session.settings = c.session.settings := by
  cases h with
  | @accept kind _ _ _ _ _ hstart hs =>
    rw [startAhead, hstart] at hs
    cases kind <;> cases hs <;> rfl
  | refuse hs => rw [fst_after_of_refused hs]
  | apply => exact (unchanged_apply _ _).1
  | work | poll | wait | supply => rfl

theorem Course.settings_reaches (hc : Relation.ReflTransGen Course.Step c c') :
    c'.session.settings = c.session.settings := by
  induction hc with
  | refl => rfl
  | tail _ hstep ih => exact (Course.settings_step hstep).trans ih

/-- The hierarchy of the names in a store has the valid ones for its members, in order. -/
theorem qualified_tree (w : Workspace) :
    w.tree.2.members.map Member.qualified =
      QualifiedName.sorted (w.store.names.filter (QualifiedName.isValid w.delimiter)) := by
  obtain ⟨b, htree, hb⟩ := Package.holds_ofValidNames w.delimiter w.store.names
  have hnodup : (w.store.names.filter (QualifiedName.isValid w.delimiter)).Nodup :=
    w.store.nodup_names.filter _
  have hmembers := hb.qualified_eq
  rw [hnodup.dedup] at hmembers
  rw [← hmembers]
  exact congrArg (fun p : Package => p.members.map Member.qualified) htree

/-- Whatever requests are made of a session and whatever its engines do: when no outcome is pending,
the classes on show are the valid ones of those in the store, in order, the archive is the one that
was opened last, and the store holds what the engine of that archive has reported and nothing
else. -/
theorem consistent_of_reaches (settings : Settings) (factory : Factory) (world : World)
    {c : Course} (hc : Relation.ReflTransGen Course.Step (.start settings factory world) c)
    (hpending : c.isPending = false) :
    let s := c.session
    s.tree.members.map Member.qualified =
        QualifiedName.sorted (s.store.names.filter (QualifiedName.isValid settings.delimiter)) ∧
      s.tree = (Package.ofValidNames settings.delimiter s.store.names).1 ∧
      s.archive = c.opened ∧
      s.store.entries = Assoc.insertAll [] c.reported := by
  intro s
  have hconsistent := (Course.consistent_start settings factory world).reaches hc
  obtain ⟨-, -, hdelimiter, hshown, hstored⟩ := hconsistent.rests hpending
  have hqualified := qualified_tree s.pipeline.workspace
  rw [hshown, hdelimiter] at hqualified
  refine ⟨hqualified, ?_, hconsistent.archive, hstored⟩
  rw [← hdelimiter]
  exact hshown.symm

/-! ## A course -/

/-- A session without a worker accepts any task. -/
theorem Course.step_accept (hpending : c.isPending = false) (hidle : c.session.isBusy = false)
    (target : Path) :
    c.Step (c.accept (c.session.opened target) .decompileArchive target []) := by
  have hs : c.session.startAhead .decompileArchive target 0 = .ok (c.session.opened target) := by
    rw [startAhead_zero, start_decompile hidle]
  exact .accept hpending (Pipeline.start_of_idle hidle _ _) hs

/-- The course after a number of steps of the worker. -/
def Course.works : Nat → Course → Course
  | 0, c => c
  | n + 1, c => works n { c with
      session := (c.session.after .work).1
      reported := c.reported ++ c.session.pipeline.reports }

theorem Course.reaches_works (n : Nat) (c : Course) :
    Relation.ReflTransGen Course.Step c (c.works n) := by
  induction n generalizing c with
  | zero => exact .refl
  | succ n ih => exact .head .work (ih _)

namespace Sample

def first : Path := ⟨.relative, ["a.jar"]⟩

def second : Path := ⟨.relative, ["b.jar"]⟩

/-- An engine that reports a class and then performs some more acts. -/
def engine (name : String) (acts : List Act) : Factory :=
  .script ⟨name, [], .unit name (some name) :: acts, []⟩

/-- The first archive was opened, and its engine has failed behind the first class. -/
def failed : Course :=
  let c := Course.start .default (engine "p/A" [.throw (.other "Exception" "x")])
    (.start .empty {})
  let c := (c.accept (c.session.opened first) .decompileArchive first []).works 5
  { c with session := (c.session.after (.poll 0)).1 }

/-- The second archive was opened and has been decompiled. -/
def decompiled : Course :=
  let c : Course := { failed with
    session := (failed.session.after (.apply (.failure "x"))).1, isPending := false }
  let c : Course := { c with session := (c.session.after (.supply (engine "q/B" []))).1 }
  let c := (c.accept (c.session.opened second) .decompileArchive second []).works 5
  { c with session := (c.session.after (.wait 1)).1 }

/-- How the second task has ended. -/
def outcome : Outcome := (decompiled.session.pipeline.outcome?).getD (.success none)

/-- Its outcome was taken over. -/
def shown : Course :=
  { decompiled with session := (decompiled.session.after (.apply outcome)).1, isPending := false }

theorem reaches_failed :
    Relation.ReflTransGen Course.Step
      (.start .default (engine "p/A" [.throw (.other "Exception" "x")]) (.start .empty {}))
      failed :=
  .head (Course.step_accept rfl rfl first) (.tail (Course.reaches_works 5 _) .poll)

theorem reaches_shown : Relation.ReflTransGen Course.Step failed shown := by
  refine .head (@Course.Step.apply _ (.failure "x") rfl rfl) ?_
  refine .head (@Course.Step.supply _ (engine "q/B" [])) ?_
  refine .head (Course.step_accept rfl rfl second) ((Course.reaches_works 5 _).trans ?_)
  exact .head (@Course.Step.wait _ 1) (.single (.apply rfl rfl))

end Sample

/-- The class of the archive that was opened first is gone. -/
theorem consistent_of_reaches_sample :
    let s := Sample.shown.session
    s.tree.members.map Member.qualified =
        QualifiedName.sorted (s.store.names.filter (QualifiedName.isValid "/")) ∧
      s.archive = some Sample.second ∧ s.store.entries = [("q/B", some "q/B")] := by
  obtain ⟨hmembers, -, harchive, hstored⟩ := consistent_of_reaches .default
    (Sample.engine "p/A" [.throw (.other "Exception" "x")]) (.start .empty {})
    (Sample.reaches_failed.trans Sample.reaches_shown) rfl
  exact ⟨hmembers, harchive, hstored⟩

end Session

end ClassBrowser
