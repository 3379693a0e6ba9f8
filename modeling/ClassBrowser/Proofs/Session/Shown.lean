import ClassBrowser.Proofs.Package.Find
import ClassBrowser.Proofs.Session.Consistency
import ClassBrowser.Proofs.Task.CompletedExports

/-!
# What is shown is what is exported

The text of a class is looked for twice over, once when it is shown and once when it is exported: in
the store, else from the engine, and else there is none.  Both ways come to the same, provided that
the engine always gives the same texts: the classes that an export writes are those that are shown
by a text of their own, with the bytes of that very text, and those that it skips are shown by the
comment that they have none (`exports_shown`).
-/

namespace ClassBrowser

open Export (Writer)

/-- Where what is shown for a class comes from: the store, the engine, or neither; the class may not
be known at all. -/
inductive Origin
  | store (text : String)
  | engine (text : String)
  | notRendered
  | notFound
deriving DecidableEq

namespace Origin

/-- The text that the class has of its own. -/
def own? : Origin → Option String
  | store text | engine text => some text
  | notRendered | notFound => none

/-- Where the text comes from when the engine was asked for it. -/
def ofAnswer : Option String → Origin
  | some text => engine text
  | none => notRendered

/-- The text that is shown for a class of a name. -/
def shown (name : String) : Origin → String
  | store text | engine text => text
  | notRendered => Session.notRendered name
  | notFound => Session.notFound name

theorem own?_ofAnswer (text : Option String) : (ofAnswer text).own? = text := by
  cases text <;> rfl

theorem ofAnswer_ne_notFound (text : Option String) : ofAnswer text ≠ .notFound := by
  cases text <;> intro h <;> cases h

theorem store_ne_notFound (text : String) : store text ≠ .notFound := by
  intro h
  cases h

theorem shown_of_own? {o : Origin} {text : String} (h : o.own? = some text) (name : String) :
    o.shown name = text := by
  cases o with
  | store | engine => exact Option.some.inj h
  | notRendered | notFound => cases h

theorem eq_notRendered_iff {o : Origin} (h : o ≠ .notFound) :
    o = .notRendered ↔ o.own?.isNone = true := by
  cases o with
  | store | engine => exact ⟨nofun, nofun⟩
  | notRendered => exact ⟨fun _ => rfl, fun _ => rfl⟩
  | notFound => exact absurd rfl h

end Origin

namespace Session

variable {s : Session} {f : String → Option String} {name : String}

/-- Where the text that is shown for a class comes from, unless the engine throws. -/
def origin (s : Session) (name : String) : Except Thrown Origin :=
  match s.store.text? name with
  | some text => .ok (.store text)
  | none =>
    if !s.isKnown name then .ok .notFound
    else match s.pipeline.workspace.engine with
      | none => .ok .notRendered
      | some e => (e.renderNow s.world name).2.map Origin.ofAnswer

theorem content_eq_origin (s : Session) (name : String) :
    (s.content name).2 = (s.origin name).map (Origin.shown name) := by
  unfold content origin
  cases s.store.text? name with
  | some text => rfl
  | none =>
    cases s.isKnown name with
    | false => rfl
    | true =>
      cases s.pipeline.workspace.engine with
      | none => rfl
      | some e =>
        dsimp only
        rcases e.renderNow s.world name with ⟨w, result⟩
        cases result with
        | error t => rfl
        | ok text => cases text <;> rfl

theorem isKnown_of_mem_names (h : name ∈ s.store.names) : s.isKnown name = true := by
  obtain ⟨text, hentry⟩ := Assoc.mem_keys_iff.1 (Store.mem_names_iff.1 h)
  rw [isKnown, Store.contains, Assoc.contains, hentry]
  rfl

/-- The origin of what is shown for a class in the store. -/
theorem origin_of_renders (h : s.pipeline.workspace.Renders f) (hname : name ∈ s.store.names) :
    ∃ o : Origin, s.origin name = .ok o ∧ o.own? = s.pipeline.workspace.textOf f name ∧
      o ≠ .notFound := by
  have htext : s.pipeline.workspace.textOf f name = (s.store.text? name).or (f name) := rfl
  unfold origin
  rw [htext, isKnown_of_mem_names hname]
  cases hstored : s.store.text? name with
  | some text => exact ⟨_, rfl, rfl, Origin.store_ne_notFound text⟩
  | none =>
    have hanswer := h name hname hstored
    cases hengine : s.pipeline.workspace.engine with
    | none =>
      rw [hengine] at hanswer
      exact ⟨_, rfl, hanswer.symm, Origin.ofAnswer_ne_notFound none⟩
    | some e =>
      rw [hengine] at hanswer
      exact ⟨_, congrArg (Except.map Origin.ofAnswer) (hanswer s.world), Origin.own?_ofAnswer _,
        Origin.ofAnswer_ne_notFound _⟩

/-- Whether a class is on show or in the store. -/
def Lists (s : Session) (name : String) : Prop :=
  name ∈ s.store.names ∨ (s.tree.find? s.settings.delimiter name).isSome = true ∨
    name ∈ s.tree.members.map Member.qualified

/-- When no outcome is pending, the classes on show are in the store. -/
theorem mem_names_of_lists {c : Course} (h : c.Consistent c.session.settings.delimiter)
    (hpending : c.isPending = false) (hlists : c.session.Lists name) :
    name ∈ c.session.store.names := by
  have hrests := h.rests hpending
  rcases hlists with hstored | hfound | hshown
  · exact hstored
  · rw [← hrests.shown, ← hrests.delimiter] at hfound
    exact ((Package.isSome_find?_ofValidNames _ _ _).1 hfound).1
  · have hqualified := qualified_tree c.session.pipeline.workspace
    rw [hrests.shown] at hqualified
    rw [hqualified] at hshown
    exact (List.mem_filter.1 (List.mem_mergeSort.1 hshown)).1

/-- The text that an export writes for a class is the one that is shown for it. -/
theorem content_of_mem_withText (h : s.pipeline.workspace.Renders f) {class_ : String × String}
    (hclass : class_ ∈ s.pipeline.workspace.withText f) :
    (s.content class_.1).2 = .ok class_.2 := by
  obtain ⟨hname, htext⟩ := Workspace.mem_withText_iff.1 hclass
  obtain ⟨o, ho, hown, -⟩ := origin_of_renders h hname
  rw [content_eq_origin, ho, Except.map, Origin.shown_of_own? (hown.trans htext)]

/-- What was written for a class that is shown by a text of its own stands in its file for good, if
the extension does not lead elsewhere and the log is not written there. -/
theorem read_of_holdsFiles {w : Writer} {log : Option Place} {before after : Files}
    {saved : List (String × String)} {tried : List String} {class_ : String × String} {file : Path}
    (h : w.HoldsFiles log before after saved tried) (hclass : class_ ∈ saved)
    (hfile : w.IsFileOf class_.1 file) (hlog : log ≠ some file.place) :
    after.read file = .ok class_.2.toUTF8 := by
  have hunique : ∀ file', w.IsFileOf class_.1 file' → file' = file := by
    rintro file' ⟨path', hpath', rfl⟩
    obtain ⟨path, hpath, rfl⟩ := hfile
    rw [Except.ok.inj (hpath.symm.trans hpath')]
  obtain ⟨file', hfile', hread⟩ := h.read hclass fun file' hfile' => hunique file' hfile' ▸ hlog
  rwa [hunique file' hfile'] at hread

/-- Whatever requests were made of a session and whatever its engines did: when it is idle and its
engine, if there is one, always gives the same texts, an export that succeeds has done with each
class in the store what is shown for it.  A class that is shown by a text of its own was written
with the bytes of that text, one that is shown by the comment that it has none was skipped, and no
class that is on show or in the store is said not to be found. -/
theorem exports_shown (settings : Settings) (factory : Factory) (world : World) {c : Course}
    (hc : Relation.ReflTransGen Course.Step (.start settings factory world) c)
    (hpending : c.isPending = false) (hidle : c.session.isBusy = false)
    (hrenders : c.session.pipeline.workspace.Renders f) {kind : TaskKind}
    (hkind : kind ≠ .decompileArchive) {target : Path} {q : Pipeline} {sent : List Message}
    {summary : Summary} (hperform : c.session.pipeline.perform kind target = .ok (q, sent))
    (hsuccess : .finished (.success (some (.exported summary))) ∈ sent) :
    let s := c.session
    let w := s.pipeline.workspace.writerFor kind target
    (∀ name, s.Lists name → ∃ o : Origin, s.origin name = .ok o ∧
        (s.content name).2 = .ok (o.shown name) ∧ o ≠ .notFound) ∧
      (summary.written ++ summary.skipped).Perm s.store.names ∧
      (∀ name ∈ s.store.names, ∀ o : Origin, s.origin name = .ok o →
        (name ∈ summary.written ↔ o.own?.isSome = true) ∧
        (name ∈ summary.skipped ↔ o = .notRendered)) ∧
      (kind = .exportArchive → ∃ entries executable,
        q.workspace.world.files.get target = .ok (.file (.archive entries) executable) ∧
          List.Forall₂ (fun name entry => ∃ text, (s.content name).2 = .ok text ∧
            Saves w ⟨name, some text⟩ entry) summary.written entries) ∧
      (kind = .exportDirectory → ∀ name ∈ summary.written, ∃ text,
        (s.content name).2 = .ok text ∧ s.pipeline.workspace.Writes target (name, text) ∧
          (.char '/' ∉ w.extension.glyphs → .char '\x00' ∉ w.extension.glyphs →
            ∀ file, w.IsFileOf name file → s.world.logPlace ≠ some file.place →
              q.workspace.world.files.read file = .ok text.toUTF8)) := by
  intro s w
  have hconsistent : c.Consistent s.settings.delimiter := by
    rw [show s.settings = settings from Course.settings_reaches hc]
    exact (Course.consistent_start settings factory world).reaches hc
  obtain ⟨hsummary, hdirectory, harchive⟩ :=
    Pipeline.perform_writes hidle hkind hrenders hperform hsuccess
  obtain ⟨-, -, hperm⟩ := s.pipeline.workspace.withText_withoutText f
  have hwritten := s.pipeline.workspace.map_fst_withText f
  rw [hsummary]
  refine ⟨?_, hperm, ?_, ?_, ?_⟩
  · intro name hlists
    obtain ⟨o, ho, -, hfound⟩ :=
      origin_of_renders hrenders (mem_names_of_lists hconsistent hpending hlists)
    exact ⟨o, ho, by rw [content_eq_origin, ho, Except.map], hfound⟩
  · intro name hname o ho
    obtain ⟨o', ho', hown, hfound⟩ := origin_of_renders hrenders hname
    obtain rfl : o = o' := Except.ok.inj (ho.symm.trans ho')
    constructor
    · rw [hwritten, List.mem_filter, hown]
      exact ⟨And.right, And.intro hname⟩
    · rw [Origin.eq_notRendered_iff hfound, Workspace.withoutText, List.mem_filter, hown]
      exact ⟨And.right, And.intro hname⟩
  · intro hkind
    obtain ⟨entries, executable, hget, hentries⟩ := harchive hkind
    refine ⟨entries, executable, hget, ?_⟩
    have hcontents : ∀ c ∈ s.pipeline.workspace.withText f, (s.content c.1).2 = .ok c.2 :=
      fun _ => content_of_mem_withText hrenders
    rw [List.forall₂_map_left_iff]
    refine ((List.forall₂_and_left _ _).2 ⟨hcontents, hentries⟩).imp ?_
    rintro c entry ⟨hcontent, hsaves⟩
    exact ⟨c.2, hcontent, hsaves⟩
  · intro hkind name hname
    obtain ⟨class_, hclass, rfl⟩ := List.mem_map.1 hname
    refine ⟨class_.2, content_of_mem_withText hrenders hclass, hdirectory hkind class_ hclass, ?_⟩
    intro hslash hext file hfile hlog
    subst hkind
    obtain ⟨-, hholds⟩ :=
      Pipeline.perform_exportDirectory hidle hrenders hslash hext hperform hsuccess
    exact read_of_holdsFiles hholds hclass hfile hlog

/-! ## An export -/

namespace Sample

/-- An engine that reports three classes, one of them with its text, and has the text of another. -/
def mixing : Factory :=
  .script ⟨"e", [], [.unit "p/A" (some "a"), .unit "p/B" none, .unit "p/C" none],
    [("p/B", .ofText (some "b"))]⟩

/-- The archive has been decompiled. -/
def mixed : Course :=
  let c := Course.start .default mixing (.start .empty {})
  let c := (c.accept (c.session.opened first) .decompileArchive first []).works 8
  { c with session := (c.session.after (.wait 0)).1 }

/-- The classes in it are on show. -/
def listed : Course :=
  { mixed with
    session := (mixed.session.after
      (.apply ((mixed.session.pipeline.outcome?).getD (.success none)))).1
    isPending := false }

theorem reaches_listed :
    Relation.ReflTransGen Course.Step (.start .default mixing (.start .empty {})) listed := by
  refine .head (Course.step_accept rfl rfl first) ((Course.reaches_works 8 _).trans ?_)
  exact .head (@Course.Step.wait _ 0) (.single (.apply rfl rfl))

theorem engine_listed : listed.session.pipeline.workspace.engine =
    some ⟨0, .script ⟨"e", [], [.unit "p/A" (some "a"), .unit "p/B" none, .unit "p/C" none],
      [("p/B", .ofText (some "b"))]⟩⟩ := rfl

/-- The classes in the store are those of the sample of exports. -/
theorem store_listed :
    listed.session.pipeline.workspace.store = Pipeline.Sample.mixed.store := rfl

theorem renders_listed : listed.session.pipeline.workspace.Renders Pipeline.Sample.rendered :=
  Workspace.renders_of_script engine_listed (by decide)

theorem withText_listed : listed.session.pipeline.workspace.withText Pipeline.Sample.rendered =
    [("p/A", "a"), ("p/B", "b")] :=
  Pipeline.Sample.withText_mixed

theorem withoutText_listed :
    listed.session.pipeline.workspace.withoutText Pipeline.Sample.rendered = ["p/C"] :=
  Pipeline.Sample.withoutText_mixed

/-- All the names are valid, so that nothing is said about them. -/
theorem world_listed : ∃ log calls,
    listed.session.world = { World.start .empty {} with log, calls, engines := 1 } := by
  have hsorted : QualifiedName.sorted ["p/A", "p/B", "p/C"] = ["p/A", "p/B", "p/C"] :=
    List.mergeSort_of_pairwise (by decide)
  have hrecords : (Package.ofValidNames "/" listed.session.store.names).2 = [] := by
    rw [store, store_listed, Pipeline.Sample.names_mixed, Package.records_ofValidNames, hsorted]
    decide +kernel
  have hworld : listed.session.world = World.noteAll _
    (Package.ofValidNames "/" listed.session.store.names).2 := rfl
  rw [hworld, hrecords]
  exact ⟨_, _, rfl⟩

theorem perform_listed : ∃ q,
    listed.session.pipeline.perform .exportArchive Pipeline.Sample.archive = .ok (q,
      listed.session.pipeline.workspace.exportReport Pipeline.Sample.rendered
        Pipeline.Sample.archive) := by
  obtain ⟨log, calls, hworld⟩ := world_listed
  have hcreate : listed.session.pipeline.workspace.CanCreateArchive Pipeline.Sample.archive := by
    apply Workspace.canCreateArchive_of_isSome
    show (Writer.openTarget _ (World.note listed.session.world _).files).2.toOption.isSome = true
    rw [hworld]
    rfl
  have hroom : listed.session.pipeline.workspace.HasRoom Pipeline.Sample.rendered
      Pipeline.Sample.archive := by
    show ∀ entries, _ → listed.session.world.files.device.HasRoomFor _ entries
    rw [hworld]
    exact Pipeline.Sample.hasRoom_mixed
  obtain ⟨q, hperform, -⟩ := Pipeline.perform_exportArchive rfl renders_listed (by decide)
    (by decide) Pipeline.Sample.fitsArchive_mixed hcreate hroom
  exact ⟨q, hperform⟩

end Sample

/-- Of three classes the two with a text are exported, and the third one is skipped. -/
theorem exports_shown_sample :
    let s := Sample.listed.session
    ∃ q entries executable, s.pipeline.perform .exportArchive Pipeline.Sample.archive =
        .ok (q, savedMessages 3 3 ++ [.finished (.success (some (.exported
          ⟨Pipeline.Sample.archive, ["p/A", "p/B"], ["p/C"]⟩)))]) ∧
      q.workspace.world.files.get Pipeline.Sample.archive =
        .ok (.file (.archive entries) executable) ∧
      List.Forall₂ (fun name entry => ∃ text, (s.content name).2 = .ok text ∧
        Saves (s.pipeline.workspace.writerFor .exportArchive Pipeline.Sample.archive)
          ⟨name, some text⟩
          entry)
        ["p/A", "p/B"] entries := by
  intro s
  obtain ⟨q, hperform⟩ := Sample.perform_listed
  rw [Workspace.exportReport, Sample.withText_listed, Sample.withoutText_listed] at hperform
  obtain ⟨-, -, -, harchive, -⟩ := exports_shown .default Sample.mixing (.start .empty {})
    Sample.reaches_listed rfl rfl Sample.renders_listed (by decide) hperform
    (List.mem_append_right _ (List.mem_singleton_self _))
  obtain ⟨entries, executable, hget, hentries⟩ := harchive rfl
  exact ⟨q, entries, executable, hperform, hget, hentries⟩

end Session

end ClassBrowser
