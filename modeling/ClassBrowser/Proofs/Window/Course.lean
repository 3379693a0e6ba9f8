import ClassBrowser.Proofs.Window.Events

/-!
# The course of a window

Whatever the user does and whatever the worker does in between, the class tree shows the hierarchy
of the session, unless a request to open an archive was refused: such a request empties the tree
before it is known to be refused, and the tree stays empty until an archive is opened or the outcome
of one arrives (`mirrors_iff_of_run`).

The window takes over each outcome as it receives it, so that its session goes through a course in
the sense of `Session.Course`; the session waits for an outcome when the window has a handle
(`Window.Attends`).
-/

namespace ClassBrowser

variable {t : Task} {o : Outcome} {kind : TaskKind} {target : Path} {delimiter : Text.Loose}

/-! ## A task that is waited for -/

/-- Whether the outcome of a task is still to be received: there are progress reports in its queue,
and the outcome behind them once the worker has sent it. -/
structure Task.Awaited (t : Task) : Prop where
  outcome : t.outcome = none
  queue : (∀ m ∈ t.queue, m.outcome? = none) ∨
    ∃ o, IsReport t.queue o ∧ t.stage.isOver = true

theorem Task.Awaited.advance (h : t.Awaited) (s : Workspace) :
    (t.advanced (s.advance t.kind t.target t.stage)).Awaited := by
  obtain ⟨hnone, hqueue⟩ := h
  refine ⟨hnone, ?_⟩
  rcases hqueue with hprogress | ⟨o, hreport, hover⟩
  · cases (s.isStep_advance t.kind t.target t.stage).sends with
    | nothing hsent =>
      left
      rwa [Task.advanced, hsent, List.append_nil]
    | progress p hsent =>
      left
      rw [Task.advanced, hsent]
      intro m hm
      rcases List.mem_append.1 hm with hold | hnew
      · exact hprogress m hold
      · rw [List.mem_singleton.1 hnew]
        rfl
    | outcome o hsent hstage =>
      right
      refine ⟨o, ⟨t.queue, ?_, hprogress⟩, ?_⟩
      · rw [Task.advanced, hsent]
      · rw [Task.advanced, hstage]
        rfl
  · right
    rw [Workspace.advance_of_isOver hover]
    exact ⟨o, by rwa [Task.advanced, Workspace.silently, List.append_nil], rfl⟩

/-! ## What a session does for the window -/

namespace Session

variable {s : Session} {c : Course} {reported : List (String × Option String)}

theorem exists_withWorld_highlighted (s : Session) (name : String) :
    ∃ w, (s.highlighted name).1 = s.withWorld w := by
  show ∃ w, (s.content name).1 = s.withWorld w
  unfold content
  split
  · exact ⟨s.world, rfl⟩
  · split
    · exact ⟨s.world, rfl⟩
    · split
      · exact ⟨s.world, rfl⟩
      · exact ⟨_, rfl⟩

theorem Course.Consistent.withWorld (h : c.Consistent delimiter) (w : World) :
    Course.Consistent { c with session := c.session.withWorld w } delimiter := by
  refine ⟨h.archive, ?_, ?_⟩
  · intro hpending
    obtain ⟨hlatest, hfactory, hdelimiter, hshown, hstored⟩ := h.rests hpending
    exact ⟨hlatest, hfactory, hdelimiter, hshown, hstored⟩
  · intro hpending
    obtain ⟨kind, hserves, hopen⟩ := h.serves hpending
    exact ⟨kind, hserves.of_world w, hopen⟩

/-- The outcome of an export leaves on show what was there. -/
theorem apply_tree (h : s.pipeline.Serves kind delimiter s.tree reported)
    (hkind : kind ≠ .decompileArchive) (ho : s.pipeline.outcome? = some o) :
    (s.apply o).tree = s.tree := by
  have hrests := rests_apply h (fun hopen => absurd hopen hkind) ho
  obtain ⟨w, hpipeline⟩ := s.exists_workspace_apply o
  rw [← hrests.shown, hpipeline, ← h.shown hkind]
  rfl

end Session

/-! ## What is true of the window all along -/

namespace Window

variable {w w' : Window} {s : Session} {number : Nat} {emptied : Bool}

/-- What the window works on: when it waits for no task its session rests, and the task that it
waits for is the latest one. -/
structure Attends (w : Window) (delimiter : Text.Loose) : Prop where
  consistent : ∃ opened reported,
    Session.Course.Consistent ⟨w.session, opened, reported, w.handle.isSome⟩ delimiter
  awaited : ∀ number, w.handle = some number →
    ∃ t, w.session.pipeline.tasks.head? = some t ∧ t.number = number ∧ t.Awaited

/-- What the tree shows: the hierarchy of the session, or nothing if it was emptied. -/
structure Displays (w : Window) (emptied : Bool) : Prop where
  mirrors : emptied = false → w.Mirrors w.session.tree.contents
  empty : emptied = true → w.items = [] ∧ w.members = []

/-- What is true of the window as a whole. -/
structure Sound (w : Window) (delimiter : Text.Loose) (emptied : Bool) : Prop where
  attends : w.Attends delimiter
  displays : w.Displays emptied

theorem Attends.congr (h : w.Attends delimiter) (hsession : w'.session = w.session)
    (hhandle : w'.handle = w.handle) : w'.Attends delimiter := by
  obtain ⟨hconsistent, hawaited⟩ := h
  rw [← hsession, ← hhandle] at hconsistent hawaited
  exact ⟨hconsistent, hawaited⟩

theorem Displays.congr (h : w.Displays emptied) (htree : w'.session.tree = w.session.tree)
    (hitems : w'.items = w.items) (hmembers : w'.members = w.members) : w'.Displays emptied := by
  refine ⟨?_, ?_⟩
  · intro hfilled
    rw [htree]
    exact (h.mirrors hfilled).congr hitems hmembers
  · intro hemptied
    rw [hitems, hmembers]
    exact h.empty hemptied

theorem Displays.mirrors_iff (h : w.Displays emptied) :
    w.Mirrors w.session.tree.contents ↔ emptied = false ∨ w.session.tree.contents = .nil := by
  cases emptied with
  | false => exact iff_of_true (h.mirrors rfl) (.inl rfl)
  | true =>
    obtain ⟨hitems, hmembers⟩ := h.empty rfl
    rw [mirrors_iff_of_items_eq_nil hitems hmembers]
    exact (or_iff_right Bool.noConfusion).symm

theorem Sound.keeps (h : w.Sound delimiter emptied) (hkeeps : w.Keeps w') :
    w'.Sound delimiter emptied where
  attends := h.attends.congr hkeeps.session hkeeps.handle
  displays :=
    h.displays.congr (congrArg Session.tree hkeeps.session) hkeeps.items hkeeps.members

/-! ## The worker -/

theorem Sound.work (h : w.Sound delimiter emptied) :
    (w.withPipeline w.session.pipeline.step).Sound delimiter emptied := by
  obtain ⟨⟨⟨opened, reported, hconsistent⟩, hawaited⟩, hdisplays⟩ := h
  refine ⟨⟨⟨opened, _, hconsistent.step .work⟩, ?_⟩, hdisplays.congr rfl rfl rfl⟩
  intro number hnumber
  obtain ⟨t, ht, hown, hwaits⟩ := hawaited number hnumber
  exact ⟨_, (Pipeline.head?_step ht).2.1, hown, hwaits.advance _⟩

/-- The window whose session gets its engines elsewhere. -/
def supplied (w : Window) (factory : Factory) : Window :=
  w.withPipeline { w.session.pipeline with
    workspace := { w.session.pipeline.workspace with factory := some factory } }

theorem Sound.supply (h : w.Sound delimiter emptied) (factory : Factory) :
    (w.supplied factory).Sound delimiter emptied := by
  obtain ⟨⟨⟨opened, reported, hconsistent⟩, hawaited⟩, hdisplays⟩ := h
  exact ⟨⟨⟨opened, reported, hconsistent.step .supply⟩, hawaited⟩, hdisplays.congr rfl rfl rfl⟩

/-! ## Receiving -/

/-- Whether the messages that the window is about to receive end with the outcome of an opened
archive. -/
def refills (w : Window) : Bool :=
  match w.handle.bind w.session.pipeline.task? with
  | none => false
  | some t => t.kind = .decompileArchive && t.queue.any fun m => m.outcome?.isSome

theorem refills_eq (ht : w.session.pipeline.tasks.head? = some t)
    (hhandle : w.handle = some t.number) :
    w.refills =
      (decide (t.kind = .decompileArchive) && t.queue.any fun m => m.outcome?.isSome) := by
  rw [refills, hhandle, Option.bind_some, Pipeline.task?_of_head? ht]

/-- Receiving is a step in the course of the session. -/
theorem consistent_withPipeline {c : Session.Course} {q : Pipeline} {messages : List Message}
    (h : c.Consistent delimiter) (hpoll : c.session.pipeline.poll number = (q, messages)) :
    Session.Course.Consistent { c with session := { c.session with pipeline := q } } delimiter := by
  have hstep := h.receives (c.session.pipeline.receives_poll number)
  rwa [hpoll] at hstep

/-- What the window receives leaves what it works on and what it shows in order. -/
theorem Sound.receive (h : w.Sound delimiter emptied) (hhandle : w.handle = some number) :
    (w.receive number).Sound delimiter (emptied && !w.refills) := by
  obtain ⟨⟨⟨opened, reported, hconsistent⟩, hawaited⟩, hdisplays⟩ := h
  obtain ⟨t, ht, rfl, hnone, hqueue⟩ := hawaited number hhandle
  obtain ⟨q, hpoll, hlatest⟩ := Pipeline.poll_of_head? ht
  have hpolled : Session.Course.Consistent
      ⟨(w.withPipeline q).session, opened, reported, (w.withPipeline q).handle.isSome⟩
      delimiter := consistent_withPipeline hconsistent hpoll
  rw [refills_eq ht hhandle]
  rcases hqueue with hprogress | ⟨o, hreport, -⟩
  · have hquiet : (t.queue.any fun m => m.outcome?.isSome) = false := by
      rw [List.any_eq_false]
      intro m hm
      rw [hprogress m hm]
      exact Bool.false_ne_true
    rw [hquiet, Bool.and_false, Bool.not_false, Bool.and_true]
    have hsound : (w.withPipeline q).Sound delimiter emptied := by
      refine ⟨⟨⟨opened, reported, hpolled⟩, ?_⟩, hdisplays.congr rfl rfl rfl⟩
      intro number hnumber
      obtain rfl : t.number = number := Option.some.inj (hhandle.symm.trans hnumber)
      refine ⟨_, hlatest, rfl, ?_, .inl (List.forall_mem_nil _)⟩
      rw [Task.poll, Task.received_of_progress hprogress, hnone]
    exact hsound.keeps (receive_of_progress ht hpoll hlatest hnone hprogress)
  · obtain ⟨hsession, hidle, hopens, hexports⟩ := receive_of_isReport ht hpoll hlatest hreport
    have houtcome : (w.withPipeline q).session.pipeline.outcome? = some o := by
      show q.tasks.head?.bind Task.outcome = some o
      rw [hlatest]
      exact Task.received_of_isReport hreport _
    have hpending : (w.withPipeline q).handle.isSome = true := by
      rw [withPipeline, hhandle]
      rfl
    rw [hreport.any_isSome, Bool.and_true]
    refine ⟨⟨⟨opened, reported, ?_⟩, ?_⟩, ?_⟩
    · rw [hsession, hidle]
      exact hpolled.step (.apply hpending houtcome)
    · intro number hnumber
      rw [hidle] at hnumber
      cases hnumber
    · by_cases hkind : t.kind = .decompileArchive
      · rw [decide_eq_true hkind, Bool.not_true, Bool.and_false]
        exact ⟨fun _ => hopens hkind, fun hempty => absurd hempty Bool.false_ne_true⟩
      · rw [decide_eq_false hkind, Bool.not_false, Bool.and_true]
        obtain ⟨kind, hserves, -⟩ := hpolled.serves hpending
        obtain ⟨u, hu, rfl, -⟩ := hserves.latest
        obtain rfl : t.poll.1 = u := Option.some.inj (hlatest.symm.trans hu)
        obtain ⟨hitems, hmembers⟩ := hexports hkind
        refine hdisplays.congr ?_ hitems hmembers
        rw [hsession]
        exact Session.apply_tree hserves hkind houtcome

theorem Sound.poll (h : w.Sound delimiter emptied) :
    w.poll.Sound delimiter (emptied && !w.refills) := by
  unfold Window.poll
  cases hhandle : w.handle with
  | none =>
    have hquiet : w.refills = false := by
      rw [refills, hhandle]
      rfl
    rw [hquiet, Bool.not_false, Bool.and_true]
    exact h.keeps ⟨rfl, rfl, rfl, rfl⟩
  | some number => exact (h.receive hhandle).keeps ⟨rfl, rfl, rfl, rfl⟩

/-! ## Requests of the user -/

theorem refuses_eq_false (h : w.refuses = false) :
    w.handle = none ∧ w.session.isBusy = false := by
  rw [refuses, Bool.or_eq_false_iff] at h
  exact ⟨Option.isNone_iff_eq_none.1 (Option.isSome_eq_false_iff.1 h.1), h.2⟩

theorem Attends.taking (h : w.Attends delimiter) (haccepts : w.refuses = false)
    (hs : w.session.start kind target = .ok s) : (w.taking s).Attends delimiter := by
  obtain ⟨hnone, hidle⟩ := refuses_eq_false haccepts
  obtain ⟨opened, reported, hconsistent⟩ := h.consistent
  obtain ⟨-, hlatest, -⟩ := Session.start_spec hs
  have hhandle : (w.taking s).handle = some w.session.pipeline.tasks.length :=
    congrArg (Option.map Task.number) hlatest
  have hstep := hconsistent.accept (by rw [hnone]; rfl) (Pipeline.start_of_idle hidle kind target)
    ((w.session.startAhead_zero kind target).trans hs)
  refine ⟨?_, ?_⟩
  · rw [hhandle]
    exact ⟨_, _, hstep⟩
  · intro number hnumber
    obtain rfl : w.session.pipeline.tasks.length = number :=
      Option.some.inj (hhandle.symm.trans hnumber)
    exact ⟨_, hlatest, rfl, rfl, .inl (List.forall_mem_nil _)⟩

/-- A request to open an archive that is refused empties the tree all the same. -/
theorem openArchive_of_refuses {archive : Path} (h : w.refuses = true) :
    (w.openArchive archive).session = w.session ∧ (w.openArchive archive).handle = w.handle ∧
      (w.openArchive archive).items = [] ∧ (w.openArchive archive).members = [] := by
  rcases w.openArchive_spec archive with ⟨-, hkeeps⟩ | ⟨haccepts, -⟩
  · exact ⟨hkeeps.session, hkeeps.handle, hkeeps.items, hkeeps.members⟩
  · rw [h] at haccepts
    cases haccepts

/-- The tree is emptied whether the request is accepted or not. -/
theorem Sound.openArchive (h : w.Sound delimiter emptied) (archive : Path) :
    (w.openArchive archive).Sound delimiter w.refuses := by
  have hcleared : w.clearTree.Attends delimiter := h.attends.congr rfl rfl
  rcases w.openArchive_spec archive with ⟨hrefuses, hkeeps⟩ | ⟨haccepts, s, hs, hkeeps⟩
  · have hsound : w.clearTree.Sound delimiter true := ⟨hcleared, nofun, fun _ => ⟨rfl, rfl⟩⟩
    rw [hrefuses]
    exact hsound.keeps hkeeps
  · have hdisplays : (w.clearTree.taking s).Displays false := by
      obtain ⟨-, -, htree⟩ := Session.start_spec hs
      refine ⟨fun _ => ?_, nofun⟩
      have hnone : (w.clearTree.taking s).session.tree.contents = .nil := congrArg _ htree
      rwa [mirrors_iff_of_items_eq_nil rfl rfl]
    have hsound : (w.clearTree.taking s).Sound delimiter false :=
      ⟨hcleared.taking haccepts hs, hdisplays⟩
    rw [haccepts]
    exact hsound.keeps hkeeps

/-- A request to save the classes leaves the tree alone. -/
theorem Sound.startExport (h : w.Sound delimiter emptied) (hkind : kind ≠ .decompileArchive)
    (target : Path) (status : String) (indeterminate : Bool) :
    (w.startTask kind target status indeterminate).Sound delimiter emptied := by
  rcases w.startTask_spec kind target status indeterminate with
    ⟨-, hkeeps⟩ | ⟨haccepts, s, hs, hkeeps⟩
  · exact h.keeps hkeeps
  · obtain ⟨-, -, htree⟩ := Session.start_spec hs
    rw [if_neg hkind] at htree
    have hsound : (w.taking s).Sound delimiter emptied :=
      ⟨h.attends.taking haccepts hs, h.displays.congr htree rfl rfl⟩
    exact hsound.keeps hkeeps

/-- The user is asked for the target of an export if there is anything to save, and may give
none. -/
theorem Sound.askTarget {go : Window → Window} (h : w.Sound delimiter emptied)
    (hkind : kind ≠ .decompileArchive) (title : String) (d : Dialog)
    (answer text status : String) (target : Path)
    (hgo : go w = if answer.isEmpty then w.say d
      else ((w.say d).note text).startTask kind target status false) :
    (w.ifResults title go).Sound delimiter emptied := by
  unfold ifResults
  split
  · rw [hgo]
    split
    · exact h.keeps ⟨rfl, rfl, rfl, rfl⟩
    · have hnoted : ((w.say d).note text).Sound delimiter emptied := h.keeps ⟨rfl, rfl, rfl, rfl⟩
      exact hnoted.startExport hkind target status false
  · exact h.keeps ⟨rfl, rfl, rfl, rfl⟩

theorem Sound.saveToFolder (h : w.Sound delimiter emptied) (answer : String) :
    (w.saveToFolder answer).Sound delimiter emptied :=
  h.askTarget (by decide) _ _ answer _ _ _ rfl

theorem Sound.saveToZip (h : w.Sound delimiter emptied) (answer : String) :
    (w.saveToZip answer).Sound delimiter emptied :=
  h.askTarget (by decide) _ _ answer _ _ _ rfl

theorem Sound.withWorld (h : w.Sound delimiter emptied) (world : World) :
    Sound { w with session := w.session.withWorld world } delimiter emptied := by
  obtain ⟨⟨⟨opened, reported, hconsistent⟩, hawaited⟩, hdisplays⟩ := h
  exact ⟨⟨⟨opened, reported, hconsistent.withWorld world⟩, hawaited⟩, hdisplays.congr rfl rfl rfl⟩

/-- Selecting an item changes what is shown beside the tree; the engine may be asked for a text. -/
theorem exists_select_eq (w : Window) (item : Option Nat) :
    ∃ world editor errors, w.select item =
      { w with session := w.session.withWorld world, editor, errors } := by
  unfold Window.select
  split
  · exact ⟨w.session.world, _, w.errors, rfl⟩
  · next m hm =>
    obtain ⟨world, hsession⟩ := w.session.exists_withWorld_highlighted m.qualified
    split
    · next s text spans hs =>
      rw [hs] at hsession
      subst hsession
      exact ⟨world, _, w.errors, rfl⟩
    · next s t hs =>
      rw [hs] at hsession
      subst hsession
      exact ⟨world, w.editor, _, rfl⟩

theorem Sound.select (h : w.Sound delimiter emptied) (item : Option Nat) :
    (w.select item).Sound delimiter emptied := by
  obtain ⟨world, editor, errors, hselect⟩ := w.exists_select_eq item
  rw [hselect]
  exact (h.withWorld world).keeps ⟨rfl, rfl, rfl, rfl⟩

/-! ## The course of a window -/

/-- What may happen to a window: what its user does, the times at which it looks for news, steps of
the worker, and other engines, refusals and times.  Opening an archive and choosing an entry are
meant at any time, also while a task is running. -/
inductive Event
  | openArchive (archive : Path)
  | choose (entry : Nat) (answer : String)
  | select (item : Option Nat)
  | clearLog
  | look
  | work
  | supply (factory : Factory)
  | refuse (refusals : Refusals)
  | pass (timers : List (Nat × Timer)) (now : Nat)

/-- Whether an event is a request to open an archive. -/
def Event.asksToOpen : Event → Bool
  | .openArchive _ => true
  | .choose entry answer => entry == 0 && !answer.isEmpty
  | _ => false

/-- Whether an event is a time to look for news. -/
def Event.isLook : Event → Bool
  | .look => true
  | _ => false

/-- The window after an event. -/
def react (w : Window) : Event → Window
  | .openArchive archive => w.openArchive archive
  | .choose entry answer => w.chooseEntry entry answer
  | .select item => w.select item
  | .clearLog => w.clearLog
  | .look => w.poll
  | .work => w.withPipeline w.session.pipeline.step
  | .supply factory => w.supplied factory
  | .refuse refusals => { w with refusals }
  | .pass timers now => { w with timers, now }

/-- A window with what is remembered of its course: whether a request to open an archive was refused
and the tree was not filled again since. -/
structure Course where
  window : Window
  emptied : Bool

namespace Course

variable {c : Course}

/-- The course of a window that has just come up. -/
def start (settings : Settings) (factory : Factory) (world : World) (archive : Option Path) :
    Course :=
  ⟨.launch (.new settings (some factory) world) archive, false⟩

/-- The course after an event. -/
def after (c : Course) (e : Event) : Course where
  window := c.window.react e
  emptied := if e.asksToOpen then c.window.refuses
    else c.emptied && !(e.isLook && c.window.refills)

/-- The course after some events. -/
def run (c : Course) (events : List Event) : Course := events.foldl after c

theorem sound_start (settings : Settings) (factory : Factory) (world : World)
    (archive : Option Path) :
    (start settings factory world archive).window.Sound settings.delimiter false := by
  have hnew :
      Window.Sound (.new (.new settings (some factory) world)) settings.delimiter false := by
    have hconsistent := Session.Course.consistent_start settings factory world
    refine ⟨⟨⟨none, [], hconsistent⟩, nofun⟩, ?_, nofun⟩
    intro _
    rw [mirrors_iff_of_items_eq_nil rfl rfl]
    rfl
  cases archive with
  | none => exact hnew
  | some archive => exact hnew.keeps ⟨rfl, rfl, rfl, rfl⟩

/-- Where the tree is neither emptied nor filled, what is remembered stays. -/
theorem sound_of_quiet {e : Event} (hasks : e.asksToOpen = false) (hlook : e.isLook = false)
    (h : (c.window.react e).Sound delimiter c.emptied) :
    (c.after e).window.Sound delimiter (c.after e).emptied := by
  have hemptied : (c.after e).emptied = c.emptied := by
    rw [after, hasks, hlook, if_neg Bool.false_ne_true, Bool.false_and, Bool.not_false,
      Bool.and_true]
  rw [hemptied]
  exact h

/-- Asking for an archive is a request to open it only if there is an answer. -/
theorem sound_choose_zero (h : c.window.Sound delimiter c.emptied) (answer : String) :
    (c.after (.choose 0 answer)).window.Sound delimiter (c.after (.choose 0 answer)).emptied := by
  let asked := c.window.say
    (.openFile "Open archive" (c.window.lastDirectory.getD Files.cwd).toText archiveTypes)
  have hasked : asked.Sound delimiter c.emptied := h.keeps ⟨rfl, rfl, rfl, rfl⟩
  by_cases hanswer : answer.isEmpty = true
  · have hreact : c.window.react (.choose 0 answer) = asked := if_pos hanswer
    refine sound_of_quiet ?_ rfl ?_
    · rw [Event.asksToOpen, hanswer]
      rfl
    · rwa [hreact]
  · have hreact : c.window.react (.choose 0 answer) = asked.openArchive (Path.ofString answer) :=
      if_neg hanswer
    have hasks : (Event.choose 0 answer).asksToOpen = true := by
      rw [Event.asksToOpen, Bool.eq_false_iff.2 hanswer]
      rfl
    rw [after, hasks, if_pos rfl, hreact]
    exact hasked.openArchive _

theorem sound_choose (h : c.window.Sound delimiter c.emptied) (entry : Nat) (answer : String) :
    (c.after (.choose entry answer)).window.Sound delimiter
      (c.after (.choose entry answer)).emptied := by
  match entry with
  | 0 => exact sound_choose_zero h answer
  | 2 => exact sound_of_quiet rfl rfl (h.saveToFolder answer)
  | 3 => exact sound_of_quiet rfl rfl (h.saveToZip answer)
  | 5 => exact sound_of_quiet rfl rfl (h.keeps ⟨rfl, rfl, rfl, rfl⟩)
  | 1 | 4 | _ + 6 => exact sound_of_quiet rfl rfl h

/-- Each event leaves the window in order. -/
theorem sound_after (h : c.window.Sound delimiter c.emptied) (e : Event) :
    (c.after e).window.Sound delimiter (c.after e).emptied := by
  cases e with
  | openArchive archive => exact h.openArchive archive
  | choose entry answer => exact sound_choose h entry answer
  | look => exact h.poll
  | select item => exact sound_of_quiet rfl rfl (h.select item)
  | work => exact sound_of_quiet rfl rfl h.work
  | supply factory => exact sound_of_quiet rfl rfl (h.supply factory)
  | clearLog => exact sound_of_quiet rfl rfl (h.keeps ⟨rfl, rfl, rfl, rfl⟩)
  | refuse refusals => exact sound_of_quiet rfl rfl (h.keeps ⟨rfl, rfl, rfl, rfl⟩)
  | pass timers now => exact sound_of_quiet rfl rfl (h.keeps ⟨rfl, rfl, rfl, rfl⟩)

theorem sound_run (h : c.window.Sound delimiter c.emptied) (events : List Event) :
    (c.run events).window.Sound delimiter (c.run events).emptied := by
  induction events generalizing c with
  | nil => exact h
  | cons e rest ih => exact ih (sound_after h e)

end Course

/-- Whatever happens to a window, and whatever its worker does in between, the class tree shows the
hierarchy of the session and nothing else, unless a request to open an archive was refused since the
tree was filled last: then the tree is empty.  A request that is refused leaves the session and the
task that the window waits for as they are, but it empties the tree. -/
theorem mirrors_iff_of_run (settings : Settings) (factory : Factory) (world : World)
    (archive : Option Path) (events : List Event) :
    let c := (Course.start settings factory world archive).run events
    let w := c.window
    (w.Mirrors w.session.tree.contents ↔ c.emptied = false ∨ w.session.tree.contents = .nil) ∧
      (c.emptied = true → w.items = [] ∧ w.members = []) ∧
      ∀ archive, w.refuses = true →
        (w.openArchive archive).session = w.session ∧ (w.openArchive archive).handle = w.handle ∧
          (w.openArchive archive).items = [] ∧ (w.openArchive archive).members = [] := by
  intro c w
  have hdisplays : w.Displays c.emptied :=
    (Course.sound_run (Course.sound_start settings factory world archive) events).displays
  exact ⟨hdisplays.mirrors_iff, hdisplays.empty, fun _ => openArchive_of_refuses⟩

namespace Sample

def idle : Course := .start .default (Session.Sample.engine "p/A" []) (.start .empty {}) none

/-- While the class of the first archive is saved, a request to open a second one is refused. -/
def refused : List Event :=
  [.openArchive Session.Sample.first, .work, .work, .work, .work, .work, .look, .choose 2 "out",
    .openArchive Session.Sample.second, .work, .work, .work, .work, .look]

end Sample

/-- The class has been saved, and although it is still there the idle window shows no class. -/
theorem exists_run_not_mirrors :
    ∃ events, let w := (Sample.idle.run events).window
      w.handle = none ∧ w.session.isBusy = false ∧ ¬ w.Mirrors w.session.tree.contents := by
  refine ⟨Sample.refused, by decide +kernel, by decide +kernel, ?_⟩
  have hempty : (Sample.idle.run Sample.refused).window.items = [] ∧
      (Sample.idle.run Sample.refused).window.members = [] := by decide +kernel
  rw [mirrors_iff_of_items_eq_nil hempty.1 hempty.2]
  decide +kernel

/-! ## The passing of time -/

/-- Letting the worker run is a number of its steps. -/
theorem exists_work_eq_settle (p : Pipeline) : ∃ n, p.work n = p.settle := by
  induction p using Pipeline.settle.induct with
  | case1 p hruns ih =>
    obtain ⟨n, hn⟩ := ih
    refine ⟨n + 1, ?_⟩
    rw [Pipeline.settle, dif_pos hruns, Pipeline.work, hn]
  | case2 p hstops =>
    refine ⟨0, ?_⟩
    rw [Pipeline.settle, dif_neg hstops, Pipeline.work]

theorem foldl_react_work (n : Nat) (w : Window) :
    (List.replicate n Event.work).foldl react w = w.withPipeline (w.session.pipeline.work n) := by
  induction n generalizing w with
  | zero => rfl
  | succ n ih => exact ih (w.react .work)

theorem exists_react_settle (w : Window) :
    ∃ events : List Event, events.foldl react w = w.settle := by
  obtain ⟨n, hn⟩ := exists_work_eq_settle w.session.pipeline
  refine ⟨List.replicate n .work, ?_⟩
  rw [foldl_react_work, hn]
  rfl

theorem exists_react_fire (w : Window) (timer : Timer) : ∃ e, w.react e = w.fire timer := by
  cases timer with
  | poll => exact ⟨.look, rfl⟩
  | openArchive archive => exact ⟨.openArchive archive, rfl⟩

theorem exists_react_fireDue (limit fuel : Nat) (w : Window) :
    ∃ events : List Event, events.foldl react w = fireDue limit fuel w := by
  induction fuel generalizing w with
  | zero => exact ⟨[], rfl⟩
  | succ fuel ih =>
    rw [fireDue]
    split
    · exact ⟨[], rfl⟩
    · next due timer timers _ =>
      let v := w.react (.pass timers (max w.now due))
      obtain ⟨e, he⟩ := v.exists_react_fire timer
      obtain ⟨steps, hsteps⟩ := (v.fire timer).exists_react_settle
      obtain ⟨rest, hrest⟩ := ih (v.fire timer).settle
      refine ⟨.pass timers (max w.now due) :: e :: (steps ++ rest), ?_⟩
      rw [List.foldl_cons, List.foldl_cons, List.foldl_append, he, hsteps]
      exact hrest

theorem Course.window_run (c : Course) (events : List Event) :
    (c.run events).window = events.foldl react c.window := by
  induction events generalizing c with
  | nil => rfl
  | cons e rest ih => exact ih (c.after e)

/-- What happens as time passes is a course of events, with the worker running on behind each timer
that fires. -/
theorem exists_run_eq_tick (c : Course) (delay : Nat) :
    ∃ events, (c.run events).window = c.window.tick delay := by
  let fired := fireDue (c.window.now + delay)
    (c.window.timers.length + delay / c.window.session.settings.pollInterval + 1) c.window
  obtain ⟨events, hevents⟩ : ∃ events : List Event, events.foldl react c.window = fired :=
    exists_react_fireDue _ _ _
  refine ⟨events ++ [.pass fired.timers (c.window.now + delay)], ?_⟩
  rw [Course.window_run, List.foldl_append, hevents]
  rfl

end Window

end ClassBrowser
