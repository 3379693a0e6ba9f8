import ClassBrowser.Proofs.Source.Colours
import ClassBrowser.Proofs.Window.Course

/-!
# Browsing

When the outcome of an opened archive has been received, the class tree has one leaf for each class
in the store whose name is valid.  Selecting a leaf shows the text of its class, and selecting a
package shows nothing, whatever was shown before (`browses_of_refills`).

The source view is filled with the highlighted spans, one behind the other.  They cover the text, so
that the characters in the view are those of the text again, and the span that a character lies in
gives it its tag (`TextView.reads_highlight`).
-/

namespace ClassBrowser

open Source (Covers Kind Span highlight javaKeywords)

/-! ## Spans in a view -/

namespace Source

variable {text : List Char} {start stop : Nat} {spans : List Span}

/-- The characters of a span with its tag. -/
def Span.tagged (s : Span) : List (Char × Option Kind) := s.text.map (·, Window.tagOf s)

/-- There is a style for each kind but that of plain text. -/
theorem tagOf_eq (s : Span) :
    Window.tagOf s = if s.kind = .default then none else some s.kind := by
  rcases s with ⟨kind, start, text⟩
  cases kind <;> rfl

/-- Each character has the tag of a span that it lies in. -/
theorem Covers.exists_tagged {i : Nat} {c : Char} {tag : Option Kind}
    (h : Covers text start stop spans) (hi : (spans.flatMap Span.tagged)[i]? = some (c, tag)) :
    ∃ s ∈ spans, s.start ≤ start + i ∧ start + i < s.stop ∧ tag = Window.tagOf s := by
  induction spans generalizing start i with
  | nil => cases hi
  | cons s spans ih =>
    obtain ⟨rfl, -, -, hlater⟩ := Covers.cons_iff.1 h
    have hlength : s.tagged.length = s.text.length := List.length_map _
    rw [List.flatMap_cons] at hi
    -- a position behind the first span is counted from the end of that span
    by_cases hinside : i < s.text.length
    · rw [List.getElem?_append_left (by omega), Span.tagged, List.getElem?_map,
        Option.map_eq_some_iff] at hi
      obtain ⟨d, -, heq⟩ := hi
      exact ⟨s, List.mem_cons_self, by omega, Nat.add_lt_add_left hinside _,
        (congrArg Prod.snd heq).symm⟩
    · rw [List.getElem?_append_right (by omega), hlength] at hi
      obtain ⟨t, ht, hlow, hhigh, htag⟩ := ih hlater hi
      have hposition : s.stop + (i - s.text.length) = s.start + i := by
        rw [Span.stop]
        omega
      rw [hposition] at hlow hhigh
      exact ⟨t, List.mem_cons_of_mem _ ht, hlow, hhigh, htag⟩

end Source

namespace TextView

/-- Whether a view is locked and shows a text in its colours: its characters are those of the text,
and the tag of each is the kind of the highlighted span that it lies in, or none if the span is
plain. -/
structure Reads (v : TextView) (text : List Char) : Prop where
  locked : v.locked = true
  chars : v.chars.map Prod.fst = text
  tags : ∀ i c tag, v.chars[i]? = some (c, tag) → ∃ s ∈ highlight text javaKeywords,
    s.start ≤ i ∧ i < s.stop ∧ tag = if s.kind = .default then none else some s.kind

/-- The highlighted spans of a text make it up again. -/
theorem reads_highlight (text : List Char) :
    Reads ⟨(highlight text javaKeywords).flatMap Span.tagged, true⟩ text := by
  refine ⟨rfl, ?_, ?_⟩
  · have hchars : ∀ s : Span, s.tagged.map Prod.fst = s.text := by
      intro s
      rw [Span.tagged, List.map_map]
      exact List.map_id _
    rw [List.map_flatMap, List.flatMap_congr fun s _ => hchars s]
    exact Source.flatMap_text_highlight text javaKeywords
  · intro i c tag hi
    obtain ⟨s, hs, hlow, hhigh, htag⟩ :=
      (Source.cuts_highlight text javaKeywords).covers.exists_tagged hi
    rw [Nat.zero_add] at hlow hhigh
    exact ⟨s, hs, hlow, hhigh, htag.trans (Source.tagOf_eq s)⟩

/-- Spans are added to an unlocked view one behind the other. -/
theorem foldl_insert (chars : List (Char × Option Kind)) (spans : List Span) :
    spans.foldl (fun (v : TextView) s => v.insert s.text (Window.tagOf s)) ⟨chars, false⟩ =
      ⟨chars ++ spans.flatMap Span.tagged, false⟩ := by
  induction spans generalizing chars with
  | nil => rw [List.foldl_nil, List.flatMap_nil, List.append_nil]
  | cons s spans ih =>
    calc
      (s :: spans).foldl (fun (v : TextView) s => v.insert s.text (Window.tagOf s))
          ⟨chars, false⟩ =
          spans.foldl (fun (v : TextView) s => v.insert s.text (Window.tagOf s))
            ⟨chars ++ s.tagged, false⟩ := by
        rw [List.foldl_cons, insert, if_neg Bool.false_ne_true, Span.tagged]
      _ = ⟨chars ++ s.tagged ++ spans.flatMap Span.tagged, false⟩ := ih _
      _ = ⟨chars ++ (s :: spans).flatMap Span.tagged, false⟩ := by
        rw [List.flatMap_cons, List.append_assoc]

/-- A view is refilled from nothing, whatever was in it and even if it was locked. -/
theorem refill_eq (v : TextView) (fill : TextView → TextView) :
    v.refill fill = (fill ⟨[], false⟩).setLocked true := rfl

end TextView

/-! ## The text of a class -/

/-- Whether the engine, if there is one, never throws when it is asked for a text. -/
def Workspace.Answers (s : Workspace) : Prop :=
  ∀ e, s.engine = some e → ∀ w name, ∃ text, (e.renderNow w name).2 = .ok text

theorem Session.exists_content {s : Session} (h : s.pipeline.workspace.Answers) (name : String) :
    ∃ text, (s.content name).2 = .ok text := by
  unfold Session.content
  split
  · exact ⟨_, rfl⟩
  · split
    · exact ⟨_, rfl⟩
    · split
      · exact ⟨_, rfl⟩
      · next e hengine =>
        obtain ⟨text, htext⟩ := h e hengine s.world name
        exact ⟨_, congrArg (Except.map _) htext⟩

namespace Window

variable {w : Window} {c : Contents} {m : Member} {i : Item} {name text : String}
  {delimiter : Text.Loose} {emptied : Bool}

/-! ## Items and classes -/

/-- The name of the class that an item stands for; a package has none. -/
def className? (w : Window) (i : Item) : Option String :=
  (w.members.get? i.id).map Member.qualified

theorem exists_of_className? (h : w.className? i = some name) :
    ∃ m, (i.id, m) ∈ w.members ∧ m.qualified = name := by
  obtain ⟨m, hm, hname⟩ := Option.map_eq_some_iff.1 h
  exact ⟨m, Assoc.mem_of_get? hm, hname⟩

/-- There is a leaf for each member that is shown. -/
theorem Shows.exists_leaf {items : List Item} (h : w.Shows c items)
    (hitems : ∀ i ∈ items, i ∈ w.items) (hm : m ∈ c.members) :
    ∃ i ∈ w.items, w.members.get? i.id = some m := by
  induction c generalizing items with
  | nil => cases hm
  | member n rest ih =>
    obtain ⟨i, behind, rfl, -, -, hget, hrest⟩ := h
    rw [Contents.members, List.mem_cons] at hm
    rcases hm with rfl | hm
    · exact ⟨i, hitems i List.mem_cons_self, hget⟩
    · exact ih hrest (fun j hj => hitems j (List.mem_cons_of_mem _ hj)) hm
  | package s inner rest ihinner ihrest =>
    obtain ⟨i, behind, rfl, -, hinner, -, hrest⟩ := h
    rw [Contents.members, List.mem_append] at hm
    rcases hm with hm | hm
    · exact ihinner hinner (fun j hj => (List.mem_filter.1 hj).1) hm
    · exact ihrest hrest (fun j hj => hitems j (List.mem_cons_of_mem _ hj)) hm

theorem Mirrors.mem_of_className? (h : w.Mirrors c) (hclass : w.className? i = some name) :
    name ∈ c.members.map Member.qualified := by
  obtain ⟨m, hm, rfl⟩ := exists_of_className? hclass
  rw [← h.leaves]
  exact List.mem_map_of_mem (List.mem_map_of_mem hm)

/-- Where the members have different names, there is just one leaf for each. -/
theorem Mirrors.existsUnique_leaf (h : w.Mirrors c)
    (hdistinct : (c.members.map Member.qualified).Nodup)
    (hname : name ∈ c.members.map Member.qualified) :
    ∃! i, i ∈ w.items ∧ w.className? i = some name := by
  obtain ⟨m, hm, rfl⟩ := List.mem_map.1 hname
  obtain ⟨i, hi, hget⟩ := h.shown.exists_leaf (fun j hj => (List.mem_filter.1 hj).1) hm
  refine ⟨i, ⟨hi, congrArg (Option.map Member.qualified) hget⟩, ?_⟩
  -- two leaves of one name have one entry among the members, and so one number
  rintro j ⟨hj, hclass⟩
  obtain ⟨n, hn, hsame⟩ := exists_of_className? hclass
  rw [← h.leaves, List.map_map] at hdistinct
  have hpair : (j.id, n) = (i.id, m) :=
    List.inj_on_of_nodup_map hdistinct hn (Assoc.mem_of_get? hget) hsame
  exact List.inj_on_of_nodup_map h.distinct hj hi (congrArg Prod.fst hpair)

/-! ## Selecting -/

theorem editor_showText_none (w : Window) : (w.showText "" none).editor = .empty :=
  w.editor.refill_eq _

theorem editor_showText (w : Window) (text : String) (spans : List Span) :
    (w.showText text (some spans)).editor = ⟨spans.flatMap Span.tagged, true⟩ := by
  show (w.editor.refill fun v => spans.foldl (fun v s => v.insert s.text (tagOf s)) v) = _
  rw [TextView.refill_eq, TextView.foldl_insert, List.nil_append]
  rfl

/-- Selecting a package shows nothing. -/
theorem editor_select_package (h : w.className? i = none) :
    (w.select (some i.id)).editor = .empty := by
  have hnone : w.members.get? i.id = none := Option.map_eq_none_iff.1 h
  rw [select, Option.bind_some, hnone]
  exact w.editor_showText_none

/-- Selecting a leaf shows the text of its class. -/
theorem reads_select_leaf (h : w.className? i = some name)
    (htext : (w.session.content name).2 = .ok text) :
    (w.select (some i.id)).editor.Reads text.toList := by
  obtain ⟨m, hm, rfl⟩ := Option.map_eq_some_iff.1 h
  have hspans : w.session.highlighted m.qualified =
      ((w.session.content m.qualified).1, .ok (text, highlight text.toList javaKeywords)) := by
    show ((w.session.content m.qualified).1, (w.session.content m.qualified).2.map _) = _
    rw [htext]
    rfl
  rw [select, Option.bind_some, hm]
  dsimp only
  rw [hspans]
  dsimp only
  rw [editor_showText]
  exact TextView.reads_highlight text.toList

/-! ## After the outcome -/

/-- Whether the classes of a window can be browsed.  The tree shows the hierarchy of the session,
which has the valid names in the store for its members, in order; there is one leaf for each of
them, and no other one.  Selecting a leaf shows the text of its class, and selecting a package shows
nothing. -/
structure Browses (w : Window) (delimiter : Text.Loose) : Prop where
  tree : w.Mirrors w.session.tree.contents
  classes : w.session.tree.members.map Member.qualified =
    QualifiedName.sorted (w.session.store.names.filter (QualifiedName.isValid delimiter))
  leaf : ∀ name ∈ w.session.store.names, QualifiedName.isValid delimiter name = true →
    ∃! i, i ∈ w.items ∧ w.className? i = some name
  stored : ∀ i ∈ w.items, ∀ name, w.className? i = some name →
    name ∈ w.session.store.names ∧ QualifiedName.isValid delimiter name = true
  shown : ∀ i ∈ w.items, ∀ name, w.className? i = some name →
    ∃ text, (w.session.content name).2 = .ok text ∧
      (w.select (some i.id)).editor.Reads text.toList
  empty : ∀ i ∈ w.items, w.className? i = none → (w.select (some i.id)).editor = .empty

/-- Whether a window waits for nothing and shows the classes, and their texts can be asked for. -/
structure Ready (w : Window) (delimiter : Text.Loose) : Prop where
  sound : w.Sound delimiter false
  idle : w.handle = none
  answers : w.session.pipeline.workspace.Answers

theorem Ready.rests (h : w.Ready delimiter) :
    ∃ reported, w.session.pipeline.Rests delimiter w.session.tree reported := by
  obtain ⟨opened, reported, hconsistent⟩ := h.sound.attends.consistent
  exact ⟨reported, hconsistent.rests (by rw [h.idle]; rfl)⟩

theorem Ready.browses (h : w.Ready delimiter) : w.Browses delimiter := by
  have htree : w.Mirrors w.session.tree.contents := h.sound.displays.mirrors rfl
  have hclasses : w.session.tree.members.map Member.qualified =
      QualifiedName.sorted (w.session.store.names.filter (QualifiedName.isValid delimiter)) := by
    obtain ⟨reported, -, -, hdelimiter, hshown, -⟩ := h.rests
    have hqualified := Session.qualified_tree w.session.pipeline.workspace
    rwa [hshown, hdelimiter] at hqualified
  have hdistinct : (w.session.tree.members.map Member.qualified).Nodup := by
    rw [hclasses]
    exact List.nodup_mergeSort.2 (w.session.store.nodup_names.filter _)
  have hstored : ∀ name, name ∈ w.session.tree.members.map Member.qualified ↔
      name ∈ w.session.store.names ∧ QualifiedName.isValid delimiter name = true := by
    intro name
    rw [hclasses, QualifiedName.sorted, List.mem_mergeSort, List.mem_filter]
  refine ⟨htree, hclasses, ?_, ?_, ?_, fun i _ hpackage => editor_select_package hpackage⟩
  · intro name hname hvalid
    exact htree.existsUnique_leaf hdistinct ((hstored name).2 ⟨hname, hvalid⟩)
  · intro i _ name hclass
    exact (hstored name).1 (htree.mem_of_className? hclass)
  · intro i _ name hclass
    obtain ⟨text, htext⟩ := Session.exists_content h.answers name
    exact ⟨text, htext, reads_select_leaf hclass htext⟩

/-- The outcome of an opened archive makes the window idle. -/
theorem Sound.handle_poll (h : w.Sound delimiter emptied) (hrefills : w.refills = true) :
    w.poll.handle = none := by
  cases hhandle : w.handle with
  | none =>
    rw [refills, hhandle] at hrefills
    cases hrefills
  | some number =>
    obtain ⟨t, ht, rfl, -, hqueue⟩ := h.attends.awaited number hhandle
    obtain ⟨q, hpoll, hlatest⟩ := Pipeline.poll_of_head? ht
    rw [refills_eq ht hhandle, Bool.and_eq_true] at hrefills
    rcases hqueue with hprogress | ⟨o, hreport, -⟩
    · obtain ⟨m, hm, hout⟩ := List.any_eq_true.1 hrefills.2
      rw [hprogress m hm] at hout
      cases hout
    · obtain ⟨-, hidle, -⟩ := receive_of_isReport ht hpoll hlatest hreport
      unfold Window.poll
      rw [hhandle]
      exact hidle

theorem Sound.ready_poll (h : w.Sound delimiter emptied) (hrefills : w.refills = true)
    (hanswers : w.poll.session.pipeline.workspace.Answers) : w.poll.Ready delimiter := by
  have hpolled := h.poll
  rw [hrefills, Bool.not_true, Bool.and_false] at hpolled
  exact ⟨hpolled, h.handle_poll hrefills, hanswers⟩

/-- Whether an event is a request of the user for a task. -/
def Event.isRequest : Event → Bool
  | .openArchive _ | .choose _ _ => true
  | _ => false

/-- The worker has ended, and does nothing more. -/
theorem Ready.work (h : w.Ready delimiter) : (w.react .work).Ready delimiter := by
  obtain ⟨reported, hrests⟩ := h.rests
  refine ⟨h.sound.work, h.idle, ?_⟩
  have hsame : w.session.pipeline.step.workspace = w.session.pipeline.workspace := by
    unfold Pipeline.step
    split
    · rfl
    · next t earlier htasks =>
      have hended := hrests.latest t (by rw [htasks]; rfl)
      rw [Workspace.advance_of_isOver hended]
      rfl
  show w.session.pipeline.step.workspace.Answers
  rw [hsame]
  exact h.answers

/-- A window that is ready stays so until a request is made. -/
theorem Ready.react (h : w.Ready delimiter) {e : Event} (he : e.isRequest = false) :
    (w.react e).Ready delimiter := by
  cases e with
  | openArchive | choose => cases he
  | select item =>
    obtain ⟨_, _, _, hselect⟩ := w.exists_select_eq item
    have hsound := h.sound.select item
    show (w.select item).Ready delimiter
    rw [hselect] at hsound ⊢
    exact ⟨hsound, h.idle, h.answers⟩
  | look =>
    -- there is no task to hear from
    have hlook : w.react .look = w.after w.session.settings.pollInterval .poll := by
      show w.poll = _
      unfold Window.poll
      rw [h.idle]
    rw [hlook]
    exact ⟨h.sound.keeps ⟨rfl, rfl, rfl, rfl⟩, h.idle, h.answers⟩
  | work => exact h.work
  | supply factory => exact ⟨h.sound.supply factory, h.idle, h.answers⟩
  | clearLog | refuse | pass => exact ⟨h.sound.keeps ⟨rfl, rfl, rfl, rfl⟩, h.idle, h.answers⟩

theorem Ready.run (h : w.Ready delimiter) {later : List Event}
    (hlater : ∀ e ∈ later, e.isRequest = false) : (later.foldl Window.react w).Ready delimiter := by
  induction later generalizing w with
  | nil => exact h
  | cons e rest ih =>
    obtain ⟨he, hrest⟩ := List.forall_mem_cons.1 hlater
    exact ih (h.react he) hrest

namespace Sample

def reporting : Factory := .script ⟨"e", [], [.unit "p/A" (some "int a")], []⟩

def browsing : Course := .start .default reporting (.start .empty {}) none

/-- The archive has been decompiled, and the window has not looked yet. -/
def decompiled : List Event := .openArchive Session.Sample.first :: List.replicate 6 .work

theorem answers_browsing :
    (browsing.run decompiled).window.poll.session.pipeline.workspace.Answers := by
  have hengine : (browsing.run decompiled).window.poll.session.pipeline.workspace.engine =
      some ⟨0, .script ⟨"e", [], [.unit "p/A" (some "int a")], []⟩⟩ := by decide +kernel
  intro e he w name
  obtain rfl := Option.some.inj (hengine.symm.trans he)
  exact ⟨none, rfl⟩

end Sample

example : let w := (Sample.browsing.run Sample.decompiled).window.poll
    w.items.map w.className? = [none, some "p/A"] ∧
      ((w.select (some 0)).select (some 1)).editor.pieces =
        [⟨['i', 'n', 't'], some .keyword⟩, ⟨[' ', 'a'], none⟩] := by
  decide +kernel

end Window

end ClassBrowser
