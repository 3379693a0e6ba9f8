import ClassBrowser.Proofs.Task.Steps

/-!
# The numbers of a task

A worker counts the classes that it reports or exports.  The numbers of a stage agree with each
other (`Stage.Counts`), each step keeps that, and so no progress report tells of more classes than
there are (`counts_advance`).
-/

namespace ClassBrowser

variable {s : Workspace} {kind : TaskKind} {target : Path} {stage : Stage}

/-- Whether no more is done than there is to do; that is not known without a total. -/
def Progress.Fits (p : Progress) : Prop := ∀ n, p.total = some n → (p.completed : Int) ≤ n

/-- Whether a message tells of no more than there is to do. -/
def Message.Fits : Message → Prop
  | .progress p => p.Fits
  | .finished _ => True

/-- Whether the numbers of an export agree.  The classes that were handled were written or skipped,
and with the `current` ones and those that are left they are all classes. -/
structure Exporting.Counts (x : Exporting) (current : Nat) : Prop where
  handled : x.summary.written.length + x.summary.skipped.length = x.handled
  total : x.handled + current + x.left.length = x.total

/-- Whether the numbers of a stage agree. -/
def Stage.Counts : Stage → Prop
  | .decompiling _ _ completed total => ∀ n, total = some n → (completed : Int) ≤ n
  | .exporting x => x.Counts 0
  | .rendering x _ _ _ => x.Counts 1
  | _ => True

@[simp] theorem Stage.counts_withActs (stage : Stage) (acts : List Act) :
    (stage.withActs acts).Counts ↔ stage.Counts := by
  cases stage <;> rfl

/-- Whether the numbers agree that a step comes to and sends. -/
structure Advance.Counts (a : Advance) : Prop where
  stage : a.stage.Counts
  sent : ∀ m ∈ a.sent, m.Fits

namespace Exporting

variable {x : Exporting}

theorem Counts.take {u : ClassUnit} {left : List ClassUnit} (h : x.Counts 0)
    (hleft : x.left = u :: left) : Counts { x with left } 1 where
  handled := h.handled
  total := by
    have htotal := h.total
    rw [hleft, List.length_cons] at htotal
    show x.handled + 1 + left.length = x.total
    omega

end Exporting

namespace Workspace

theorem counts_silently (s : Workspace) (h : stage.Counts) : (s.silently stage).Counts :=
  ⟨h, List.forall_mem_nil _⟩

theorem counts_fail (s : Workspace) (kind : TaskKind) (f : TaskFailure) :
    (s.fail kind f).Counts :=
  ⟨trivial, List.forall_mem_singleton.2 trivial⟩

theorem counts_succeed (s : Workspace) (r : TaskResult) : (s.succeed r).Counts :=
  ⟨trivial, List.forall_mem_singleton.2 trivial⟩

/-- A class is counted once it is written or skipped. -/
theorem counts_handled {x : Exporting} (s : Workspace)
    (hhandled : x.summary.written.length + x.summary.skipped.length = x.handled + 1)
    (htotal : x.handled + 1 + x.left.length = x.total) : (s.handled x).Counts := by
  refine ⟨⟨hhandled, htotal⟩, List.forall_mem_singleton.2 ?_⟩
  intro n hn
  obtain rfl : (x.total : Int) = n := Option.some.inj hn
  show ((x.handled + 1 : Nat) : Int) ≤ x.total
  omega

theorem Supplies.counts {x : Exporting} {name : String} {text : Option String}
    (hsupplies : s.Supplies stage x name text) (h : stage.Counts) : x.Counts 1 := by
  cases hsupplies with
  | known hleft => exact h.take hleft
  | rendered => exact h

/-- A move keeps the numbers of its stage in agreement. -/
theorem Moves.counts {a : Advance} (hmove : s.Moves kind target stage a) (h : stage.Counts) :
    a.Counts := by
  cases hmove with
  | unconfigured | unmade | threw | unopened | unwritten | refused | rescued | unclosed =>
    exact counts_fail _ _ _
  | decompiled | exported => exact counts_succeed _ _
  | made | lost | deserted | ended => exact counts_silently _ trivial
  | added => exact counts_silently _ nofun
  | @unit _ _ _ _ completed _ next hnext =>
    have hfits : ∀ n, next = some n → ((completed + 1 : Nat) : Int) ≤ n := by
      rintro n rfl
      obtain ⟨m, -, rfl⟩ := Option.map_eq_some_iff.1 hnext.symm
      exact Int.le_max_right _ _
    exact ⟨hfits, List.forall_mem_singleton.2 hfits⟩
  | total =>
    refine counts_silently _ ?_
    rintro n ⟨⟩
    exact Int.le_max_right _ _
  | noted | passed => exact counts_silently _ (by simpa using h)
  | opened => exact counts_silently _ ⟨rfl, Nat.zero_add _⟩
  | asked hleft => exact counts_silently _ (Exporting.Counts.take h hleft)
  | @skipped _ x name hsupplies =>
    obtain ⟨hhandled, htotal⟩ := hsupplies.counts h
    refine counts_handled _ ?_ htotal
    show x.summary.written.length + (x.summary.skipped ++ [name]).length = x.handled + 1
    rw [List.length_append, List.length_singleton, ← hhandled, Nat.add_assoc]
  | @written _ x name _ _ _ _ hsupplies =>
    obtain ⟨hhandled, htotal⟩ := hsupplies.counts h
    refine counts_handled _ ?_ htotal
    show (x.summary.written ++ [name]).length + x.summary.skipped.length = x.handled + 1
    rw [List.length_append, List.length_singleton, ← hhandled, Nat.add_right_comm]

/-- A step keeps the numbers of its stage in agreement. -/
theorem counts_advance (h : stage.Counts) (s : Workspace) (kind : TaskKind) (target : Path) :
    (s.advance kind target stage).Counts :=
  (s.moves_advance kind target stage).counts h

end Workspace

/-- Whether the numbers of a task agree, and those that are still to be received. -/
structure Task.Counts (t : Task) : Prop where
  stage : t.stage.Counts
  queue : ∀ m ∈ t.queue, m.Fits

theorem Task.Counts.advance {t : Task} (h : t.Counts) (s : Workspace) :
    let a := s.advance t.kind t.target t.stage
    Task.Counts { t with stage := a.stage, queue := t.queue ++ a.sent } := by
  have hstep := Workspace.counts_advance h.stage s t.kind t.target
  exact ⟨hstep.stage, List.forall_mem_append.2 ⟨h.queue, hstep.sent⟩⟩

end ClassBrowser
