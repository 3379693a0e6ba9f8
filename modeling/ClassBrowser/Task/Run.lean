import ClassBrowser.Task.Pipeline

/-!
# Letting a worker run

A worker can be left to run to its end, or until it is about to wait.  Either takes finitely many
steps, because each step lowers the rank of the stage where the worker stands
(`rank_advance_lt`): it comes to a later phase, has fewer classes left, or fewer acts to perform.
-/

namespace ClassBrowser

/-- How far a stage is from the end: the phases, classes and acts that are left. -/
def Stage.rank : Stage → Nat × Nat × Nat
  | .ready => (5, 0, 0)
  | .adding _ acts => (4, acts.length, 0)
  | .decompiling _ acts _ _ => (3, acts.length, 0)
  | .exporting x => (2, x.left.length, 0)
  | .rendering x _ acts _ => (2, x.left.length, acts.length + 1)
  | .reported => (1, 0, 0)
  | .finished => (0, 0, 0)

abbrev RankLt : Nat × Nat × Nat → Nat × Nat × Nat → Prop :=
  Prod.Lex (· < ·) (Prod.Lex (· < ·) (· < ·))

namespace Workspace

theorem exportUnit_stage (s : Workspace) (kind : TaskKind) (x : Exporting) (name : String)
    (text : Option String) :
    (s.exportUnit kind x name text).stage = .reported ∨
      ∃ y : Exporting, (s.exportUnit kind x name text).stage = .exporting y ∧ y.left = x.left := by
  unfold exportUnit
  split
  · exact .inr ⟨_, rfl, rfl⟩
  · split
    · exact .inl rfl
    · exact .inr ⟨_, rfl, rfl⟩

theorem exportUnit_rank (s : Workspace) (kind : TaskKind) (x : Exporting) (name : String)
    (text : Option String) (r : Nat × Nat)
    (h : Prod.Lex (· < ·) (· < ·) (x.left.length, 0) r) :
    RankLt (s.exportUnit kind x name text).stage.rank (2, r) := by
  rcases s.exportUnit_stage kind x name text with he | ⟨y, he, hy⟩
  · rw [he]
    exact .left _ _ (by decide)
  · rw [he, Stage.rank, hy]
    exact .right _ h

/-- An export that is ended comes to the end, or to where it goes on. -/
theorem endExport_rank (s : Workspace) (kind : TaskKind) (writer : Export.Writer)
    {next : Workspace → Advance} {r : Nat × Nat × Nat}
    (hnext : ∀ s, RankLt (next s).stage.rank r) (hr : RankLt (1, 0, 0) r) :
    RankLt (s.endExport kind writer next).stage.rank r := by
  unfold endExport
  split
  · exact hnext _
  · exact hr

/-- Every step of a worker that is there lowers the rank of its stage. -/
theorem rank_advance_lt (s : Workspace) (kind : TaskKind) (target : Path) (stage : Stage)
    (h : stage ≠ .finished) : RankLt (s.advance kind target stage).stage.rank stage.rank := by
  cases stage with
  | ready =>
    have fromExport : ∀ k w, RankLt (s.beginExport k w).stage.rank (5, 0, 0) := by
      intro k w
      unfold beginExport
      dsimp only
      split <;> exact .left _ _ (by decide)
    cases kind with
    | decompileArchive =>
      unfold advance beginDecompile
      dsimp only
      split
      · exact .left _ _ (by decide)
      · split <;> exact .left _ _ (by decide)
    | exportDirectory => exact fromExport _ _
    | exportArchive => exact fromExport _ _
  | adding e acts =>
    unfold advance advanceAdding
    dsimp only
    split
    · exact .left _ _ (by decide)
    · exact .left _ _ (by decide)
    · exact .left _ _ (by decide)
    · exact .right _ (.left _ _ (by simp))
    · exact .right _ (.left _ _ (by simp))
  | decompiling e acts completed total =>
    unfold advance advanceDecompiling
    dsimp only
    split
    · exact .left _ _ (by decide)
    · exact .right _ (.left _ _ (by simp))
    · exact .right _ (.left _ _ (by simp))
    · exact .left _ _ (by decide)
    · exact .left _ _ (by decide)
    · exact .right _ (.left _ _ (by simp))
    · exact .right _ (.left _ _ (by simp))
  | exporting x =>
    unfold advance advanceExporting
    dsimp only
    split
    · exact endExport_rank _ _ _ (fun _ => .left _ _ (by decide)) (.left _ _ (by decide))
    · next u left hx =>
      have hl : left.length < x.left.length := by simp [hx]
      split
      · exact .right _ (.left _ _ hl)
      · exact exportUnit_rank _ _ _ _ _ (x.left.length, 0) (.left _ _ hl)
  | rendering x name acts text =>
    unfold advance advanceRendering
    dsimp only
    split
    · exact exportUnit_rank _ _ _ _ _ (x.left.length, 1) (.right _ (by decide))
    · exact .left _ _ (by decide)
    · exact endExport_rank _ _ _ (fun _ => .left _ _ (by decide)) (.left _ _ (by decide))
    · exact .right _ (.right _ (by simp))
    · exact .right _ (.right _ (by simp))
  | reported => exact .left _ _ (by decide)
  | finished => exact absurd rfl h

end Workspace

namespace Pipeline

def rank (p : Pipeline) : Nat × Nat × Nat :=
  match p.tasks with
  | [] => (0, 0, 0)
  | t :: _ => t.stage.rank

def isBlocked (p : Pipeline) : Bool :=
  match p.tasks with
  | [] => false
  | t :: _ => t.stage.isBlocked

theorem rank_step_lt {p : Pipeline} (h : p.isBusy = true) : RankLt p.step.rank p.rank := by
  obtain ⟨workspace, tasks⟩ := p
  cases tasks with
  | nil => simp [isBusy] at h
  | cons t earlier =>
    have hs : t.stage ≠ .finished := fun hs => by
      simp [isBusy, Task.isRunning, Stage.isFinished, hs] at h
    exact workspace.rank_advance_lt t.kind t.target t.stage hs

/-- Lets the worker run to its end; it does not wait. -/
def finish (p : Pipeline) : Pipeline :=
  if p.isBusy then finish p.step else p
termination_by p.rank
decreasing_by exact rank_step_lt ‹_›

/-- Lets the worker run until it is about to wait, or to its end. -/
def settle (p : Pipeline) : Pipeline :=
  if _h : p.isBusy ∧ ¬ p.isBlocked then settle p.step else p
termination_by p.rank
decreasing_by exact rank_step_lt _h.1

/-- Lets a waiting worker go on until it is about to wait again, or to its end. -/
def release (p : Pipeline) : Pipeline :=
  if p.isBlocked then p.step.settle else p

end Pipeline

end ClassBrowser
