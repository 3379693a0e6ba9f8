import ClassBrowser.Proofs.Export.Targets
import ClassBrowser.Proofs.Log
import ClassBrowser.Proofs.Store
import ClassBrowser.Proofs.Task.Counting
import ClassBrowser.Proofs.Task.Outcomes

/-!
# Ends of export tasks

An export task fails, or it succeeds with a summary that accounts for every class of the store, and
an archive then has one entry for each class that was written (`TaskEnds.exported`).  Three numbers
are kept apart by the program and agree nonetheless: how many classes the store has, how many the
summary names, and how many entries were put into the archive.
-/

namespace ClassBrowser

open Export (Writer)

/-- Whether the summary of an export accounts for so many classes and for the entries of the archive
that it has made. -/
structure Summary.Accounts (summary : Summary) (kind : TaskKind) (target : Path) (count : Nat)
    (fs : Files) : Prop where
  total : summary.written.length + summary.skipped.length = count
  archive : kind = .exportArchive → ∃ entries executable,
    fs.get target = .ok (.file (.archive entries) executable) ∧
      entries.length = summary.written.length

/-- What holds in the course of an export of so many classes: the archive that it makes is open, and
has taken an entry for each class that was written. -/
structure Exporting.Covers (x : Exporting) (kind : TaskKind) (target : Path) (count : Nat)
    (fs : Files) : Prop where
  total : x.total = count
  archive : kind = .exportArchive → x.writer.target = target ∧
    ∃ written, x.writer.IsOpen fs written true ∧ written.length = x.summary.written.length

/-- Whether a stage is one of an export of so many classes. -/
def Stage.Exports (kind : TaskKind) (target : Path) (count : Nat) (s : Workspace) : Stage → Prop
  | .ready => s.store.size = count
  | .exporting x | .rendering x _ _ _ => x.Covers kind target count s.world.files
  | .adding _ _ | .decompiling _ _ _ _ => False
  | .reported | .finished => True

@[simp] theorem Stage.exports_withActs (stage : Stage) (acts : List Act) (kind : TaskKind)
    (target : Path) (count : Nat) (s : Workspace) :
    (stage.withActs acts).Exports kind target count s ↔ stage.Exports kind target count s := by
  cases stage <;> rfl

/-- Whether a step of an export comes to another stage of it. -/
def Advance.Exports (a : Advance) (kind : TaskKind) (target : Path) (count : Nat) : Prop :=
  a.stage.Exports kind target count a.workspace

variable {kind : TaskKind} {target : Path} {count : Nat} {s s' : Workspace} {w : World}
  {fs fs' : Files} {log : Option Place} {x : Exporting} {stage : Stage} {o : Outcome}

/-! ## Steps -/

namespace Exporting

theorem Covers.logs (h : x.Covers kind target count fs) (hlogs : fs.Logs log fs') :
    x.Covers kind target count fs' := by
  refine ⟨h.total, fun hkind => ?_⟩
  obtain ⟨htarget, written, hopen, hlength⟩ := h.archive hkind
  exact ⟨htarget, written, hopen.logs hlogs, hlength⟩

/-- An export that has begun covers all classes. -/
theorem covers_openTarget {writer : Writer} {units : List ClassUnit}
    (hopen : (s.writerFor kind target).openTarget fs = (fs', .ok writer)) :
    Covers ⟨writer, 0, units.length, units, ⟨writer.target, [], []⟩⟩ kind target units.length
      fs' := by
  refine ⟨rfl, ?_⟩
  rintro rfl
  obtain ⟨rfl, hisOpen⟩ := Writer.openTarget_archive rfl hopen
  exact ⟨rfl, [], hisOpen, rfl⟩

/-- A class that was written has an entry of its own. -/
theorem Covers.write (h : x.Covers kind target count fs) {writer : Writer}
    {name text shown : String}
    (hwrite : x.writer.write fs name text = (fs', writer, .ok shown)) (handled : Nat) :
    Covers { x with
      writer, handled, summary := { x.summary with written := x.summary.written ++ [name] } }
      kind target count fs' := by
  refine ⟨h.total, fun hkind => ?_⟩
  obtain ⟨htarget, written, hopen, hlength⟩ := h.archive hkind
  obtain ⟨rfl, path, stored, -, -, -, rfl⟩ := Writer.of_write_archive hopen.format hwrite
  refine ⟨htarget, written ++ [(stored, text.toUTF8)], hopen.holding name _ _, ?_⟩
  show (written ++ [(stored, text.toUTF8)]).length = (x.summary.written ++ [name]).length
  rw [List.length_append, List.length_append, hlength]
  rfl

end Exporting

theorem Stage.Exports.logs (h : stage.Exports kind target count s) (hlogs : s.world.Logs w) :
    stage.Exports kind target count (s.withWorld w) := by
  cases stage with
  | exporting => exact Exporting.Covers.logs h hlogs.files
  | rendering => exact Exporting.Covers.logs h hlogs.files
  | _ => exact h

namespace Workspace

theorem Supplies.covers {name : String} {text : Option String}
    (hsupplies : s.Supplies stage x name text) (h : stage.Exports kind target count s) :
    x.Covers kind target count s.world.files := by
  cases hsupplies with
  | known => exact ⟨h.total, h.archive⟩
  | rendered => exact h

/-- A move of an export comes to another stage of it. -/
theorem Moves.exports {a : Advance} (hmove : s.Moves kind target stage a)
    (hkind : kind ≠ .decompileArchive) (h : stage.Exports kind target count s) :
    a.Exports kind target count := by
  cases hmove with
  | opened _ hopen =>
    obtain rfl : s.store.size = count := h
    rw [← Store.length_units]
    exact Exporting.covers_openTarget hopen
  | @asked x _ left =>
    have htaken : Exporting.Covers { x with left } kind target count s.world.files :=
      ⟨h.total, h.archive⟩
    exact htaken.logs (Engine.logs_render _ _ _).files
  | skipped hsupplies =>
    have hcovers := hsupplies.covers h
    exact ⟨hcovers.total, (hcovers.logs (s.world.logs_note _).files).archive⟩
  | written hsupplies hwrite => exact (hsupplies.covers h).write hwrite _
  | noted => exact (stage.exports_withActs _ _ _ _ _).2 (h.logs (s.world.logs_note _))
  | passed => exact (stage.exports_withActs _ _ _ _ _).2 h
  | unopened | unwritten | refused | deserted | rescued | exported | unclosed | threw | lost
  | ended => trivial
  | unconfigured hdecompiles | unmade hdecompiles | made hdecompiles =>
    exact absurd hdecompiles hkind
  | added | unit | total | decompiled => cases h

/-! ## The last step -/

/-- An export that is closed keeps the entries of its archive. -/
theorem accounts_close (h : x.Covers kind target count s.world.files) (hcounts : x.Counts 0)
    (hleft : x.left = []) (hclose : s.closeFailure? x.writer = none) :
    x.summary.Accounts kind target count (s.closeWriter x.writer).world.files := by
  refine ⟨?_, fun hkind => ?_⟩
  · have htotal := hcounts.total
    rw [hleft, h.total, List.length_nil] at htotal
    exact hcounts.handled.trans htotal
  · obtain ⟨htarget, written, hopen, hlength⟩ := h.archive hkind
    rw [Workspace.closeFailure?, hopen.close_error, Option.map_eq_none_iff,
      Option.map_eq_none_iff] at hclose
    obtain ⟨executable, hget⟩ := hopen.get_close hclose
    exact ⟨written, executable, htarget ▸ hget, hlength⟩

/-- The last move of an export fails, or it closes a target that has all classes. -/
theorem Moves.exported_last {a : Advance} (hmove : s.Moves kind target stage a)
    (h : stage.Exports kind target count s) (hcounts : stage.Counts)
    (hsent : a.sent = [.finished o]) :
    (∃ reason, o = .failure reason) ∨ ∃ summary, o = .success (some (.exported summary)) ∧
      summary.Accounts kind target count a.workspace.world.files := by
  cases hmove with
  | exported hleft hclose =>
    cases hsent
    exact .inr ⟨_, rfl, accounts_close h hcounts hleft hclose⟩
  | unconfigured | unmade | threw | unopened | unwritten | refused | rescued | unclosed =>
    cases hsent
    exact .inl ⟨_, rfl⟩
  | decompiled => cases h
  | made | added | unit | total | lost | noted | passed | opened | asked | skipped | written
  | deserted | ended => cases hsent

end Workspace

/-- An export task fails, or its summary accounts for all classes of the store and for the entries
of the archive that it has made. -/
theorem TaskEnds.exported (h : TaskEnds kind target s s' o) (hkind : kind ≠ .decompileArchive) :
    (∃ reason, o = .failure reason) ∨ ∃ summary, o = .success (some (.exported summary)) ∧
      summary.Accounts kind target s.store.size s'.world.files := by
  obtain ⟨s₁, stage₁, a, hmove, ⟨hexports, hcounts⟩, rfl, hsent⟩ := h.exists_last
    (P := fun s₁ stage => stage.Exports kind target s.store.size s₁ ∧ stage.Counts) ⟨rfl, trivial⟩
    fun hmove hstage _ => ⟨hmove.exports hkind hstage.1, (hmove.counts hstage.2).stage⟩
  exact hmove.exported_last hexports hcounts hsent

end ClassBrowser
