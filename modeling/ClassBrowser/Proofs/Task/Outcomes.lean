import ClassBrowser.Proofs.Task.Survival

/-!
# How tasks end

A task that nothing costs its worker has one end (`exists_taskEnds`, `TaskEnds.unique`).  Its
outcome is sent by a last step (`TaskEnds.exists_last`), so what an outcome means is read off that
step, given what holds of the workspace and the stage before it.

What a decompile task leaves in the store is what its engine has reported (`TaskEnds.size_eq`).
-/

namespace ClassBrowser

/-- Whether a task of a kind that starts on the workspace `s` leaves `s'` and ends so. -/
def TaskEnds (kind : TaskKind) (target : Path) (s s' : Workspace) (o : Outcome) : Prop :=
  ∃ sent, Completes kind target s .ready s' sent ∧ IsReport sent o

/-- From a stage on, the engine of a task reports these classes. -/
inductive Reports (kind : TaskKind) (target : Path) :
    Workspace → Stage → List (String × Option String) → Prop
  | finished (s : Workspace) : Reports kind target s .finished []
  | step {s : Workspace} {stage : Stage} {reported : List (String × Option String)}
      (hstage : stage ≠ .finished)
      (rest : Reports kind target (s.advance kind target stage).workspace
        (s.advance kind target stage).stage reported) :
      Reports kind target s stage (stage.reports ++ reported)

variable {kind : TaskKind} {target : Path} {s s' s₁ s₂ : Workspace} {stage : Stage}
  {sent sent₁ sent₂ : List Message} {o o₁ o₂ : Outcome} {reported : List (String × Option String)}

/-! ## One end -/

theorem Completes.unique (h₁ : Completes kind target s stage s₁ sent₁)
    (h₂ : Completes kind target s stage s₂ sent₂) : s₁ = s₂ ∧ sent₁ = sent₂ := by
  induction h₁ generalizing s₂ sent₂ with
  | finished s =>
    cases h₂ with
    | finished => exact ⟨rfl, rfl⟩
    | step hstage => exact absurd rfl hstage
  | step hstage rest ih =>
    cases h₂ with
    | finished => exact absurd rfl hstage
    | step _ rest' =>
      obtain ⟨rfl, rfl⟩ := ih rest'
      exact ⟨rfl, rfl⟩

theorem TaskEnds.unique (h₁ : TaskEnds kind target s s₁ o₁) (h₂ : TaskEnds kind target s s₂ o₂) :
    s₁ = s₂ ∧ o₁ = o₂ := by
  obtain ⟨sent₁, hcompletes₁, hreport₁⟩ := h₁
  obtain ⟨sent₂, hcompletes₂, hreport₂⟩ := h₂
  obtain ⟨rfl, rfl⟩ := hcompletes₁.unique hcompletes₂
  have hsame := (Pipeline.findSome?_outcome? hreport₁).symm.trans
    (Pipeline.findSome?_outcome? hreport₂)
  exact ⟨rfl, Option.some.inj hsame⟩

/-- A task that nothing costs its worker comes to its end. -/
theorem exists_taskEnds (hs : s.Spares) (kind : TaskKind) (target : Path) :
    ∃ s' o, TaskEnds kind target s s' o := by
  obtain ⟨s', sent, hcompletes⟩ := exists_completes kind target s .ready
  obtain ⟨o, hreport⟩ := hcompletes.isReport hs trivial rfl
  exact ⟨s', o, sent, hcompletes, hreport⟩

theorem Completes.spares (h : Completes kind target s stage s' sent) (hs : s.Spares)
    (hstage : stage.Spares) : s'.Spares := by
  induction h with
  | finished => exact hs
  | step _ rest ih =>
    obtain ⟨hworkspace, hnext⟩ := hs.advance_both hstage _ _
    exact ih hworkspace hnext

theorem TaskEnds.spares (h : TaskEnds kind target s s' o) (hs : s.Spares) : s'.Spares := by
  obtain ⟨sent, hcompletes, -⟩ := h
  exact hcompletes.spares hs trivial

/-! ## The last step -/

theorem IsReport.tail {m : Message} (h : IsReport (m :: sent) o) (hm : m.outcome? = none) :
    IsReport sent o := by
  obtain ⟨progress, hsent, hprogress⟩ := h
  cases progress with
  | nil =>
    obtain ⟨rfl, -⟩ := List.cons.inj hsent
    cases hm
  | cons first rest =>
    obtain ⟨-, rfl⟩ := List.cons.inj hsent
    exact ⟨rest, rfl, (List.forall_mem_cons.1 hprogress).2⟩

theorem not_isReport_nil : ¬ IsReport [] o := by
  rintro ⟨progress, hsent, -⟩
  exact absurd hsent.symm (List.append_ne_nil_of_right_ne_nil progress (List.cons_ne_nil _ _))

theorem Completes.eq_of_reported (h : Completes kind target s .reported s' sent) : s' = s := by
  cases h with
  | step hstage rest =>
    cases rest with
    | finished => rfl
    | step hstage => exact absurd rfl hstage

/-- What holds at the start of a stretch and is kept up to the last step holds before that, and the
last step sends the outcome. -/
theorem Completes.exists_last {P : Workspace → Stage → Prop}
    (h : Completes kind target s stage s' sent) (hreport : IsReport sent o)
    (hover : stage.isOver = false) (hP : P s stage)
    (hstep : ∀ {s stage a}, s.Moves kind target stage a → P s stage → a.stage.isOver = false →
      P a.workspace a.stage) :
    ∃ s₁ stage₁ a, s₁.Moves kind target stage₁ a ∧ P s₁ stage₁ ∧ a.workspace = s' ∧
      a.sent = [.finished o] := by
  induction h with
  | finished => cases hover
  | @step s s' stage sent _ rest ih =>
    have hmove := s.moves_advance kind target stage
    rcases hmove.isStep.sends with
      ⟨hsent, hnext⟩ | ⟨p, hsent, hnext⟩ | ⟨o', hsent, hnext, -⟩
    · rw [hsent] at hreport
      have hgoes : (s.advance kind target stage).stage.isOver = false := by
        cases hlast : (s.advance kind target stage).stage.isOver with
        | false => rfl
        | true =>
          obtain rfl := rest.eq_nil hlast
          exact absurd hreport not_isReport_nil
      exact ih hreport hgoes (hstep hmove hP hgoes)
    · rw [hsent] at hreport
      exact ih (hreport.tail rfl) hnext (hstep hmove hP hnext)
    · have hlast := rest
      rw [hnext] at hlast
      obtain rfl := hlast.eq_of_reported
      obtain rfl := rest.eq_nil (by rw [hnext]; rfl)
      rw [hsent] at hreport
      obtain rfl : o' = o := Option.some.inj (Pipeline.findSome?_outcome? hreport)
      exact ⟨s, stage, _, hmove, hP, rfl, hsent⟩

theorem TaskEnds.exists_last {P : Workspace → Stage → Prop} (h : TaskEnds kind target s s' o)
    (hP : P s .ready)
    (hstep : ∀ {s stage a}, s.Moves kind target stage a → P s stage → a.stage.isOver = false →
      P a.workspace a.stage) :
    ∃ s₁ stage₁ a, s₁.Moves kind target stage₁ a ∧ P s₁ stage₁ ∧ a.workspace = s' ∧
      a.sent = [.finished o] := by
  obtain ⟨sent, hcompletes, hreport⟩ := h
  exact hcompletes.exists_last hreport rfl hP hstep

/-! ## Computing the end -/

/-- The outcome that a worker sends within so many steps, and what it leaves of the workspace. -/
def Workspace.outcomeWithin (kind : TaskKind) (target : Path) :
    Nat → Workspace → Stage → Option (Workspace × Outcome)
  | 0, _, _ => none
  | n + 1, s, stage =>
    let a := s.advance kind target stage
    match a.sent.findSome? Message.outcome? with
    | some o => some (a.workspace, o)
    | none => outcomeWithin kind target n a.workspace a.stage

theorem Completes.eq_of_outcomeWithin {n : Nat} (h : Completes kind target s stage s' sent)
    (hreport : IsReport sent o)
    (hwithin : Workspace.outcomeWithin kind target n s stage = some (s₁, o₁)) :
    s' = s₁ ∧ o = o₁ := by
  induction h generalizing n with
  | finished => exact absurd hreport not_isReport_nil
  | @step s s' stage sent _ rest ih =>
    cases n with
    | zero => cases hwithin
    | succ n =>
      unfold Workspace.outcomeWithin at hwithin
      dsimp only at hwithin
      rcases (s.isStep_advance kind target stage).sends with
        ⟨hsent, -⟩ | ⟨p, hsent, -⟩ | ⟨o', hsent, hnext, -⟩
      · rw [hsent] at hreport hwithin
        exact ih hreport hwithin
      · rw [hsent] at hreport hwithin
        exact ih (hreport.tail rfl) hwithin
      · rw [hsent] at hwithin
        obtain ⟨rfl, rfl⟩ := Prod.mk.inj (Option.some.inj hwithin)
        rw [hnext] at rest
        obtain rfl := rest.eq_of_reported
        rw [hsent] at hreport
        exact ⟨rfl, (Option.some.inj (Pipeline.findSome?_outcome? hreport)).symm⟩

/-- A task ends as its steps show, so that its end can be computed. -/
theorem TaskEnds.of_outcomeWithin {n : Nat} (hs : s.Spares)
    (h : Workspace.outcomeWithin kind target n s .ready = some (s', o)) :
    TaskEnds kind target s s' o := by
  obtain ⟨s₁, o₁, sent, hcompletes, hreport⟩ := exists_taskEnds hs kind target
  obtain ⟨rfl, rfl⟩ := hcompletes.eq_of_outcomeWithin hreport h
  exact ⟨sent, hcompletes, hreport⟩

/-! ## What is reported -/

theorem exists_reports (kind : TaskKind) (target : Path) (s : Workspace) (stage : Stage) :
    ∃ reported, Reports kind target s stage reported := by
  by_cases hstage : stage = .finished
  · exact ⟨[], hstage ▸ .finished s⟩
  · obtain ⟨reported, hrest⟩ := exists_reports kind target
      (s.advance kind target stage).workspace (s.advance kind target stage).stage
    exact ⟨_, .step hstage hrest⟩
termination_by stage.rank
decreasing_by exact s.rank_advance_lt kind target stage hstage

/-- Once a task has begun, the store takes in what its engine reports. -/
theorem Completes.entries_eq (h : Completes kind target s stage s' sent)
    (hreports : Reports kind target s stage reported)
    (hbegun : kind = .decompileArchive → stage ≠ .ready) :
    s'.store.entries = s.store.entries.insertAll reported := by
  induction h generalizing reported with
  | finished =>
    cases hreports with
    | finished => rfl
    | step hstage => exact absurd rfl hstage
  | @step s s' stage sent hstage rest ih =>
    cases hreports with
    | finished => exact absurd rfl hstage
    | step _ hrest =>
      have hstep := s.isStep_advance kind target stage
      obtain ⟨world, store, engine, hworkspace, hentries, -⟩ := hstep.changes hbegun
      rw [ih hrest fun _ => hstep.begun, Assoc.insertAll_append, ← hentries, hworkspace]

/-- A decompile task leaves as many classes as its engine has reported different names. -/
theorem TaskEnds.size_eq (h : TaskEnds .decompileArchive target s s' o)
    (hfactory : s.factory ≠ none) (hreports : Reports .decompileArchive target s .ready reported) :
    s'.store.size = (reported.map Prod.fst).eraseDups.length := by
  obtain ⟨sent, hcompletes, -⟩ := h
  cases hcompletes with
  | step _ hbehind =>
    cases hreports with
    | @step _ _ reported _ hrest =>
      have hbegun := (s.isStep_advance .decompileArchive target .ready).begun
      obtain ⟨world, hworkspace⟩ := @Workspace.beginDecompile_eq s target hfactory
      have hempty : (s.advance .decompileArchive target .ready).workspace.store.entries = [] := by
        show (s.beginDecompile target).workspace.store.entries = []
        rw [hworkspace]
        rfl
      have hentries := hbehind.entries_eq hrest fun _ => hbegun
      rw [hempty] at hentries
      have hkeys : s'.store.entries.keys = (reported.map Prod.fst).eraseDups := by
        rw [hentries, Assoc.keys_insertAll (t := []) List.nodup_nil]
        rfl
      show s'.store.entries.length = (reported.map Prod.fst).eraseDups.length
      rw [← hkeys, Assoc.keys, List.length_map]

end ClassBrowser
