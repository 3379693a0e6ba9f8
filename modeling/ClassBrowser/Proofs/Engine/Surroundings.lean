import ClassBrowser.Engine.Basic
import ClassBrowser.Proofs.Engine.Reports

/-!
# What a request to an engine changes

A request leaves its call in the trace, and of the other surroundings it changes the files and the
log only: `World.Alters` says what is not touched, and each request is shown once to keep to it.
The engine stays the one that was asked (`number_decompile`), and a run changes nothing of the
decompiler but what it has made (`decompile_keeps`).
-/

namespace ClassBrowser

/-- Whether surroundings differ in nothing but the files and the log. -/
structure World.Alters (w w' : World) : Prop where
  env : w'.env = w.env
  logFile : w'.logFile = w.logFile
  calls : w'.calls = w.calls
  engines : w'.engines = w.engines

variable {w w' w'' : World} {d : Decompiler}

namespace World

theorem Alters.refl (w : World) : w.Alters w := ⟨rfl, rfl, rfl, rfl⟩

theorem Alters.trans (h : w.Alters w') (h' : w'.Alters w'') : w.Alters w'' :=
  ⟨h'.env.trans h.env, h'.logFile.trans h.logFile, h'.calls.trans h.calls,
    h'.engines.trans h.engines⟩

theorem alters_files (w : World) (files : Files) : w.Alters { w with files } := ⟨rfl, rfl, rfl, rfl⟩

theorem alters_note (w : World) (record : Log.Record) : w.Alters (w.note record) :=
  ⟨rfl, rfl, rfl, rfl⟩

theorem alters_noteAll (w : World) (records : List Log.Record) : w.Alters (w.noteAll records) := by
  induction records generalizing w with
  | nil => exact .refl w
  | cons record rest ih => exact (w.alters_note record).trans (ih _)

end World

/-! ## The external decompiler -/

namespace Decompiler

theorem alters_close (d : Decompiler) (w : World) : w.Alters (d.close w).1 := by
  unfold close
  split
  · exact w.alters_files _
  · exact .refl w

theorem alters_launch (d : Decompiler) (w : World) : w.Alters (d.launch w).1 := by
  have hemptied (files : Files) : w.Alters { (d.close w).1 with files } :=
    (d.alters_close w).trans (World.alters_files _ files)
  unfold launch
  dsimp only
  split
  · exact hemptied _
  · split
    · exact (hemptied _).trans (World.alters_note _ _)
    · exact (((hemptied _).trans (World.alters_note _ _)).trans (World.alters_files _ _)).trans
        (World.alters_noteAll _ _)

theorem alters_decompile (d : Decompiler) (w : World) : w.Alters (d.decompile w).1 := by
  by_cases hsources : d.sources = []
  · rw [decompile_of_no_archive hsources]
    exact .refl w
  · rw [world_decompile hsources]
    exact d.alters_launch w

theorem alters_render (d : Decompiler) (w : World) (name : String) :
    w.Alters (d.render w name).1 := by
  unfold render
  split
  · exact .refl w
  · exact .refl w
  · split
    · exact w.alters_note _
    · exact .refl w

/-- A run changes nothing of the decompiler but what it has made. -/
theorem decompile_keeps (d : Decompiler) (w : World) :
    ∃ running locations, (d.decompile w).2.1 = { d with running, locations } := by
  by_cases hsources : d.sources = []
  · rw [decompile_of_no_archive hsources]
    exact ⟨d.running, d.locations, rfl⟩
  · rcases decompile_cases hsources w with ⟨w', e, hfails⟩ | ⟨w', locations, acts, hends⟩
    · rw [hfails]
      exact ⟨true, [], rfl⟩
    · rw [hends]
      exact ⟨true, locations, rfl⟩

end Decompiler

/-! ## Engines -/

namespace Engine

variable (e : Engine) (w : World)

theorem alters_addSource (archive : Path) :
    (e.trace w (.addSource archive)).Alters (e.addSource w archive).1 := by
  unfold addSource
  dsimp only
  split
  · exact .refl _
  · split <;> exact .refl _

theorem alters_decompile : (e.trace w .decompile).Alters (e.decompile w).1 := by
  unfold decompile
  dsimp only
  split
  · exact .refl _
  · exact Decompiler.alters_decompile _ _

theorem alters_render (name : String) :
    (e.trace w (.render name)).Alters (e.render w name).1 := by
  unfold render
  dsimp only
  split
  · split <;> exact .refl _
  · next d _ =>
    have hrender := d.alters_render (e.trace w (.render name)) name
    split
    · next hanswer => rwa [hanswer] at hrender
    · next hanswer => rwa [hanswer] at hrender

theorem alters_close : (e.trace w .close).Alters (e.close w).1 := by
  unfold close
  dsimp only
  split
  · exact .refl _
  · exact Decompiler.alters_close _ _

theorem alters_performNow (acts : List Act) : w.Alters (performNow w acts).1 := by
  induction acts generalizing w with
  | nil => exact .refl w
  | cons act rest ih =>
    cases act with
    | note record => exact (w.alters_note record).trans (ih _)
    | throw t => exact .refl w
    | abort t => exact .refl w
    | _ => exact ih w

theorem renderNow_eq (name : String) :
    e.renderNow w name =
      ((performNow (e.render w name).1 (e.render w name).2.1).1,
        match (performNow (e.render w name).1 (e.render w name).2.1).2 with
        | none => .ok (e.render w name).2.2
        | some t => .error t) := by
  unfold renderNow
  dsimp only
  split
  · next hperform => rw [hperform]
  · next hperform => rw [hperform]

theorem alters_renderNow (name : String) :
    (e.trace w (.render name)).Alters (e.renderNow w name).1 := by
  rw [renderNow_eq]
  exact (e.alters_render w name).trans (alters_performNow _ _)

theorem number_addSource (archive : Path) : (e.addSource w archive).2.1.number = e.number := by
  unfold addSource
  dsimp only
  split
  · rfl
  · split <;> rfl

theorem number_decompile : (e.decompile w).2.1.number = e.number := by
  unfold decompile
  dsimp only
  split <;> rfl

end Engine

end ClassBrowser
