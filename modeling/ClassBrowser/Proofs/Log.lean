import ClassBrowser.Engine.Basic
import ClassBrowser.Proofs.Files.Ways

/-!
# What the log leaves in the files

A record goes to the end of the log's file, and nothing else in the files changes (`logs_note`).
Asking an engine for the text of a class leaves no more than that in the files either
(`logs_renderNow`).  Directories and archives are not touched at all, so that paths lead where they
led and archives keep their entries.
-/

namespace ClassBrowser

/-- Whether what stands at a place has changed at most by what was added to the end of the log's
file, which is to be found at the place `log`. -/
inductive Files.Logged (log : Option Place) (place : Place) : Option Node → Option Node → Prop
  | same (node : Option Node) : Logged log place node node
  | made (data : ByteArray) (h : log = some place) :
    Logged log place none (some (.file (.bytes data) false))
  | longer (old data : ByteArray) (executable : Bool) (h : log = some place) :
    Logged log place (some (.file (.bytes old) executable))
      (some (.file (.bytes (old ++ data)) executable))

namespace Files.Logged

variable {log : Option Place} {place : Place} {a b c : Option Node}

theorem trans (h₁ : Logged log place a b) (h₂ : Logged log place b c) : Logged log place a c := by
  cases h₂ with
  | same => exact h₁
  | made data h =>
    cases h₁
    exact .made data h
  | longer old data executable h =>
    cases h₁ with
    | same => exact .longer old data executable h
    | made => exact .made _ h
    | longer first second =>
      rw [ByteArray.append_assoc]
      exact .longer first _ executable h

/-- Away from the log's file, nothing changes. -/
theorem eq_of_ne (h : Logged log place a b) (hne : log ≠ some place) : b = a := by
  cases h with
  | same => rfl
  | made data hplace => exact absurd hplace hne
  | longer old data executable hplace => exact absurd hplace hne

theorem eq_none (h : Logged log place a none) : a = none := by
  cases h
  rfl

theorem directory_iff (h : Logged log place a b) : b = some .directory ↔ a = some .directory := by
  cases h <;> simp

/-- The log does not change what may be executed. -/
theorem any_isExecutable (h : Logged log place a b) :
    b.any Node.isExecutable = a.any Node.isExecutable := by
  cases h <;> rfl

theorem archive {entries : List (String × ByteArray)} {executable : Bool}
    (h : Logged log place (some (.file (.archive entries) executable)) b) :
    b = some (.file (.archive entries) executable) := by
  cases h
  rfl

end Files.Logged

namespace Files

variable {fs fs' fs₁ : Files} {log : Option Place}

/-- Whether the files have changed at most by records of the log. -/
structure Logs (fs : Files) (log : Option Place) (fs' : Files) : Prop where
  node : ∀ place, Logged log place (fs.node? place) (fs'.node? place)
  device : fs'.device = fs.device

namespace Logs

theorem refl (fs : Files) (log : Option Place) : fs.Logs log fs := ⟨fun _ => .same _, rfl⟩

theorem trans (h₁ : fs.Logs log fs₁) (h₂ : fs₁.Logs log fs') : fs.Logs log fs' :=
  ⟨fun place => (h₁.node place).trans (h₂.node place), h₂.device.trans h₁.device⟩

theorem locate {p : Path} {place : Place} (h : fs.Logs log fs')
    (hlocate : fs.locate p = .ok place) : fs'.locate p = .ok place :=
  locate_of_directories (fun q hq => (h.node q).directory_iff.2 hq) hlocate

/-- Archives keep their entries. -/
theorem get_archive {p : Path} {entries : List (String × ByteArray)} {executable : Bool}
    (h : fs.Logs log fs') (hget : fs.get p = .ok (.file (.archive entries) executable)) :
    fs'.get p = .ok (.file (.archive entries) executable) := by
  obtain ⟨place, hlocate, hnode⟩ := exists_locate_of_get hget
  have hplace := h.node place
  rw [hnode] at hplace
  exact get_eq_ok (h.locate hlocate) hplace.archive

end Logs

theorem logs_set {at_ : Place} {node : Node}
    (h : Logged (some at_) at_ (fs.node? at_) (some node)) :
    fs.Logs (some at_) (fs.set at_ node) := by
  refine ⟨fun place => ?_, rfl⟩
  rw [node?_set]
  split
  · next hplace => exact hplace ▸ h
  · exact .same _

theorem logs_append {p : Path} {data : ByteArray} (h : fs.append p data = .ok fs') :
    fs.Logs (some p.place) fs' := by
  cases hlocate : fs.locate p with
  | error e =>
    rw [append, hlocate] at h
    cases h
  | ok at_ =>
    obtain rfl := locate_eq_ok hlocate
    rw [append, hlocate] at h
    dsimp only [bind, Except.bind] at h
    split at h
    · cases h
    · next old executable hnode =>
      obtain rfl := Except.ok.inj h
      refine logs_set ?_
      rw [hnode]
      exact .longer old data executable rfl
    · obtain rfl := Except.ok.inj h
      exact .refl _ _
    · next hnode =>
      obtain rfl := Except.ok.inj h
      refine logs_set ?_
      rw [hnode]
      exact .made data rfl

end Files

namespace World

variable {w w₁ w₂ : World}

/-- The place of the log's file. -/
def logPlace (w : World) : Option Place := w.logFile.map Path.place

/-- Whether records of the log are all that has changed in the files. -/
structure Logs (w w' : World) : Prop where
  logFile : w'.logFile = w.logFile
  files : w.files.Logs w.logPlace w'.files

namespace Logs

theorem refl (w : World) : w.Logs w := ⟨rfl, .refl _ _⟩

theorem logPlace (h : w.Logs w₁) : w₁.logPlace = w.logPlace := by
  rw [World.logPlace, World.logPlace, h.logFile]

theorem trans (h₁ : w.Logs w₁) (h₂ : w₁.Logs w₂) : w.Logs w₂ := by
  refine ⟨h₂.logFile.trans h₁.logFile, h₁.files.trans ?_⟩
  rw [← h₁.logPlace]
  exact h₂.files

end Logs

/-- A record changes nothing but the log's file. -/
theorem logs_note (w : World) (record : Log.Record) : w.Logs (w.note record) := by
  refine ⟨rfl, ?_⟩
  show w.files.Logs w.logPlace (w.filesAfter record)
  rw [logPlace]
  cases hfile : w.logFile with
  | none =>
    rw [filesAfter, hfile]
    exact .refl _ _
  | some p =>
    rw [filesAfter, hfile]
    dsimp only [Option.map]
    cases happend : w.files.append p record.line.toUTF8 with
    | error e => exact .refl _ _
    | ok files => exact Files.logs_append happend

end World

theorem Decompiler.logs_render (d : Decompiler) (w : World) (name : String) :
    w.Logs (d.render w name).1 := by
  unfold render
  split
  · exact .refl _
  · exact .refl _
  · split
    · exact w.logs_note _
    · exact .refl _

namespace Engine

theorem logs_performNow (w : World) (acts : List Act) : w.Logs (performNow w acts).1 := by
  fun_induction performNow w acts with
  | case2 w record rest ih => exact (w.logs_note record).trans ih
  | case5 w _ rest _ _ _ ih => exact ih
  | _ => exact .refl _

theorem logs_render (e : Engine) (w : World) (name : String) : w.Logs (e.render w name).1 := by
  have htrace : w.Logs (e.trace w (.render name)) := ⟨rfl, .refl _ _⟩
  unfold render
  dsimp only
  split
  · split <;> exact htrace
  · next d _ =>
    have hrender := htrace.trans (d.logs_render (e.trace w (.render name)) name)
    split
    · next hlogs => rwa [hlogs] at hrender
    · next hlogs => rwa [hlogs] at hrender

/-- Asking an engine for a text changes nothing in the files but that of the log. -/
theorem logs_renderNow (e : Engine) (w : World) (name : String) :
    w.Logs (e.renderNow w name).1 := by
  have hrender := e.logs_render w name
  have hperform := logs_performNow (e.render w name).1 (e.render w name).2.1
  unfold renderNow
  dsimp only
  split
  · next w' hw' =>
    rw [hw'] at hperform
    exact hrender.trans hperform
  · next w' t hw' =>
    rw [hw'] at hperform
    exact hrender.trans hperform

end Engine

end ClassBrowser
