import ClassBrowser.Proofs.Export.DirectoryTarget
import ClassBrowser.Proofs.Export.Targets

/-!
# Confinement to a target

A class that is written below a directory leaves everything outside alone, whatever its name is,
provided that the extension stays below the file's own name (`staysBelow`).  The segments of a name
are looked at before the extension is put behind the last of them, and the extension may bring
components of its own: each one leads a directory down, or up again where it is two dots.
-/

namespace ClassBrowser

open Text (Glyph Loose)

/-! ## Walks -/

namespace Path

variable {d d' : Nat} {parts : List Loose} {below : Place}

/-- Whether a walk that begins some directories below a place never goes above it. -/
def staysBelow : Nat → List Loose → Bool
  | _, [] => true
  | d, part :: rest =>
    if part = .whole ".." then d != 0 && staysBelow (d - 1) rest else staysBelow (d + 1) rest

theorem staysBelow_mono (h : staysBelow d parts = true) (hd : d ≤ d') :
    staysBelow d' parts = true := by
  induction parts generalizing d d' with
  | nil => rfl
  | cons part rest ih =>
    rw [staysBelow] at h ⊢
    split at h
    · next hup =>
      obtain ⟨hpos, hrest⟩ := Bool.and_eq_true_iff.1 h
      have hne : d ≠ 0 := bne_iff_ne.1 hpos
      rw [if_pos hup, bne_iff_ne.2 (by omega), Bool.true_and]
      exact ih hrest (by omega)
    · next hdown =>
      rw [if_neg hdown]
      exact ih h (by omega)

theorem staysBelow_append (hdown : ∀ part ∈ parts, part ≠ .whole "..") (d : Nat)
    (rest : List Loose) : staysBelow d (parts ++ rest) = staysBelow (d + parts.length) rest := by
  induction parts generalizing d with
  | nil => rfl
  | cons part more ih =>
    obtain ⟨hpart, hmore⟩ := List.forall_mem_cons.1 hdown
    rw [List.cons_append, staysBelow, if_neg hpart, ih hmore, List.length_cons]
    congr 1
    omega

/-- Whatever a walk that stays below a place passes through lies there. -/
theorem isPrefix_foldl_step (root : Place) (h : staysBelow d parts = true)
    (hd : d ≤ below.length) (n : Nat) :
    root <+: (parts.take n).foldl step (root ++ below) := by
  induction parts generalizing d below n with
  | nil =>
    rw [List.take_nil]
    exact List.prefix_append _ _
  | cons part rest ih =>
    cases n with
    | zero => exact List.prefix_append _ _
    | succ n =>
      rw [staysBelow] at h
      rw [List.take_succ_cons, List.foldl_cons, step]
      split at h
      · next hup =>
        obtain ⟨hpos, hrest⟩ := Bool.and_eq_true_iff.1 h
        have hd' : d ≠ 0 := bne_iff_ne.1 hpos
        have hne : below ≠ [] := List.ne_nil_of_length_pos (by omega)
        rw [if_pos hup, List.dropLast_append_of_ne_nil hne]
        exact ih hrest (by rw [List.length_dropLast]; omega) n
      · next hdown =>
        rw [if_neg hdown, List.append_assoc]
        exact ih h (by rw [List.length_append, List.length_singleton]; omega) n

theorem place_behind (p : Path) (parts : List Loose) :
    place { p with parts := p.parts ++ parts } = parts.foldl step p.place := List.foldl_append

end Path

/-! ## Paths of classes -/

namespace Export

variable {delimiter extension : Loose} {name : String} {p target : Path} {q : Place}

/-- The components that an extension puts behind that of the name. -/
def addedComponents (extension : Loose) : List Loose :=
  extension.pieces.tail.filter fun part => !part.isEmpty && part != .whole "."

/-- Whether an extension leads to nothing but what lies where the name does, or below. -/
def Stays (extension : Loose) : Prop := Path.staysBelow 1 (addedComponents extension) = true

instance (extension : Loose) : Decidable (Stays extension) :=
  inferInstanceAs (Decidable (_ = true))

/-- An extension without a slash brings no component. -/
theorem stays_of_not_mem (h : .char '/' ∉ extension.glyphs) : Stays extension := by
  have hadded : addedComponents extension = [] := by
    rw [addedComponents, Loose.pieces_eq, Loose.splitGlyphs_of_not_mem h]
    rfl
  rw [Stays, hadded]
  rfl

/-- The extension joins the last segment, and brings its own components behind it. -/
theorem components_append {s : String} (hs : isComponent s = true) (extension : Loose) :
    ∃ first, first ≠ .whole ".." ∧
      Path.components (.whole s ++ extension) = first :: addedComponents extension := by
  have hpieces := Loose.pieces_append (t := extension) (slash_notMem_of_isComponent hs)
  cases hextension : extension.pieces with
  | nil =>
    rw [Loose.pieces_eq, List.map_eq_nil_iff] at hextension
    exact absurd hextension (Text.splitGlyphs_ne_nil _ _)
  | cons first rest =>
    rw [hextension, List.modifyHead_cons] at hpieces
    have hempty : (Loose.whole s ++ first).isEmpty = false := by
      have hne := append_ne_dots (t := "") hs List.nil_prefix first
      cases happend : Loose.whole s ++ first with
      | torn gs h => rfl
      | whole t =>
        rw [happend] at hne
        refine Bool.eq_false_iff.2 fun ht => hne ?_
        rw [String.isEmpty_iff.1 ht]
    have hdot : (Loose.whole s ++ first != .whole ".") = true :=
      bne_iff_ne.2 (append_ne_dots hs (by decide) first)
    refine ⟨_, append_ne_dots (t := "..") hs (by decide) first, ?_⟩
    have hkept : (!(Loose.whole s ++ first).isEmpty && Loose.whole s ++ first != .whole ".") =
        true := by
      rw [hempty, hdot]
      rfl
    calc
      Path.components (.whole s ++ extension) =
          ((.whole s ++ first) :: rest).filter fun part => !part.isEmpty && part != .whole "." := by
        rw [Path.components, hpieces]
      _ = (.whole s ++ first) :: rest.filter fun part => !part.isEmpty && part != .whole "." :=
        List.filter_cons_of_pos hkept
      _ = (.whole s ++ first) :: addedComponents extension := by
        rw [addedComponents, hextension, List.tail_cons]

/-- The components of the path of a class: those of its name, which lead down, and those of the
extension. -/
theorem exists_parts_eq_append (h : entryPath delimiter extension name = .ok p) :
    ∃ own, own ≠ [] ∧ (∀ part ∈ own, part ≠ .whole "..") ∧
      p = ⟨.relative, own ++ addedComponents extension⟩ := by
  obtain ⟨segments, hpieces, hall, rfl⟩ := entryPath_eq_ok_iff.1 h
  rcases List.eq_nil_or_concat' segments with rfl | ⟨front, last, rfl⟩
  · exact absurd rfl (QualifiedName.ne_nil_of_pieces hpieces)
  obtain ⟨first, hfirst, hlast⟩ := components_append (hall last (by simp)) extension
  have hsegment : ∀ part ∈ front.map Loose.whole,
      Path.components part = [part] ∧ part ≠ .whole ".." := by
    intro part hpart
    obtain ⟨s, hs, rfl⟩ := List.mem_map.1 hpart
    have haccepted := hall s (by simp [hs])
    obtain ⟨hempty, hdot, hdots, -⟩ := isComponent_iff.1 haccepted
    have hslash := slash_notMem_of_isComponent haccepted
    exact ⟨Path.components_of_not_mem hslash (by simpa using hempty) (by simpa using hdot),
      by simpa using hdots⟩
  have hfront : (front.map Loose.whole).flatMap Path.components = front.map Loose.whole := by
    rw [List.flatMap_congr fun part hpart => (hsegment part hpart).1, List.flatMap_singleton']
  refine ⟨front.map Loose.whole ++ [first], by simp, ?_, ?_⟩
  · intro part hpart
    rcases List.mem_append.1 hpart with hown | hfinal
    · exact (hsegment part hown).2
    · exact List.mem_singleton.1 hfinal ▸ hfirst
  · have hparts : (withExtension extension (front ++ [last])).flatMap Path.components =
        front.map Loose.whole ++ [first] ++ addedComponents extension :=
      calc
        (withExtension extension (front ++ [last])).flatMap Path.components =
            (front.map Loose.whole).flatMap Path.components ++
              Path.components (Loose.whole last ++ extension) := by
          rw [withExtension_concat, List.flatMap_append, List.flatMap_singleton]
        _ = front.map Loose.whole ++ (first :: addedComponents extension) := by rw [hfront, hlast]
        _ = front.map Loose.whole ++ [first] ++ addedComponents extension := by
          rw [List.append_assoc, List.singleton_append]
    rw [hparts]

/-- The path of a class leads to a place below that of the target, and does not leave it on the
way. -/
theorem passes_append (hstays : Stays extension) (h : entryPath delimiter extension name = .ok p)
    (target : Path) :
    target.place <+: (target.append p).place ∧
      ∀ q, (target.append p).Passes q → target.Passes q ∨ target.place <+: q := by
  obtain ⟨own, hne, hdown, rfl⟩ := exists_parts_eq_append h
  let parts := own ++ addedComponents extension
  have hbelow : Path.staysBelow 0 parts = true := by
    rw [Path.staysBelow_append hdown, Nat.zero_add]
    exact Path.staysBelow_mono hstays (List.length_pos_of_ne_nil hne)
  have hwalk : ∀ n, target.place <+: (parts.take n).foldl Path.step target.place := by
    intro n
    have hnone : 0 ≤ ([] : Place).length := Nat.zero_le _
    have hbegins := Path.isPrefix_foldl_step target.place hbelow hnone n
    rwa [List.append_nil] at hbegins
  have hfile : target.append ⟨.relative, parts⟩ =
      { target with parts := target.parts ++ parts } := if_pos rfl
  rw [hfile]
  refine ⟨?_, ?_⟩
  · have hall := hwalk parts.length
    rw [List.take_length] at hall
    rwa [Path.place_behind]
  · rintro q ⟨n, rfl⟩
    rcases Nat.le_total n target.parts.length with hn | hn
    · left
      refine ⟨n, ?_⟩
      rw [List.take_append_of_le_length hn]
    · right
      have hbehind := target.place_behind (parts.take (n - target.parts.length))
      rw [List.take_append, List.take_of_length_le hn, hbehind]
      exact hwalk _

end Export

/-! ## Changes below a target -/

namespace Files

variable {fs fs₁ fs' : Files} {log : Option Place} {target : Path}

/-- Whether all that has changed in the files lies at the place of a target or below it, but for
directories on the way there, where nothing stood, and what was added to the log. -/
def Confined (fs : Files) (log : Option Place) (target : Path) (fs' : Files) : Prop :=
  ∀ q, Logged log q (fs.node? q) (fs'.node? q) ∨
    (fs.node? q = none ∧ fs'.node? q = some .directory ∧ target.Passes q) ∨ target.place <+: q

namespace Confined

theorem trans (h₁ : fs.Confined log target fs₁) (h₂ : fs₁.Confined log target fs') :
    fs.Confined log target fs' := by
  intro q
  rcases h₂ q with hlogged | ⟨hnone, hmade, hway⟩ | hbelow
  · rcases h₁ q with hlogged₁ | ⟨hnone₁, hmade₁, hway⟩ | hbelow
    · exact .inl (hlogged₁.trans hlogged)
    · exact .inr (.inl ⟨hnone₁, hlogged.directory_iff.2 hmade₁, hway⟩)
    · exact .inr (.inr hbelow)
  · rcases h₁ q with hlogged₁ | ⟨-, hmade₁, -⟩ | hbelow
    · rw [hnone] at hlogged₁
      exact .inr (.inl ⟨hlogged₁.eq_none, hmade, hway⟩)
    · rw [hnone] at hmade₁
      cases hmade₁
    · exact .inr (.inr hbelow)
  · exact .inr (.inr hbelow)

theorem of_logs (h : fs.Logs log fs') (target : Path) : fs.Confined log target fs' := fun q =>
  .inl (h.node q)

theorem of_grows {way : Place → Prop} (h : fs.Grows fs' way)
    (hway : ∀ q, way q → target.Passes q ∨ target.place <+: q) (log : Option Place) :
    fs.Confined log target fs' := by
  intro q
  rcases h.node q with hsame | ⟨hnone, hmade, hq⟩
  · rw [hsame]
    exact .inl (.same _)
  · exact .inr ((hway q hq).imp_left fun hpasses => ⟨hnone, hmade, hpasses⟩)

theorem of_set {at_ : Place} (h : target.place <+: at_) (fs : Files) (log : Option Place)
    (node : Node) : fs.Confined log target (fs.set at_ node) := by
  intro q
  rw [node?_set]
  split
  · next hq => exact .inr (.inr (hq ▸ h))
  · exact .inl (.same _)

end Confined

end Files

/-! ## Writing -/

namespace Export.Writer

variable {w w' : Writer} {fs fs' : Files} {name text : String} {target file : Path}
  {extension : Loose} {result : Except ExportError String}

/-- Whether a writer puts classes below a directory. -/
structure Fills (w : Writer) (target : Path) (extension : Loose) : Prop where
  format : w.format = .directory
  target : w.target = target
  extension : w.extension = extension

theorem confined_writeFile (hplace : target.place <+: file.place)
    (hpasses : ∀ q, file.Passes q → target.Passes q ∨ target.place <+: q) {data : ByteArray}
    {outcome : Option FileError} (h : writeFile fs file data = (fs', outcome))
    (log : Option Place) : fs.Confined log target fs' := by
  have hgrows := Files.grows_makeDirectories fs file.parent
  have hmakes : fs.Confined log target (fs.makeDirectories file.parent).1 :=
    .of_grows hgrows (fun q hq => hpasses q (Path.passes_of_parent hq)) log
  cases makes_of_writeFile h with
  | unmade => exact hmakes
  | made hmade hreplace | broken hmade hreplace =>
    rw [hmade] at hmakes
    obtain ⟨-, -, -, executable, rfl⟩ := Files.replace_eq_set hreplace
    exact hmakes.trans (.of_set hplace _ log _)

/-- A class that is written, or fails to be, leaves what is outside the target alone. -/
theorem Fills.write (hw : w.Fills target extension) (hstays : Stays extension)
    (h : w.write fs name text = (fs', w', result)) (log : Option Place) :
    fs.Confined log target fs' ∧ w'.Fills target extension := by
  obtain ⟨hformat, rfl, rfl⟩ := hw
  cases writes_of_write h with
  | refused => exact ⟨.of_logs (.refl _ _) _, hformat, rfl, rfl⟩
  | made _ hentry _ hfile | unmade _ hentry _ hfile =>
    obtain ⟨hplace, hpasses⟩ := passes_append hstays hentry w.target
    exact ⟨confined_writeFile hplace hpasses hfile log, hformat, rfl, rfl⟩
  | kept hother | torn hother | unkept hother | late hother => cases hformat.symm.trans hother

/-- Making the target puts directories on the way to it. -/
theorem Fills.openTarget (hw : w.Fills target extension) (fs : Files) (log : Option Place) :
    fs.Confined log target (w.openTarget fs).1 := by
  obtain ⟨hformat, rfl, -⟩ := hw
  exact .of_grows (grows_openTarget hformat fs) (fun q => .inl) log

end Export.Writer

end ClassBrowser
