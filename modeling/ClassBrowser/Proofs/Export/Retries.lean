import ClassBrowser.Proofs.Export.Writing

/-!
# Writing a class again

A writer for a directory notes the name of a class before it makes its file, and does not forget it
when the file cannot be made.  So a name is refused once it was tried (`Writer.after_write`), be it
that a class was written under it or that nothing was; this is the rule "refused once written"
exactly as long as the first attempt at the name comes off.  Names that were not tried are not
affected by what came of the others.
-/

namespace ClassBrowser.Export.Writer

/-- A class that is given to a writer, and the files as the writer finds them then. -/
structure Attempt where
  files : Files
  name : String
  text : String

/-- A writer that was given some classes, one after the other, whatever happened to the files in
between. -/
def after (w : Writer) : List Attempt → Writer
  | [] => w
  | a :: rest => (w.write a.files a.name a.text).2.1.after rest

/-- The names that a writer is given, each with what comes of it. -/
def outcomes (w : Writer) : List Attempt → List (String × Except ExportError String)
  | [] => []
  | a :: rest =>
    (a.name, (w.write a.files a.name a.text).2.2) ::
      (w.write a.files a.name a.text).2.1.outcomes rest

/-- Whether a writer has the target of another, a directory, and has noted those of the names that
it was given since for which there is a path. -/
structure Notes (w₀ w : Writer) (given : List String) : Prop where
  format : w.format = .directory
  target : w.target = w₀.target
  delimiter : w.delimiter = w₀.delimiter
  extension : w.extension = w₀.extension
  claimed : ∀ name entry, entryPath w₀.delimiter w₀.extension name = .ok entry →
    (name ∈ w.claimed ↔ name ∈ w₀.claimed ∨ name ∈ given)

variable {w₀ w : Writer} {before made fs : Files} {given : List String} {name text : String}
  {target entry : Path} {delimiter extension : Text.Loose} {attempts : List Attempt}

/-! ## One class -/

/-- A name that was noted is refused, and nothing changes. -/
theorem write_of_claimed (hw : w.format = .directory)
    (hentry : entryPath w.delimiter w.extension name = .ok entry) (hclaimed : name ∈ w.claimed)
    (fs : Files) (text : String) : w.write fs name text = (fs, w, .error (.duplicate entry)) :=
  (Refuses.claimed (.inl hw) hentry hclaimed).eq_write fs text

/-- A name that has no path is refused, and is not noted. -/
theorem write_of_entryError {e : EntryError} (hw : w.format = .directory)
    (hentry : entryPath w.delimiter w.extension name = .error e) (fs : Files) (text : String) :
    w.write fs name text = (fs, w, .error (.entry e)) :=
  (Refuses.noPath (.inl hw) hentry).eq_write fs text

theorem answerOf_ne_duplicate (file entry : Path) (outcome : Option FileError) :
    answerOf file outcome ≠ .error (.duplicate entry) := by
  rcases outcome with _ | (_ | _ | _) <;> simp [answerOf, writeFault]

/-! ## One class after the other -/

theorem map_fst_outcomes (w : Writer) (attempts : List Attempt) :
    (w.outcomes attempts).map Prod.fst = attempts.map Attempt.name := by
  induction attempts generalizing w with
  | nil => rfl
  | cons a rest ih => simp [outcomes, ih]

/-- There is a first attempt at a name exactly if the name was tried. -/
theorem isSome_find?_outcomes (w : Writer) (attempts : List Attempt) (name : String) :
    ((w.outcomes attempts).find? (·.1 == name)).isSome ↔ name ∈ attempts.map Attempt.name := by
  rw [← w.map_fst_outcomes]
  simp

namespace Notes

theorem refl (hw : w.format = .directory) : w.Notes w [] :=
  ⟨hw, rfl, rfl, rfl, by simp⟩

/-- Whatever comes of a class, its name is noted if it has a path. -/
theorem write (h : w₀.Notes w given) (fs : Files) (name text : String) :
    w₀.Notes (w.write fs name text).2.1 (given ++ [name]) := by
  have hpath : entryPath w.delimiter w.extension name =
      entryPath w₀.delimiter w₀.extension name := by rw [h.delimiter, h.extension]
  cases hentry : entryPath w₀.delimiter w₀.extension name with
  | error e =>
    rw [write_of_entryError h.format (hpath.trans hentry)]
    refine { h with claimed := ?_ }
    intro other path hother
    have hne : other ≠ name := by
      rintro rfl
      simp [hother] at hentry
    simp [h.claimed other path hother, hne]
  | ok entry =>
    by_cases hclaimed : name ∈ w.claimed
    · rw [write_of_claimed h.format (hpath.trans hentry) hclaimed]
      refine { h with claimed := ?_ }
      intro other path hother
      have hname : other = name → other ∈ w₀.claimed ∨ other ∈ given := by
        rintro rfl
        exact (h.claimed other path hother).1 hclaimed
      simp only [h.claimed other path hother, List.mem_append, List.mem_singleton]
      tauto
    · rw [write_of_not_claimed h.format (hpath.trans hentry) hclaimed]
      refine ⟨h.format, h.target, h.delimiter, h.extension, ?_⟩
      intro other path hother
      simp only [List.mem_cons, h.claimed other path hother, List.mem_append, List.mem_nil_iff]
      tauto

theorem after (h : w₀.Notes w given) (attempts : List Attempt) :
    w₀.Notes (w.after attempts) (given ++ attempts.map Attempt.name) := by
  induction attempts generalizing w given with
  | nil => simpa [Writer.after] using h
  | cons a rest ih =>
    rw [List.map_cons, List.append_cons]
    exact ih (h.write a.files a.name a.text)

/-- Nothing more is written under a name that was noted. -/
theorem not_written (h : w₀.Notes w given)
    (hentry : entryPath w₀.delimiter w₀.extension name = .ok entry) (hclaimed : name ∈ w.claimed)
    (shown : String) (attempts : List Attempt) : (name, .ok shown) ∉ w.outcomes attempts := by
  induction attempts generalizing w given with
  | nil => exact List.not_mem_nil
  | cons a rest ih =>
    rw [outcomes, List.mem_cons, not_or]
    have hnext := h.write a.files a.name a.text
    refine ⟨?_, ih hnext ?_⟩
    · intro hhead
      obtain ⟨rfl, hok⟩ := Prod.mk.inj hhead
      rw [write_of_claimed h.format (by rw [h.delimiter, h.extension, hentry]) hclaimed] at hok
      simp at hok
    · rw [hnext.claimed name entry hentry, List.mem_append, ← or_assoc,
        ← h.claimed name entry hentry]
      exact .inl hclaimed

/-- Something was written under a name exactly if the first attempt at it came off. -/
theorem written_iff (h : w₀.Notes w given)
    (hentry : entryPath w₀.delimiter w₀.extension name = .ok entry) (hnew : name ∉ w.claimed)
    (attempts : List Attempt) :
    (∃ shown, (name, .ok shown) ∈ w.outcomes attempts) ↔
      ∃ first ∈ (w.outcomes attempts).find? (·.1 == name), first.2.isOk := by
  induction attempts generalizing w given with
  | nil => simp [outcomes]
  | cons a rest ih =>
    have hnext := h.write a.files a.name a.text
    have hclaimed := hnext.claimed name entry hentry
    rw [List.mem_append, List.mem_singleton, ← or_assoc, ← h.claimed name entry hentry,
      or_iff_right hnew] at hclaimed
    by_cases hname : name = a.name
    · have hrest := hnext.not_written hentry (hclaimed.2 hname)
      have hfirst : (w.outcomes (a :: rest)).find? (·.1 == name) =
          some (a.name, (w.write a.files a.name a.text).2.2) := by
        rw [outcomes, List.find?_cons_of_pos (by simp [hname])]
      rw [hfirst]
      simp only [outcomes, List.mem_cons, hrest, or_false, Prod.mk.injEq]
      cases (w.write a.files a.name a.text).2.2 <;> simp [hname, Except.isOk, Except.toBool]
    · have hfirst : (w.outcomes (a :: rest)).find? (·.1 == name) =
          ((w.write a.files a.name a.text).2.1.outcomes rest).find? (·.1 == name) := by
        rw [outcomes, List.find?_cons_of_neg (by simpa using Ne.symm hname)]
      rw [hfirst]
      simp only [outcomes, List.mem_cons, Prod.mk.injEq, hname, false_and, false_or]
      exact ih hnext (fun hmem => hname (hclaimed.1 hmem))

/-- A name that was tried is refused. -/
theorem write_of_tried (h : w₀.Notes w given)
    (hentry : entryPath w₀.delimiter w₀.extension name = .ok entry) (htried : name ∈ given)
    (fs : Files) (text : String) : w.write fs name text = (fs, w, .error (.duplicate entry)) :=
  write_of_claimed h.format (by rw [h.delimiter, h.extension, hentry])
    ((h.claimed name entry hentry).2 (.inr htried)) fs text

/-- A name that was not tried is treated as if nothing had been. -/
theorem write_of_not_tried (h : w₀.Notes w given) (hw₀ : w₀.format = .directory)
    (hentry : entryPath w₀.delimiter w₀.extension name = .ok entry) (hnone : w₀.claimed = [])
    (hnew : name ∉ given) (fs : Files) (text : String) :
    (w.write fs name text).1 = (w₀.write fs name text).1 ∧
      (w.write fs name text).2.2 = (w₀.write fs name text).2.2 ∧
      (w₀.write fs name text).2.2 ≠ .error (.duplicate entry) := by
  have hclaimed : name ∉ w.claimed := by
    simp [h.claimed name entry hentry, hnone, hnew]
  rw [write_of_not_claimed h.format (by rw [h.delimiter, h.extension, hentry]) hclaimed,
    write_of_not_claimed hw₀ hentry (by simp [hnone]), h.target]
  exact ⟨rfl, rfl, answerOf_ne_duplicate _ _ _⟩

end Notes

/-- A writer with an open directory refuses a name as a duplicate exactly if it was tried before,
and answers to any other as if it had been given nothing.  So refused are the names under which
something was written, where the first attempt at the name came off, and else not. -/
theorem write_after
    (hopen : (forDirectory target delimiter extension).openTarget before = (made, .ok w))
    (hentry : entryPath delimiter extension name = .ok entry) (attempts : List Attempt)
    (fs : Files) (text : String) :
    (name ∈ attempts.map Attempt.name → (w.after attempts).write fs name text =
      (fs, w.after attempts, .error (.duplicate entry))) ∧
    (name ∉ attempts.map Attempt.name →
      ((w.after attempts).write fs name text).1 = (w.write fs name text).1 ∧
      ((w.after attempts).write fs name text).2.2 = (w.write fs name text).2.2 ∧
      (w.write fs name text).2.2 ≠ .error (.duplicate entry)) ∧
    ((((w.after attempts).write fs name text).2.2 = .error (.duplicate entry) ↔
        ∃ shown, (name, .ok shown) ∈ w.outcomes attempts) ↔
      ∀ first ∈ (w.outcomes attempts).find? (·.1 == name), first.2.isOk) := by
  obtain rfl := openTarget_directory rfl hopen
  have hnotes : Notes (forDirectory target delimiter extension)
      ((forDirectory target delimiter extension).after attempts) (attempts.map Attempt.name) := by
    simpa using (Notes.refl rfl).after attempts
  have htried : name ∈ attempts.map Attempt.name → _ := hnotes.write_of_tried hentry
  have huntried : name ∉ attempts.map Attempt.name → _ := hnotes.write_of_not_tried rfl hentry rfl
  have hfirst := isSome_find?_outcomes (forDirectory target delimiter extension) attempts name
  have hwritten := (Notes.refl rfl).written_iff
    (w := forDirectory target delimiter extension) hentry List.not_mem_nil attempts
  refine ⟨fun hname => htried hname fs text, fun hname => huntried hname fs text, ?_⟩
  rw [hwritten]
  by_cases hname : name ∈ attempts.map Attempt.name
  · obtain ⟨first, hfind⟩ := Option.isSome_iff_exists.1 (hfirst.2 hname)
    simp [htried hname, hfind]
  · obtain ⟨-, hsame, hne⟩ := huntried hname fs text
    have hfind := Option.not_isSome_iff_eq_none.1 fun h => hname (hfirst.1 h)
    simp only [hfind, hsame, hne]
    simp

namespace Sample

def folder : Path := ⟨.relative, ["out"]⟩

def classFile : Path := ⟨.relative, ["a", "B.java"]⟩

/-- What is left after the folder was made. -/
def opened : Files := (Files.empty.makeDirectories folder).1

/-- A file that stands where the directory of a class should be. -/
def obstacle : Path := ⟨.relative, ["out", "a"]⟩

def blocked : Files := opened.set obstacle.place (.file (.bytes .empty) false)

end Sample

/-- A class is refused as a duplicate although nothing was written under its name. -/
theorem write_after_failure :
    ∃ w, (forDirectory Sample.folder "/" ".java").openTarget Files.empty =
        (Sample.opened, .ok w) ∧
      entryPath "/" ".java" "a/B" = .ok Sample.classFile ∧
      ((w.after [⟨Sample.blocked, "a/B", "b"⟩]).write Sample.opened "a/B" "b").2.2 =
        .error (.duplicate Sample.classFile) ∧
      ¬ ∃ shown, ("a/B", .ok shown) ∈ w.outcomes [⟨Sample.blocked, "a/B", "b"⟩] := by
  have hopen : (forDirectory Sample.folder "/" ".java").openTarget Files.empty =
      (Sample.opened, .ok (forDirectory Sample.folder "/" ".java")) := by rfl
  have hentry : entryPath "/" ".java" "a/B" = .ok Sample.classFile := by decide +kernel
  obtain ⟨hrefused, -, hlaw⟩ := write_after hopen hentry [⟨Sample.blocked, "a/B", "b"⟩]
    Sample.opened "b"
  have hanswer := congrArg (·.2.2) (hrefused (by simp))
  refine ⟨_, hopen, hentry, hanswer, fun hwritten => ?_⟩
  have hfirst := hlaw.1 (iff_of_true hanswer hwritten) _ rfl
  revert hfirst
  decide +kernel

/-- A class that could not be written is refused when nothing is in the way any more, though another
writer would write it. -/
theorem exists_retry_refused :
    ∃ w fs, (forDirectory Sample.folder "/" ".java").openTarget Files.empty = (fs, .ok w) ∧
      (w.write Sample.blocked "a/B" "b").2.2 =
        .error (.cannotWrite (Sample.folder.append Sample.classFile) .exists Sample.obstacle) ∧
      ((w.write Sample.blocked "a/B" "b").2.1.write fs "a/B" "b").2.2 =
        .error (.duplicate Sample.classFile) ∧
      (w.write fs "a/B" "b").2.2 = .ok "out/a/B.java" := by
  refine ⟨forDirectory Sample.folder "/" ".java", Sample.opened, rfl, ?_, ?_, ?_⟩
  · decide +kernel
  · decide +kernel
  · decide +kernel

end ClassBrowser.Export.Writer
