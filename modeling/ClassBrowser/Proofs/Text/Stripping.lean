import ClassBrowser.Text.Blank
import Mathlib.Data.List.DropRight

/-!
# Scanning and stripping

A text of characters with a property that is followed by one without it is cut between the two
(`takeWhile_append_of_head`, `dropWhile_append_of_head`).

A stripped text neither begins nor ends with a blank (`head?_stripChars`, `getLast?_stripChars`).
-/

namespace ClassBrowser.Text

variable {p : Char → Bool} {cs run after : List Char}

/-! ## Scanning -/

theorem head?_dropWhile (p : Char → Bool) (cs : List Char) :
    ∀ c ∈ (cs.dropWhile p).head?, p c = false := by
  intro c hc
  have hnot := List.head?_dropWhile_not p cs
  rwa [Option.mem_def.1 hc] at hnot

theorem dropWhile_of_head (h : ∀ c ∈ cs.head?, p c = false) : cs.dropWhile p = cs := by
  cases cs with
  | nil => rfl
  | cons c cs => exact List.dropWhile_cons_of_neg (by simp [h c rfl])

theorem takeWhile_of_head (h : ∀ c ∈ cs.head?, p c = false) : cs.takeWhile p = [] := by
  cases cs with
  | nil => rfl
  | cons c cs => exact List.takeWhile_cons_of_neg (by simp [h c rfl])

/-- Scanning takes what has the property and stops behind it. -/
theorem takeWhile_append_of_head (hrun : ∀ c ∈ run, p c = true)
    (hafter : ∀ c ∈ after.head?, p c = false) : (run ++ after).takeWhile p = run := by
  rw [List.takeWhile_append_of_pos hrun, takeWhile_of_head hafter, List.append_nil]

theorem dropWhile_append_of_head (hrun : ∀ c ∈ run, p c = true)
    (hafter : ∀ c ∈ after.head?, p c = false) : (run ++ after).dropWhile p = after := by
  rw [List.dropWhile_append_of_pos hrun, dropWhile_of_head hafter]

/-! ## Stripping -/

theorem stripChars_subset (cs : List Char) : stripChars cs ⊆ cs := by
  intro c hc
  have hrest : c ∈ cs.dropWhile isBlank := (List.rdropWhile_prefix isBlank _).subset hc
  exact (List.dropWhile_suffix isBlank).subset hrest

/-- A stripped text does not begin with a blank. -/
theorem head?_stripChars (cs : List Char) : ∀ c ∈ (stripChars cs).head?, isBlank c = false := by
  intro c hc
  refine head?_dropWhile isBlank cs c ?_
  obtain ⟨rest, hrest⟩ : stripChars cs <+: cs.dropWhile isBlank := List.rdropWhile_prefix isBlank _
  rw [← hrest, List.head?_append, Option.mem_def.1 hc]
  rfl

/-- A stripped text does not end with a blank. -/
theorem getLast?_stripChars (cs : List Char) :
    ∀ c ∈ (stripChars cs).getLast?, isBlank c = false := by
  intro c hc
  rw [stripChars, dropEndWhile, List.getLast?_reverse] at hc
  exact head?_dropWhile isBlank _ c hc

/-- Of a text that does not end with a blank only the first blanks are removed. -/
theorem stripChars_of_getLast (h : ∀ c ∈ cs.getLast?, isBlank c = false) :
    stripChars cs = cs.dropWhile isBlank := by
  rw [stripChars, dropEndWhile]
  have hlast : ∀ c ∈ (cs.dropWhile isBlank).reverse.head?, isBlank c = false := by
    intro c hc
    rw [List.head?_reverse] at hc
    obtain ⟨front, hfront⟩ := List.dropWhile_suffix (l := cs) isBlank
    refine h c ?_
    rw [← hfront, List.getLast?_append, Option.mem_def.1 hc]
    rfl
  rw [dropWhile_of_head hlast, List.reverse_reverse]

end ClassBrowser.Text
