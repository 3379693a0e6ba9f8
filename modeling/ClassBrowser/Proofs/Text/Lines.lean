import ClassBrowser.Text.Lines
import Mathlib.Data.List.Basic

/-!
# The lines of a text

What it means that some texts are the lines of another one (`AreLines`): none has a boundary inside,
and between two neighbours there is one boundary, a carriage return counting together with the line
feed behind it.  A text has lines, and no others than `lines` gives (`areLines_iff`).
-/

namespace ClassBrowser.Text

variable {c : Char} {line mark rest cs : List Char} {ls : List (List Char)}

/-- Whether characters end a line, in front of what follows them. -/
inductive EndsLine : (mark rest : List Char) → Prop
  | pair (rest : List Char) : EndsLine ['\r', '\n'] rest
  | single {c : Char} {rest : List Char} (hc : isLineBoundary c = true)
      (hpair : c = '\r' → rest.head? ≠ some '\n') : EndsLine [c] rest

/-- Whether a line has no boundary inside. -/
def IsUnbroken (line : List Char) : Prop := ∀ c ∈ line, isLineBoundary c = false

/-- Whether some texts are the lines of a text; there is no empty line behind the last boundary. -/
inductive AreLines : List Char → List (List Char) → Prop
  | nil : AreLines [] []
  | last {line : List Char} (hline : IsUnbroken line) (hne : line ≠ []) : AreLines line [line]
  | cons {line mark rest : List Char} {ls : List (List Char)} (hline : IsUnbroken line)
      (hmark : EndsLine mark rest) (hrest : AreLines rest ls) :
      AreLines (line ++ mark ++ rest) (line :: ls)

theorem areLines_linesFrom (line cs : List Char) (hline : IsUnbroken line) :
    AreLines (line.reverse ++ cs) (linesFrom line cs) := by
  have hreverse : ∀ {l : List Char}, IsUnbroken l → IsUnbroken l.reverse :=
    fun hl c hc => hl c (List.mem_reverse.1 hc)
  have hempty : IsUnbroken [] := List.forall_mem_nil _
  fun_induction linesFrom line cs with
  | case1 line h =>
    rw [List.isEmpty_iff.1 h]
    exact .nil
  | case2 line h =>
    rw [List.append_nil]
    exact .last (hreverse hline) (by simpa using h)
  | case3 line rest ih =>
    have hrest : AreLines rest (linesFrom [] rest) := by simpa using ih hempty
    simpa using AreLines.cons (hreverse hline) (.pair rest) hrest
  | case4 line c rest hpair hc ih =>
    have hrest : AreLines rest (linesFrom [] rest) := by simpa using ih hempty
    have hmark : EndsLine [c] rest := by
      refine .single hc fun hcr hhead => ?_
      obtain ⟨rest', rfl⟩ := List.head?_eq_some_iff.1 hhead
      exact hpair rest' hcr rfl
    simpa using AreLines.cons (hreverse hline) hmark hrest
  | case5 line c rest hpair hc ih =>
    have hlonger : IsUnbroken (c :: line) := List.forall_mem_cons.2 ⟨by simpa using hc, hline⟩
    simpa using ih hlonger

/-- A boundary is none of the characters of a line. -/
theorem linesFrom_append (before : List Char) (hline : IsUnbroken line) (cs : List Char) :
    linesFrom before (line ++ cs) = linesFrom (line.reverse ++ before) cs := by
  induction line generalizing before with
  | nil => rfl
  | cons c line ih =>
    obtain ⟨hc, hline⟩ := List.forall_mem_cons.1 hline
    have hcr : c ≠ '\r' := by
      rintro rfl
      exact absurd hc (by decide)
    have hstep : linesFrom before (c :: (line ++ cs)) = linesFrom (c :: before) (line ++ cs) := by
      rw [linesFrom.eq_3 _ _ _ (fun rest h _ => hcr h), hc]
      rfl
    rw [List.cons_append, hstep, ih (c :: before) hline]
    simp

theorem linesFrom_of_endsLine (hmark : EndsLine mark rest) (line : List Char) :
    linesFrom line (mark ++ rest) = line.reverse :: linesFrom [] rest := by
  cases hmark with
  | pair => rfl
  | @single c _ hc hpair =>
    rw [List.singleton_append, linesFrom.eq_3 _ _ _ ?_, hc]
    · rfl
    · rintro rest' hcr rfl
      exact hpair hcr rfl

/-- A text has just the lines that are found. -/
theorem areLines_iff : AreLines cs ls ↔ ls = linesFrom [] cs := by
  constructor
  · intro h
    induction h with
    | nil => rfl
    | @last line hline hne =>
      have h := linesFrom_append [] hline []
      rw [List.append_nil, List.append_nil] at h
      rw [h, linesFrom, if_neg (by simpa using hne), List.reverse_reverse]
    | @cons line mark rest ls hline hmark _ ih =>
      symm
      calc
        linesFrom [] (line ++ mark ++ rest) = linesFrom (line.reverse ++ []) (mark ++ rest) := by
          rw [List.append_assoc, linesFrom_append [] hline]
        _ = line.reverse.reverse :: linesFrom [] rest := by
          rw [List.append_nil, linesFrom_of_endsLine hmark]
        _ = line :: ls := by rw [List.reverse_reverse, ih]
  · rintro rfl
    exact areLines_linesFrom [] cs (List.forall_mem_nil _)

theorem areLines_lines (s : String) : AreLines s.toList ((lines s).map String.toList) := by
  rw [areLines_iff, lines, List.map_map]
  simp [Function.comp_def]

theorem AreLines.eq_lines {s : String} {out : List String}
    (h : AreLines s.toList (out.map String.toList)) : out = lines s := by
  have hmap := (areLines_iff.1 h).trans (areLines_iff.1 (areLines_lines s)).symm
  exact List.map_injective_iff.2 (fun _ _ => String.toList_injective) hmap

end ClassBrowser.Text
