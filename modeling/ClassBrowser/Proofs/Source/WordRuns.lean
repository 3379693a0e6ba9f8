import ClassBrowser.Proofs.Source.Tokenisation
import ClassBrowser.Proofs.Text.Stripping
import ClassBrowser.Source.Keyword

/-!
# Maximal runs of word characters

`IsWordRun` says what a maximal run is by the text around it, and `mem_wordRuns_iff` that the
scanner finds exactly those, in order (`pairwise_wordRunsFrom`).

A run never crosses the boundary of a region (`IsWordRun.stop_le`): whatever opens a region is no
word character, and neither is whatever closes one, so on one side of a boundary the run would have
to end.
-/

namespace ClassBrowser.Source

/-- A maximal run of word characters of a text that begins at a position. -/
def IsWordRun (text : List Char) (start : Nat) (run : List Char) : Prop :=
  ∃ before after, text = before ++ run ++ after ∧ before.length = start ∧ run ≠ [] ∧
    (∀ c ∈ run, Text.isWord c = true) ∧
    (∀ c ∈ before.getLast?, Text.isWord c = false) ∧ (∀ c ∈ after.head?, Text.isWord c = false)

namespace IsWordRun

variable {text run : List Char} {i j : Nat} {c : Char}

theorem length_pos (h : IsWordRun text i run) : 0 < run.length := by
  obtain ⟨-, -, -, -, hne, -⟩ := h
  exact List.length_pos_iff.2 hne

theorem stop_le_length (h : IsWordRun text i run) : i + run.length ≤ text.length := by
  obtain ⟨before, after, rfl, rfl, -⟩ := h
  simp

theorem isWord (h : IsWordRun text i run) (h₁ : i ≤ j) (h₂ : j < i + run.length)
    (hc : text[j]? = some c) : Text.isWord c = true := by
  obtain ⟨before, after, rfl, rfl, -, hword, -⟩ := h
  rw [List.append_assoc, List.getElem?_append_right h₁, List.getElem?_append_left (by omega)] at hc
  exact hword c (List.mem_of_getElem? hc)

theorem not_isWord_before (h : IsWordRun text i run) (hj : j + 1 = i) (hc : text[j]? = some c) :
    Text.isWord c = false := by
  obtain ⟨before, after, rfl, hlen, -, -, hbefore, -⟩ := h
  rw [List.append_assoc, List.getElem?_append_left (by omega)] at hc
  refine hbefore c ?_
  rw [List.getLast?_eq_getElem?, show before.length - 1 = j by omega]
  exact hc

end IsWordRun

theorem IsWordRun.eq_takeWhile {text run : List Char} {i : Nat} (h : IsWordRun text i run) :
    run = (text.drop i).takeWhile Text.isWord := by
  obtain ⟨before, after, rfl, rfl, -, hword, -, hafter⟩ := h
  rw [List.append_assoc, List.drop_left, Text.takeWhile_append_of_head hword hafter]

/-! ## The scanner -/

/-- Between `before` and `cs` no run goes on. -/
def Breaks (before cs : List Char) : Prop :=
  (∀ c ∈ before.getLast?, Text.isWord c = false) ∨ (∀ c ∈ cs.head?, Text.isWord c = false)

/-- From a position on where no run goes on, the scanner finds the runs that begin there or
later. -/
theorem mem_wordRunsFrom_iff {text before cs : List Char} {start : Nat}
    (htext : text = before ++ cs) (hstart : before.length = start) (hbreaks : Breaks before cs)
    (i : Nat) (run : List Char) :
    (i, run) ∈ wordRunsFrom start cs ↔ IsWordRun text i run ∧ start ≤ i := by
  fun_induction wordRunsFrom start cs generalizing before with
  | case1 start =>
    have hlen := congrArg List.length htext
    simp only [List.append_nil] at hlen
    simp only [List.not_mem_nil, false_iff, not_and, Nat.not_le]
    intro h
    have := h.stop_le_length
    have := h.length_pos
    omega
  | case2 start c rest hc first =>
    rename_i ih
    have hsplit : c :: rest = first ++ rest.dropWhile Text.isWord :=
      congrArg (c :: ·) List.takeWhile_append_dropWhile.symm
    have hafter := Text.head?_dropWhile Text.isWord rest
    have hfirst : IsWordRun text start first := by
      refine ⟨before, rest.dropWhile Text.isWord, ?_, hstart, List.cons_ne_nil _ _, ?_, ?_, hafter⟩
      · rw [htext, hsplit, List.append_assoc]
      · intro d hd
        rcases List.mem_cons.1 hd with rfl | hd
        · exact hc
        · exact List.all_eq_true.1 List.all_takeWhile d hd
      · exact hbreaks.resolve_right fun hno => by simp [hno c rfl] at hc
    have hlater := @ih (before ++ first) (by rw [htext, hsplit, List.append_assoc])
      (by rw [List.length_append, hstart]) (.inr hafter)
    rw [List.mem_cons, hlater]
    constructor
    · rintro (heq | ⟨h, hle⟩)
      · obtain ⟨rfl, rfl⟩ := Prod.mk.inj heq
        exact ⟨hfirst, le_rfl⟩
      · exact ⟨h, by omega⟩
    · rintro ⟨h, hle⟩
      rcases hle.eq_or_lt with rfl | hlt
      · exact .inl (by rw [h.eq_takeWhile, hfirst.eq_takeWhile])
      · refine .inr ⟨h, Nat.le_of_not_lt ?_⟩
        intro hin
        -- the character before a later run would belong to the first one
        have hpos := h.length_pos
        have hend := h.stop_le_length
        have hd : text[i - 1]? = some text[i - 1] := List.getElem?_eq_getElem (by omega)
        have hword := hfirst.isWord (by omega) (by omega) hd
        rw [h.not_isWord_before (by omega) hd] at hword
        cases hword
  | case3 start c rest hc ih =>
    have hlater := @ih (before ++ [c]) (by rw [htext, List.append_assoc]; rfl)
      (by rw [List.length_append, hstart]; rfl) (.inl (by simpa using hc))
    rw [hlater]
    refine and_congr_right fun h => ⟨fun hle => by omega, ?_⟩
    intro hle
    apply Nat.lt_of_le_of_ne hle
    intro heq
    refine hc (h.isWord heq.ge ?_ ?_)
    · have := h.length_pos
      omega
    · rw [htext, ← hstart]
      simp

/-- The scanner finds exactly the maximal runs. -/
theorem mem_wordRuns_iff (text : List Char) (i : Nat) (run : List Char) :
    (i, run) ∈ wordRuns text ↔ IsWordRun text i run := by
  have hall := mem_wordRunsFrom_iff (List.nil_append text).symm List.length_nil (.inl nofun) i run
  simpa [wordRuns] using hall

/-- The runs come in the order of the text and do not overlap. -/
theorem pairwise_wordRunsFrom (start : Nat) (cs : List Char) :
    (∀ r ∈ wordRunsFrom start cs, start ≤ r.1) ∧
      (wordRunsFrom start cs).Pairwise fun r s => r.1 + r.2.length ≤ s.1 := by
  fun_induction wordRunsFrom start cs with
  | case1 => simp
  | case2 start c rest hc first =>
    rename_i ih
    obtain ⟨hle, hpair⟩ := ih
    refine ⟨List.forall_mem_cons.2 ⟨le_rfl, ?_⟩, List.pairwise_cons.2 ⟨hle, hpair⟩⟩
    intro r hr
    have := hle r hr
    omega
  | case3 start c rest hc ih =>
    obtain ⟨hle, hpair⟩ := ih
    refine ⟨?_, hpair⟩
    intro r hr
    have := hle r hr
    omega

/-! ## Runs and regions -/

theorem not_isWord_of_isQuote {c : Char} (h : isQuote c = true) : Text.isWord c = false := by
  rcases (by simpa [isQuote] using h : c = '\x22' ∨ c = '\x27') with rfl | rfl <;> decide

/-- What opens a string or a comment is no word character. -/
theorem Opens.not_isWord {cs : List Char} (h : Opens cs) :
    ∃ c, cs.head? = some c ∧ Text.isWord c = false := by
  rcases h with ⟨q, hq, r, rfl⟩ | ⟨r, rfl⟩ | ⟨r, rfl⟩
  · exact ⟨q, rfl, not_isWord_of_isQuote hq⟩
  · exact ⟨'/', rfl, by decide⟩
  · exact ⟨'/', rfl, by decide⟩

/-- What closes a string or a comment is no word character. -/
theorem IsToken.not_isWord_last {kind : Kind} {t after : List Char} (h : IsToken kind t after)
    (hk : kind ≠ .default) (hne : after ≠ []) :
    ∃ c, t.getLast? = some c ∧ Text.isWord c = false := by
  cases kind with
  | string =>
    obtain ⟨q, hq, -, -, hend⟩ := id h
    exact ⟨q, (hend hne).2, not_isWord_of_isQuote hq⟩
  | lineComment => exact ⟨'\n', h.2.2 hne, by decide⟩
  | blockComment =>
    obtain ⟨-, r, rfl⟩ := h.2.2 hne
    exact ⟨'/', by simp, by decide⟩
  | default => exact absurd rfl hk
  | keyword => exact absurd h id

/-- A span of a tokenisation behind which the text goes on has no word character at its end or none
behind it. -/
theorem Tokenises.breaks {text : List Char} {start : Nat} {spans : List Span}
    (h : Tokenises text start spans) {s : Span} (hs : s ∈ spans) (hend : s.stop < text.length) :
    ∃ j c, (j + 1 = s.stop ∨ j = s.stop) ∧ text[j]? = some c ∧ Text.isWord c = false := by
  have hne : text.drop s.stop ≠ [] := by simpa using hend
  by_cases hk : s.kind = .default
  · obtain ⟨c, hc, hno⟩ := (h.opens_behind hs hk hne).not_isWord
    exact ⟨s.stop, c, .inr rfl, by rwa [List.head?_drop] at hc, hno⟩
  · obtain ⟨c, hc, hno⟩ := (h.tokens s hs).not_isWord_last hk hne
    have hpos := List.length_pos_iff.2 (h.covers.nonempty s hs)
    have htext := (text_eq_extract_iff text s).1 (h.covers.text_eq s hs)
    refine ⟨s.stop - 1, c, .inl ?_, ?_, hno⟩
    · simp only [Span.stop]
      omega
    · have hlast : (text.drop s.start)[s.text.length - 1]? = some c := by
        rw [htext, List.getElem?_append_left (by omega), ← List.getLast?_eq_getElem?, hc]
      rw [List.getElem?_drop] at hlast
      rw [← hlast, Span.stop]
      congr 1
      omega

/-- A run that begins before the end of a region goes no further than that region. -/
theorem IsWordRun.stop_le {text run : List Char} {i : Nat} (h : IsWordRun text i run) {r : Span}
    (hr : r ∈ regions text) (hi : i < r.stop) : i + run.length ≤ r.stop := by
  have htok := tokenises_regions text
  by_contra hlt
  have hend := h.stop_le_length
  obtain ⟨j, c, hj, hc, hno⟩ := htok.breaks hr (by omega)
  rw [h.isWord (by omega) (by omega) hc] at hno
  cases hno

end ClassBrowser.Source
