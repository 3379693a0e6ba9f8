import ClassBrowser.Text.Split
import Mathlib.Data.String.Basic

/-!
# Pieces of a text

Which lists of pieces a text can be cut into at a delimiter.  Occurrences are taken from the left,
so a piece in front of a delimiter must not bring an earlier occurrence about: the delimiter occurs
neither in the piece nor across its end (`Closed`), as it does behind the piece `a` when the
delimiter is `aa`.  With that condition cutting and joining are inverse to each other
(`splitChars_eq_iff`), for delimiters that overlap themselves too.

What stands in front of the last pieces of a text is determined by them (`leading`), so the texts
with given first pieces are those with a given beginning, and such texts stand together in the
lexicographic order (`isPrefix_of_between`).
-/

namespace ClassBrowser.Text

variable {d : Char} {ds : List Char}

/-- Whether a delimiter behind a piece is the first one there is. -/
def Closed (delimiter piece : List Char) : Prop :=
  ¬ delimiter <:+: piece ++ delimiter.dropLast

/-- Whether a list is what a delimiter cuts some text into. -/
def ArePieces (delimiter : List Char) : List (List Char) → Prop
  | [] => False
  | [p] => ¬ delimiter <:+: p
  | p :: q :: ps => Closed delimiter p ∧ ArePieces delimiter (q :: ps)

/-! ## Cutting at the first occurrence -/

theorem not_isInfix_tail {delimiter rest : List Char} {c : Char}
    (h : ¬ delimiter <:+: c :: rest) : ¬ delimiter <:+: rest := fun hrest =>
  h (List.infix_cons_iff.2 (.inr hrest))

theorem dropStart?_eq_none_iff {p s : List Char} : dropStart? p s = none ↔ ¬ p <+: s := by
  rw [Option.eq_none_iff_forall_ne_some]
  constructor
  · rintro h ⟨r, hr⟩
    exact h r (dropStart?_eq_some_iff.2 hr.symm)
  · intro h r hr
    exact h ⟨r, (dropStart?_eq_some_iff.1 hr).symm⟩

theorem splitFrom_cons_of_found (piece r : List Char) :
    splitFrom d ds piece (d :: ds ++ r) = piece.reverse :: splitFrom d ds [] r := by
  rw [List.cons_append, splitFrom]
  split
  · next after hafter =>
    rw [← List.cons_append, dropStart?_append, Option.some.injEq] at hafter
    rw [hafter]
  · next hnone =>
    rw [← List.cons_append, dropStart?_append] at hnone
    cases hnone

theorem splitFrom_cons_of_absent {c : Char} {rest : List Char} (piece : List Char)
    (h : ¬ d :: ds <+: c :: rest) :
    splitFrom d ds piece (c :: rest) = splitFrom d ds (c :: piece) rest := by
  rw [splitFrom]
  split
  · next after hafter =>
    rw [dropStart?_eq_none_iff.2 h] at hafter
    cases hafter
  · rfl

/-- A text without the delimiter is one piece. -/
theorem splitFrom_of_not_isInfix (piece : List Char) {s : List Char} (h : ¬ d :: ds <:+: s) :
    splitFrom d ds piece s = [piece.reverse ++ s] := by
  induction s generalizing piece with
  | nil => simp [splitFrom]
  | cons c rest ih =>
    have hhead : ¬ d :: ds <+: c :: rest := fun hp => h hp.isInfix
    rw [splitFrom_cons_of_absent piece hhead, ih _ (not_isInfix_tail h)]
    simp

/-- A text is cut behind its first closed piece. -/
theorem splitFrom_append (piece : List Char) {p : List Char} (h : Closed (d :: ds) p)
    (r : List Char) :
    splitFrom d ds piece (p ++ (d :: ds ++ r)) =
      (piece.reverse ++ p) :: splitFrom d ds [] r := by
  induction p generalizing piece with
  | nil =>
    rw [List.nil_append, List.append_nil]
    exact splitFrom_cons_of_found piece r
  | cons c p ih =>
    have hhead : ¬ d :: ds <+: c :: (p ++ (d :: ds ++ r)) := by
      intro hp
      have hshort : c :: (p ++ (d :: ds).dropLast) <+: c :: (p ++ (d :: ds ++ r)) := by
        refine ⟨(d :: ds).drop ds.length ++ r, ?_⟩
        rw [List.dropLast_eq_take]
        simp only [List.length_cons, Nat.add_sub_cancel, List.cons_append, List.append_assoc]
        rw [← List.append_assoc (List.take _ _), List.take_append_drop, List.cons_append]
      refine h (List.IsPrefix.isInfix (List.prefix_of_prefix_length_le hp hshort ?_))
      simp
    have htail : Closed (d :: ds) p := not_isInfix_tail h
    rw [List.cons_append, splitFrom_cons_of_absent piece hhead, ih _ htail]
    simp

/-- The first occurrence of a delimiter stands behind a closed piece. -/
theorem exists_closed_of_isInfix {s : List Char} (h : d :: ds <:+: s) :
    ∃ p r, s = p ++ (d :: ds ++ r) ∧ Closed (d :: ds) p := by
  induction s with
  | nil => simp at h
  | cons c rest ih =>
    by_cases hhead : d :: ds <+: c :: rest
    · obtain ⟨r, hr⟩ := hhead
      refine ⟨[], r, hr.symm, ?_⟩
      intro hinfix
      have hlen := hinfix.length_le
      simp at hlen
    · obtain ⟨p, r, rfl, hp⟩ := ih ((List.infix_cons_iff.1 h).resolve_left hhead)
      refine ⟨c :: p, r, rfl, ?_⟩
      intro hinfix
      rcases List.infix_cons_iff.1 hinfix with hfirst | hlater
      · -- an occurrence that begins with `c` is one of the whole text
        refine hhead (hfirst.trans ?_)
        show c :: p ++ (d :: ds).dropLast <+: c :: p ++ (d :: ds ++ r)
        have hcut := List.dropLast_prefix (d :: ds)
        exact (List.prefix_append_right_inj _).2 (hcut.trans (List.prefix_append _ _))
      · exact hp hlater

/-! ## Cutting and joining -/

theorem joinChars_cons (delimiter p : List Char) {ps : List (List Char)} (h : ps ≠ []) :
    joinChars delimiter (p :: ps) = p ++ (delimiter ++ joinChars delimiter ps) := by
  cases ps with
  | nil => exact absurd rfl h
  | cons q ps => simp [joinChars]

theorem ArePieces.ne_nil {delimiter : List Char} {ps : List (List Char)}
    (h : ArePieces delimiter ps) : ps ≠ [] := by
  rintro rfl
  exact h

theorem arePieces_cons_iff {delimiter p : List Char} {ps : List (List Char)} (h : ps ≠ []) :
    ArePieces delimiter (p :: ps) ↔ Closed delimiter p ∧ ArePieces delimiter ps := by
  cases ps with
  | nil => exact absurd rfl h
  | cons q ps => rfl

theorem splitChars_closed {p : List Char} (h : Closed (d :: ds) p) (r : List Char) :
    splitChars d ds (p ++ (d :: ds ++ r)) = p :: splitChars d ds r := by
  simpa [splitChars] using splitFrom_append [] h r

/-- The pieces of a text satisfy the condition on pieces. -/
theorem arePieces_splitChars (d : Char) (ds s : List Char) :
    ArePieces (d :: ds) (splitChars d ds s) := by
  by_cases hs : d :: ds <:+: s
  · obtain ⟨p, r, rfl, hp⟩ := exists_closed_of_isInfix hs
    have hr := arePieces_splitChars d ds r
    rw [splitChars_closed hp]
    exact (arePieces_cons_iff (splitFrom_ne_nil _ _ _ _)).2 ⟨hp, hr⟩
  · rw [splitChars, splitFrom_of_not_isInfix [] hs]
    exact hs
termination_by s.length
decreasing_by
  subst_vars
  simp
  omega

/-- Pieces that are put together are found again. -/
theorem splitChars_joinChars {ps : List (List Char)} (h : ArePieces (d :: ds) ps) :
    splitChars d ds (joinChars (d :: ds) ps) = ps := by
  induction ps with
  | nil => exact absurd rfl h.ne_nil
  | cons p ps ih =>
    rcases eq_or_ne ps [] with rfl | hps
    · exact splitFrom_of_not_isInfix [] h
    · obtain ⟨hp, hrest⟩ := (arePieces_cons_iff hps).1 h
      rw [joinChars_cons _ _ hps, splitChars_closed hp, ih hrest]

/-- The pieces of a text are the only ones that give the text. -/
theorem splitChars_eq_iff {s : List Char} {ps : List (List Char)} :
    splitChars d ds s = ps ↔ ArePieces (d :: ds) ps ∧ joinChars (d :: ds) ps = s := by
  constructor
  · rintro rfl
    exact ⟨arePieces_splitChars d ds s, joinChars_splitChars d ds s⟩
  · rintro ⟨hps, rfl⟩
    exact splitChars_joinChars hps

/-! ## The first pieces -/

/-- What stands in front of further pieces. -/
def leading (delimiter : List Char) (ps : List (List Char)) : List Char :=
  ps.flatMap (· ++ delimiter)

theorem joinChars_append (delimiter : List Char) (ps : List (List Char)) {qs : List (List Char)}
    (h : qs ≠ []) :
    joinChars delimiter (ps ++ qs) = leading delimiter ps ++ joinChars delimiter qs := by
  induction ps with
  | nil => rfl
  | cons p ps ih =>
    have hne : ps ++ qs ≠ [] := by simp [h]
    rw [List.cons_append, joinChars_cons _ _ hne, ih]
    simp [leading]

theorem ArePieces.closed {delimiter : List Char} {ps qs : List (List Char)}
    (h : ArePieces delimiter (ps ++ qs)) (hqs : qs ≠ []) :
    (∀ p ∈ ps, Closed delimiter p) ∧ ArePieces delimiter qs := by
  induction ps with
  | nil => exact ⟨by simp, h⟩
  | cons p ps ih =>
    obtain ⟨hp, hrest⟩ := (arePieces_cons_iff (by simp [hqs])).1 h
    obtain ⟨hps, hq⟩ := ih hrest
    exact ⟨List.forall_mem_cons.2 ⟨hp, hps⟩, hq⟩

theorem splitChars_leading {ps : List (List Char)} (h : ∀ p ∈ ps, Closed (d :: ds) p)
    (r : List Char) : splitChars d ds (leading (d :: ds) ps ++ r) = ps ++ splitChars d ds r := by
  induction ps with
  | nil => rfl
  | cons p ps ih =>
    obtain ⟨hp, hps⟩ := List.forall_mem_cons.1 h
    have hsplit : leading (d :: ds) (p :: ps) ++ r =
        p ++ (d :: ds ++ (leading (d :: ds) ps ++ r)) := by
      simp [leading]
    rw [hsplit, splitChars_closed hp, ih hps, List.cons_append]

/-- A piece that is closed does not hold the delimiter. -/
theorem Closed.not_isInfix {delimiter p : List Char} (h : Closed delimiter p) :
    ¬ delimiter <:+: p := fun hp => h (List.infix_append_of_infix_left hp)

/-- The first pieces of a text are the pieces of a text of their own. -/
theorem ArePieces.take {delimiter : List Char} {ps qs : List (List Char)}
    (h : ArePieces delimiter (ps ++ qs)) (hps : ps ≠ []) : ArePieces delimiter ps := by
  induction ps with
  | nil => exact absurd rfl hps
  | cons p ps ih =>
    rcases eq_or_ne ps [] with rfl | hne
    · rcases eq_or_ne qs [] with rfl | hqs
      · exact h
      · exact ((arePieces_cons_iff hqs).1 h).1.not_isInfix
    · obtain ⟨hp, hrest⟩ := (arePieces_cons_iff (by simp [hne])).1 h
      exact (arePieces_cons_iff hne).2 ⟨hp, ih hrest hne⟩

/-- No piece of a text holds the delimiter. -/
theorem ArePieces.not_isInfix {delimiter p : List Char} {ps : List (List Char)}
    (h : ArePieces delimiter ps) (hp : p ∈ ps) : ¬ delimiter <:+: p := by
  induction ps with
  | nil => cases hp
  | cons q ps ih =>
    rcases eq_or_ne ps [] with rfl | hps
    · obtain rfl := List.mem_singleton.1 hp
      exact h
    · obtain ⟨hq, hrest⟩ := (arePieces_cons_iff hps).1 h
      obtain rfl | hp := List.mem_cons.1 hp
      · exact hq.not_isInfix
      · exact ih hrest hp

/-! ## Order -/

theorem lt_or_le_of_cons_le {x y : Char} {a b : List Char} (h : x :: a ≤ y :: b) :
    x < y ∨ x = y ∧ a ≤ b := by
  rcases lt_trichotomy x y with hlt | rfl | hgt
  · exact .inl hlt
  · refine .inr ⟨rfl, le_of_not_gt ?_⟩
    intro hlt
    exact h.not_gt (List.cons_lt_cons_iff.2 (.inr ⟨rfl, hlt⟩))
  · exact absurd (List.cons_lt_cons_iff.2 (.inl hgt)) h.not_gt

/-- The texts with a given beginning stand together in the lexicographic order. -/
theorem isPrefix_of_between {k a b c : List Char} (ha : k <+: a) (hc : k <+: c) (hab : a ≤ b)
    (hbc : b ≤ c) : k <+: b := by
  induction k generalizing a b c with
  | nil => exact List.nil_prefix
  | cons x k ih =>
    obtain ⟨a, rfl, hka⟩ := List.cons_prefix_iff.1 ha
    obtain ⟨c, rfl, hkc⟩ := List.cons_prefix_iff.1 hc
    cases b with
    | nil => exact absurd (List.nil_lt_cons x a) hab.not_gt
    | cons y b =>
      have hxy := lt_or_le_of_cons_le hab
      have hyx := lt_or_le_of_cons_le hbc
      obtain rfl : x = y := by
        refine le_antisymm ?_ ?_
        · exact hxy.elim le_of_lt fun h => h.1.le
        · exact hyx.elim le_of_lt fun h => h.1.le
      have hab := (hxy.resolve_left (lt_irrefl x)).2
      have hbc := (hyx.resolve_left (lt_irrefl x)).2
      exact (List.prefix_cons_inj x).2 (ih hka hkc hab hbc)

/-- Between texts with the same first pieces, each followed by more, there are only such texts. -/
theorem splitChars_between {a b c : List Char} {ps xs ys : List (List Char)}
    (ha : splitChars d ds a = ps ++ xs) (hxs : xs ≠ []) (hc : splitChars d ds c = ps ++ ys)
    (hys : ys ≠ []) (hab : a ≤ b) (hbc : b ≤ c) :
    ∃ zs, zs ≠ [] ∧ splitChars d ds b = ps ++ zs := by
  obtain ⟨hpieces, hjoin⟩ := splitChars_eq_iff.1 ha
  have hbegin : ∀ {s : List Char} {rest : List (List Char)}, splitChars d ds s = ps ++ rest →
      rest ≠ [] → leading (d :: ds) ps <+: s := by
    intro s rest hs hrest
    rw [← (splitChars_eq_iff.1 hs).2, joinChars_append _ _ hrest]
    exact List.prefix_append _ _
  obtain ⟨r, rfl⟩ := isPrefix_of_between (hbegin ha hxs) (hbegin hc hys) hab hbc
  exact ⟨splitChars d ds r, splitFrom_ne_nil _ _ _ _,
    splitChars_leading (hpieces.closed hxs).1 r⟩

end ClassBrowser.Text
