import ClassBrowser.Source.Region
import Mathlib.Data.List.Chain
import Mathlib.Data.List.Infix

/-!
# Tokenisations

What a tokenisation of a text is, said without the machine that makes one: the spans lie end to end
on the text (`Covers`), each is a string, a comment or plain text in front of what follows it
(`IsToken`), and two plain spans never meet.

The grammar is unambiguous.  Each reader of `Source.Region` is pinned down by the text that it
reads and the text that it leaves (`through_append_eq_iff` and its siblings), so the first region of
a text is the only token that can stand there (`firstRegion_append`).  One walk over the spans then
shows that the regions of a text are its tokenisation (`tokenises_regions`) and that there is no
other.
-/

namespace ClassBrowser.Source

/-! ## Spans on a text -/

/-- Spans lie end to end, from one position to another. -/
def Contiguous : (start stop : Nat) → List Span → Prop
  | start, stop, [] => start = stop
  | start, stop, s :: rest => s.start = start ∧ Contiguous s.stop stop rest

/-- From one position to another the spans cut a text into nonempty pieces without a gap or an
overlap, and each span holds its part of the text. -/
structure Covers (text : List Char) (start stop : Nat) (spans : List Span) : Prop where
  contiguous : Contiguous start stop spans
  text_eq : ∀ s ∈ spans, s.text = text.extract s.start s.stop
  nonempty : ∀ s ∈ spans, s.text ≠ []

/-- Two spans are not both plain. -/
def NotBothPlain (s t : Span) : Prop := ¬ (s.kind = .default ∧ t.kind = .default)

/-- A span holds its part of a text exactly if the text goes on from it with that part and then with
what stands behind the span. -/
theorem text_eq_extract_iff (text : List Char) (s : Span) :
    s.text = text.extract s.start s.stop ↔ text.drop s.start = s.text ++ text.drop s.stop := by
  have hlen : s.stop - s.start = s.text.length := by simp [Span.stop]
  rw [List.extract, hlen, Span.stop, ← List.drop_drop]
  constructor
  · intro h
    have hsplit := List.take_append_drop s.text.length (text.drop s.start)
    rw [← h] at hsplit
    exact hsplit.symm
  · intro h
    rw [h, List.take_left]

namespace Covers

variable {text : List Char} {start stop : Nat} {s : Span} {spans rest : List Span}

theorem nil_iff : Covers text start stop [] ↔ start = stop :=
  ⟨fun h => h.contiguous, fun h => ⟨h, by simp, by simp⟩⟩

theorem cons_iff : Covers text start stop (s :: rest) ↔ s.start = start ∧ s.text ≠ [] ∧
    text.drop s.start = s.text ++ text.drop s.stop ∧ Covers text s.stop stop rest := by
  rw [← text_eq_extract_iff]
  constructor
  · rintro ⟨⟨hstart, hrest⟩, htext, hne⟩
    exact ⟨hstart, hne s (by simp), htext s (by simp), hrest,
      fun t ht => htext t (by simp [ht]), fun t ht => hne t (by simp [ht])⟩
  · rintro ⟨hstart, hne, htext, hrest, htexts, hnes⟩
    exact ⟨⟨hstart, hrest⟩, List.forall_mem_cons.2 ⟨htext, htexts⟩,
      List.forall_mem_cons.2 ⟨hne, hnes⟩⟩

theorem append {mid : Nat} (h : Covers text start mid spans) (hr : Covers text mid stop rest) :
    Covers text start stop (spans ++ rest) := by
  induction spans generalizing start with
  | nil =>
    obtain rfl := nil_iff.1 h
    exact hr
  | cons s spans ih =>
    obtain ⟨hstart, hne, htext, hlater⟩ := cons_iff.1 h
    exact cons_iff.2 ⟨hstart, hne, htext, ih hlater⟩

theorem start_lt_stop (h : Covers text start stop spans) (hs : s ∈ spans) : s.start < s.stop := by
  have := List.length_pos_iff.2 (h.nonempty s hs)
  simp only [Span.stop]
  omega

theorem start_le_stop (h : Covers text start stop spans) : start ≤ stop := by
  induction spans generalizing start with
  | nil => exact (nil_iff.1 h).le
  | cons s spans ih =>
    have hpos := h.start_lt_stop (s := s) (by simp)
    obtain ⟨rfl, -, -, hlater⟩ := cons_iff.1 h
    exact hpos.le.trans (ih hlater)

/-- Spans that cover a stretch lie inside it. -/
theorem bounds (h : Covers text start stop spans) (hs : s ∈ spans) :
    start ≤ s.start ∧ s.stop ≤ stop := by
  induction spans generalizing start with
  | nil => simp at hs
  | cons t spans ih =>
    have hpos := h.start_lt_stop (s := t) (by simp)
    obtain ⟨rfl, -, -, hlater⟩ := cons_iff.1 h
    rcases List.mem_cons.1 hs with rfl | hs
    · exact ⟨le_rfl, hlater.start_le_stop⟩
    · obtain ⟨h₁, h₂⟩ := ih hlater hs
      exact ⟨by omega, h₂⟩

theorem pairwise (h : Covers text start stop spans) :
    spans.Pairwise fun s t => s.stop ≤ t.start := by
  induction spans generalizing start with
  | nil => exact .nil
  | cons s spans ih =>
    obtain ⟨-, -, -, hlater⟩ := cons_iff.1 h
    exact List.pairwise_cons.2 ⟨fun t ht => (hlater.bounds ht).1, ih hlater⟩

/-- Every position of a covered stretch lies in a span. -/
theorem exists_mem {i : Nat} (h : Covers text start stop spans) (h₁ : start ≤ i) (h₂ : i < stop) :
    ∃ s ∈ spans, s.start ≤ i ∧ i < s.stop := by
  induction spans generalizing start with
  | nil =>
    have := nil_iff.1 h
    omega
  | cons t spans ih =>
    obtain ⟨rfl, -, -, hlater⟩ := cons_iff.1 h
    by_cases ht : i < t.stop
    · exact ⟨t, by simp, h₁, ht⟩
    · obtain ⟨s, hs, hi⟩ := ih hlater (by omega)
      exact ⟨s, by simp [hs], hi⟩

/-- No position lies in two spans. -/
theorem eq_of_mem {i : Nat} {t : Span} (h : Covers text start stop spans) (hs : s ∈ spans)
    (ht : t ∈ spans) (hs' : s.start ≤ i ∧ i < s.stop) (ht' : t.start ≤ i ∧ i < t.stop) :
    s = t := by
  induction spans generalizing start with
  | nil => simp at hs
  | cons u spans ih =>
    obtain ⟨rfl, -, -, hlater⟩ := cons_iff.1 h
    rcases List.mem_cons.1 hs with rfl | hs₁ <;> rcases List.mem_cons.1 ht with rfl | ht₁
    · rfl
    · have := hlater.bounds ht₁
      omega
    · have := hlater.bounds hs₁
      omega
    · exact ih hlater hs₁ ht₁

end Covers

/-! ## The grammar -/

/-- A string or a comment begins at the start of the text. -/
def Opens (cs : List Char) : Prop :=
  (∃ q, isQuote q = true ∧ [q] <+: cs) ∨ ['/', '/'] <+: cs ∨ ['/', '*'] <+: cs

/-- A string in front of `after`: it begins with a quote that does not occur strictly inside, and
ends with the same quote unless nothing follows. -/
def IsString (text after : List Char) : Prop :=
  ∃ q, isQuote q = true ∧ text.head? = some q ∧ q ∉ text.tail.dropLast ∧
    (after ≠ [] → 2 ≤ text.length ∧ text.getLast? = some q)

/-- A line comment in front of `after`: it takes its line end with it, unless nothing follows. -/
def IsLineComment (text after : List Char) : Prop :=
  ['/', '/'] <+: text ∧ '\n' ∉ text.dropLast ∧ (after ≠ [] → text.getLast? = some '\n')

/-- A block comment in front of `after`: behind the opening mark the closing mark occurs only at the
end, and it does occur there unless nothing follows. -/
def IsBlockComment (text after : List Char) : Prop :=
  ['/', '*'] <+: text ∧ (∀ i, 2 ≤ i → ['*', '/'] <+: text.drop i → i + 2 = text.length) ∧
    (after ≠ [] → 4 ≤ text.length ∧ ['*', '/'] <:+ text)

/-- Plain text in front of `after`: no string or comment begins inside, also none whose mark is
completed by the first character of `after`. -/
def IsPlain (text after : List Char) : Prop :=
  ∀ i < text.length, ¬ Opens ((text ++ after).drop i)

/-- A token of a kind in front of `after`.  Keywords are no tokens of this grammar. -/
def IsToken : Kind → (text after : List Char) → Prop
  | .string, text, after => IsString text after
  | .lineComment, text, after => IsLineComment text after
  | .blockComment, text, after => IsBlockComment text after
  | .default, text, after => IsPlain text after
  | .keyword, _, _ => False

/-- From a position on, the spans are a tokenisation of a text. -/
structure Tokenises (text : List Char) (start : Nat) (spans : List Span) : Prop where
  covers : Covers text start text.length spans
  tokens : ∀ s ∈ spans, IsToken s.kind s.text (text.drop s.stop)
  separated : spans.IsChain NotBothPlain

/-! ## The readers -/

theorem opensRegion_iff (cs : List Char) : opensRegion cs = true ↔ Opens cs := by
  have slash : isQuote '/' = false := by decide
  unfold opensRegion Opens
  split
  · simp
  · simp
  · next c rest h₁ h₂ =>
    have h₃ : ¬ ['/', '/'] <+: c :: rest := fun ⟨r, hr⟩ => by
      obtain ⟨rfl, rfl⟩ := List.cons.inj hr
      exact h₁ r rfl rfl
    have h₄ : ¬ ['/', '*'] <+: c :: rest := fun ⟨r, hr⟩ => by
      obtain ⟨rfl, rfl⟩ := List.cons.inj hr
      exact h₂ r rfl rfl
    simp [h₃, h₄]
  · simp

/-- A text is cut behind the first `c` exactly if `c` stands at most at the end of the first part,
and does stand there unless nothing is left. -/
theorem through_append_eq_iff (c : Char) (t rest : List Char) :
    through c (t ++ rest) = (t, rest) ↔ c ∉ t.dropLast ∧ (rest ≠ [] → t.getLast? = some c) := by
  induction t with
  | nil =>
    cases rest with
    | nil => simp [through]
    | cons x rest =>
      have h : through c (x :: rest) ≠ ([], x :: rest) := by
        unfold through
        split <;> simp
      simpa using h
  | cons x t ih =>
    rw [List.cons_append, through]
    by_cases hx : x = c
    · subst hx
      cases t <;> simp
    · have hstep : (x :: (through c (t ++ rest)).1, (through c (t ++ rest)).2) = (x :: t, rest) ↔
          through c (t ++ rest) = (t, rest) := by
        simp [Prod.ext_iff]
      rw [if_neg hx, hstep, ih]
      cases t with
      | nil => simp [hx]
      | cons y t => simp [Ne.symm hx, List.dropLast_cons_of_ne_nil, List.getLast?_cons_cons]

theorem throughClose_cons {x : Char} {cs : List Char} (h : ¬ ['*', '/'] <+: x :: cs) :
    throughClose (x :: cs) = (x :: (throughClose cs).1, (throughClose cs).2) := by
  rw [throughClose]
  rintro rest rfl rfl
  exact h ⟨rest, rfl⟩

/-- A text is cut behind the first closing mark exactly if the mark occurs at most at the end of the
first part, and does occur there unless nothing is left. -/
theorem throughClose_append_eq_iff (t rest : List Char) :
    throughClose (t ++ rest) = (t, rest) ↔
      (∀ i, ['*', '/'] <+: t.drop i → i + 2 = t.length) ∧ (rest ≠ [] → ['*', '/'] <:+ t) := by
  induction t with
  | nil =>
    cases rest with
    | nil => simp [throughClose]
    | cons x rest =>
      have h : throughClose (x :: rest) ≠ ([], x :: rest) := by
        unfold throughClose
        split <;> simp
      simpa using h
  | cons x t ih =>
    by_cases h : ['*', '/'] <+: x :: (t ++ rest)
    · obtain ⟨r, hr⟩ := h
      obtain ⟨rfl, htail⟩ : '*' = x ∧ '/' :: r = t ++ rest := List.cons.inj hr
      cases t with
      | nil =>
        obtain rfl : '/' :: r = rest := htail
        simp [throughClose, List.suffix_cons_iff]
      | cons y t =>
        obtain ⟨rfl, -⟩ : '/' = y ∧ r = t ++ rest := List.cons.inj htail
        have hcut : throughClose ('*' :: '/' :: t ++ rest) = (['*', '/'], t ++ rest) := rfl
        rw [hcut]
        constructor
        · intro heq
          obtain rfl : t = [] := by simpa using (congrArg Prod.fst heq).symm
          refine ⟨?_, fun _ => List.suffix_rfl⟩
          intro i hi
          have := hi.length_le
          simp only [List.length_drop, List.length_cons, List.length_nil] at this ⊢
          omega
        · rintro ⟨hmark, -⟩
          have hlen := hmark 0 ⟨t, rfl⟩
          obtain rfl : t = [] := by simpa using hlen.symm
          rfl
    · have hstep : (x :: (throughClose (t ++ rest)).1, (throughClose (t ++ rest)).2) =
          (x :: t, rest) ↔ throughClose (t ++ rest) = (t, rest) := by
        simp [Prod.ext_iff]
      have hhead : ¬ ['*', '/'] <+: x :: t := fun hp =>
        h (hp.trans (List.prefix_append (x :: t) rest))
      have hwhole : ['*', '/'] ≠ x :: t := fun he => hhead (he ▸ List.prefix_rfl)
      rw [List.cons_append, throughClose_cons h, hstep, ih, List.suffix_cons_iff]
      simp only [hwhole, false_or]
      refine and_congr_left fun _ => ⟨?_, ?_⟩
      · intro hmark i hi
        cases i with
        | zero => exact absurd hi hhead
        | succ i =>
          have := hmark i hi
          simp only [List.length_cons]
          omega
      · intro hmark i hi
        have := hmark (i + 1) hi
        simp only [List.length_cons] at this
        omega

/-- A text is cut at the next string or comment exactly if none begins inside the first part and one
does begin behind it, unless nothing is left. -/
theorem upToOpening_append_eq_iff (t rest : List Char) :
    upToOpening (t ++ rest) = (t, rest) ↔
      IsPlain t rest ∧ (rest ≠ [] → Opens rest) := by
  induction t with
  | nil =>
    cases rest with
    | nil => simp [upToOpening, IsPlain]
    | cons x rest =>
      rw [List.nil_append, upToOpening, ← opensRegion_iff]
      split <;> simp_all [IsPlain]
  | cons x t ih =>
    rw [List.cons_append, upToOpening]
    by_cases h : Opens (x :: (t ++ rest))
    · have hplain : ¬ IsPlain (x :: t) rest := fun hp => hp 0 (by simp) h
      rw [if_pos ((opensRegion_iff _).2 h)]
      simp [hplain]
    · have hstep : (x :: (upToOpening (t ++ rest)).1, (upToOpening (t ++ rest)).2) =
          (x :: t, rest) ↔ upToOpening (t ++ rest) = (t, rest) := by
        simp [Prod.ext_iff]
      rw [if_neg (fun ho => h ((opensRegion_iff _).1 ho)), hstep, ih]
      refine and_congr_left fun _ => ⟨?_, ?_⟩
      · intro hp i hi
        cases i with
        | zero => exact h
        | succ i => exact hp i (by simpa using hi)
      · intro hp i hi
        exact hp (i + 1) (by simpa using hi)

/-! ## The first token of a text -/

theorem isString_cons_iff (q : Char) (t after : List Char) :
    IsString (q :: t) after ↔ isQuote q = true ∧ through q (t ++ after) = (t, after) := by
  rw [through_append_eq_iff]
  constructor
  · rintro ⟨q', hq, hhead, hinside, hend⟩
    obtain rfl : q = q' := by simpa using hhead
    refine ⟨hq, hinside, ?_⟩
    intro ha
    obtain ⟨hlen, hlast⟩ := hend ha
    cases t with
    | nil => simp at hlen
    | cons y t => simpa using hlast
  · rintro ⟨hq, hinside, hend⟩
    refine ⟨q, hq, rfl, hinside, ?_⟩
    intro ha
    cases t with
    | nil => simp at hend; exact absurd hend ha
    | cons y t => simpa using hend ha

theorem isLineComment_cons_iff (t after : List Char) :
    IsLineComment ('/' :: '/' :: t) after ↔ through '\n' (t ++ after) = (t, after) := by
  rw [through_append_eq_iff]
  cases t with
  | nil => simp [IsLineComment]
  | cons y t => simp [IsLineComment, List.getLast?_cons_cons]

theorem isBlockComment_cons_iff (t after : List Char) :
    IsBlockComment ('/' :: '*' :: t) after ↔ throughClose (t ++ after) = (t, after) := by
  rw [throughClose_append_eq_iff]
  constructor
  · rintro ⟨-, hmark, hend⟩
    refine ⟨?_, ?_⟩
    · intro i hi
      have := hmark (i + 2) (by omega) hi
      simp only [List.length_cons] at this
      omega
    · intro ha
      obtain ⟨hlen, hsuffix⟩ := hend ha
      refine List.suffix_of_suffix_length_le hsuffix (List.suffix_append ['/', '*'] t) ?_
      simpa using hlen
  · rintro ⟨hmark, hend⟩
    refine ⟨⟨t, rfl⟩, ?_, ?_⟩
    · intro i hi hp
      obtain ⟨j, rfl⟩ : ∃ j, i = j + 2 := ⟨i - 2, by omega⟩
      have := hmark j hp
      simp only [List.length_cons]
      omega
    · intro ha
      have hlen := (hend ha).length_le
      exact ⟨by simpa using hlen, (hend ha).trans (List.suffix_append ['/', '*'] t)⟩

theorem isPlain_cons_iff (c : Char) (t after : List Char) :
    (IsPlain (c :: t) after ∧ (after ≠ [] → Opens after)) ↔
      ¬ Opens (c :: (t ++ after)) ∧ upToOpening (t ++ after) = (t, after) := by
  rw [upToOpening_append_eq_iff]
  constructor
  · rintro ⟨hp, hafter⟩
    exact ⟨hp 0 (by simp), fun i hi => hp (i + 1) (by simpa using hi), hafter⟩
  · rintro ⟨hc, hp, hafter⟩
    refine ⟨?_, hafter⟩
    intro i hi
    cases i with
    | zero => exact hc
    | succ i => exact hp i (by simpa using hi)

theorem firstRegion_quote {q : Char} (h : isQuote q = true) (cs : List Char) :
    firstRegion (q :: cs) = ⟨.string, q :: (through q cs).1, (through q cs).2⟩ := by
  unfold firstRegion
  split
  · next heq => simp_all [isQuote]
  · next heq => simp_all [isQuote]
  · next heq =>
    obtain ⟨rfl, rfl⟩ := List.cons.inj heq
    rw [if_pos h]
  · contradiction

theorem firstRegion_of_not_opens {c : Char} {cs : List Char} (h : ¬ Opens (c :: cs)) :
    firstRegion (c :: cs) = ⟨.default, c :: (upToOpening cs).1, (upToOpening cs).2⟩ := by
  unfold firstRegion
  split
  · next rest heq => exact absurd (.inr (.inl ⟨rest, heq.symm⟩)) h
  · next rest heq => exact absurd (.inr (.inr ⟨rest, heq.symm⟩)) h
  · next heq =>
    obtain ⟨rfl, rfl⟩ := List.cons.inj heq
    rw [if_neg fun hq => h (.inl ⟨c, hq, cs, rfl⟩)]
  · contradiction

/-- A string or a comment begins where a token stands that is not plain. -/
theorem IsToken.opens {kind : Kind} {t after : List Char} (h : IsToken kind t after)
    (hk : kind ≠ .default) : Opens (t ++ after) := by
  cases kind with
  | string =>
    obtain ⟨q, hq, hhead, -⟩ := id h
    obtain ⟨r, rfl⟩ := List.head?_eq_some_iff.1 hhead
    exact .inl ⟨q, hq, r ++ after, rfl⟩
  | lineComment => exact .inr (.inl (h.1.trans (List.prefix_append ..)))
  | blockComment => exact .inr (.inr (h.1.trans (List.prefix_append ..)))
  | default => exact absurd rfl hk
  | keyword => exact absurd h id

/-- The first region of a text is a token in front of the rest, and plain text goes on to the next
string or comment. -/
theorem isToken_firstRegion (c : Char) (cs : List Char) :
    IsToken (firstRegion (c :: cs)).kind (firstRegion (c :: cs)).text (firstRegion (c :: cs)).rest ∧
      ((firstRegion (c :: cs)).kind = .default → (firstRegion (c :: cs)).rest ≠ [] →
        Opens (firstRegion (c :: cs)).rest) := by
  by_cases h : Opens (c :: cs)
  · rcases h with ⟨q, hq, r, hr⟩ | ⟨r, hr⟩ | ⟨r, hr⟩
    · obtain ⟨rfl, rfl⟩ : q = c ∧ r = cs := List.cons.inj hr
      rw [firstRegion_quote hq]
      exact ⟨(isString_cons_iff _ _ _).2 ⟨hq, by rw [through_append]⟩, nofun⟩
    · obtain ⟨rfl, rfl⟩ : '/' = c ∧ '/' :: r = cs := List.cons.inj hr
      have hcut : through '\n' ((through '\n' r).1 ++ (through '\n' r).2) = through '\n' r := by
        rw [through_append]
      exact ⟨(isLineComment_cons_iff _ _).2 hcut, nofun⟩
    · obtain ⟨rfl, rfl⟩ : '/' = c ∧ '*' :: r = cs := List.cons.inj hr
      have hcut : throughClose ((throughClose r).1 ++ (throughClose r).2) = throughClose r := by
        rw [throughClose_append]
      exact ⟨(isBlockComment_cons_iff _ _).2 hcut, nofun⟩
  · rw [firstRegion_of_not_opens h]
    have hplain := (isPlain_cons_iff c (upToOpening cs).1 (upToOpening cs).2).2
      ⟨by rwa [upToOpening_append], by rw [upToOpening_append]⟩
    exact ⟨hplain.1, fun _ => hplain.2⟩

/-- A token in front of a text is the first region of both together, where plain text has to go on
to the next string or comment. -/
theorem firstRegion_append {kind : Kind} {t after : List Char} (ht : t ≠ [])
    (h : IsToken kind t after) (hd : kind = .default → after ≠ [] → Opens after) :
    firstRegion (t ++ after) = ⟨kind, t, after⟩ := by
  obtain ⟨c, t, rfl⟩ := List.exists_cons_of_ne_nil ht
  cases kind with
  | string =>
    obtain ⟨hq, hcut⟩ := (isString_cons_iff c t after).1 h
    rw [List.cons_append, firstRegion_quote hq, hcut]
  | lineComment =>
    obtain ⟨⟨r, hr⟩, -⟩ := id h
    obtain ⟨rfl, rfl⟩ : '/' = c ∧ '/' :: r = t := List.cons.inj hr
    have hcut := (isLineComment_cons_iff r after).1 h
    rw [List.cons_append, List.cons_append, firstRegion, hcut]
  | blockComment =>
    obtain ⟨⟨r, hr⟩, -⟩ := id h
    obtain ⟨rfl, rfl⟩ : '/' = c ∧ '*' :: r = t := List.cons.inj hr
    have hcut := (isBlockComment_cons_iff r after).1 h
    rw [List.cons_append, List.cons_append, firstRegion, hcut]
  | default =>
    obtain ⟨hc, hcut⟩ := (isPlain_cons_iff c t after).1 ⟨h, hd rfl⟩
    rw [List.cons_append, firstRegion_of_not_opens hc, hcut]
  | keyword => exact absurd h id

/-! ## Walking over the spans -/

theorem Tokenises.tail {text : List Char} {start : Nat} {s : Span} {rest : List Span}
    (h : Tokenises text start (s :: rest)) : Tokenises text s.stop rest := by
  obtain ⟨-, -, -, hrest⟩ := Covers.cons_iff.1 h.covers
  exact ⟨hrest, fun t ht => h.tokens t (by simp [ht]), h.separated.tail⟩

/-- What stands behind a plain span of a tokenisation begins a string or a comment. -/
theorem Tokenises.opens_behind {text : List Char} {start : Nat} {spans : List Span}
    (h : Tokenises text start spans) {s : Span} (hs : s ∈ spans) (hk : s.kind = .default)
    (hne : text.drop s.stop ≠ []) : Opens (text.drop s.stop) := by
  induction spans generalizing start with
  | nil => simp at hs
  | cons t rest ih =>
    rcases List.mem_cons.1 hs with rfl | hs
    · cases rest with
      | nil =>
        rw [Covers.nil_iff.1 h.tail.covers] at hne
        simp at hne
      | cons u rest =>
        obtain ⟨hstart, -, htext, -⟩ := Covers.cons_iff.1 h.tail.covers
        have hkind : u.kind ≠ .default := by
          intro hu
          exact (List.isChain_cons_cons.1 h.separated).1 ⟨hk, hu⟩
        rw [← hstart, htext]
        exact (h.tokens u (by simp)).opens hkind
    · exact ih h.tail hs

/-- Spans that tokenise a text from a position on are the regions from there. -/
theorem Tokenises.regionsFrom_eq {text : List Char} {start : Nat} {spans : List Span}
    (h : Tokenises text start spans) : regionsFrom start (text.drop start) = spans := by
  induction spans generalizing start with
  | nil => simp [Covers.nil_iff.1 h.covers, regionsFrom]
  | cons s rest ih =>
    obtain ⟨rfl, hne, htext, -⟩ := Covers.cons_iff.1 h.covers
    have hcut := firstRegion_append hne (h.tokens s (by simp)) (h.opens_behind (by simp))
    have hlater := ih h.tail
    obtain ⟨c, cs, hcs⟩ : ∃ c cs, text.drop s.start = c :: cs := by
      rw [htext]
      exact List.exists_cons_of_ne_nil (by simp [hne])
    rw [← htext, hcs] at hcut
    rw [hcs, regionsFrom, hcut, ← hlater]
    rfl

/-- The regions of a text from a position on tokenise it from there. -/
theorem tokenises_regionsFrom {text : List Char} {start : Nat} {cs : List Char}
    (hcs : text.drop start = cs) (hstart : start ≤ text.length) :
    Tokenises text start (regionsFrom start cs) := by
  fun_induction regionsFrom start cs with
  | case1 start =>
    have hend : start = text.length := by
      have := congrArg List.length hcs
      simp at this
      omega
    exact ⟨Covers.nil_iff.2 hend, by simp, .nil⟩
  | case2 start c cs cut ih =>
    have happend : cut.text ++ cut.rest = c :: cs := text_append_rest_firstRegion _
    obtain ⟨htoken, hopens⟩ : IsToken cut.kind cut.text cut.rest ∧
        (cut.kind = .default → cut.rest ≠ [] → Opens cut.rest) := isToken_firstRegion c cs
    have hbehind : text.drop (start + cut.text.length) = cut.rest := by
      rw [← List.drop_drop, hcs, ← happend, List.drop_left]
    have hlen : start + cut.text.length ≤ text.length := by
      have h₁ := congrArg List.length hcs
      have h₂ := congrArg List.length happend
      simp only [List.length_drop, List.length_append, List.length_cons] at h₁ h₂
      omega
    have hrest := ih hbehind hlen
    refine ⟨Covers.cons_iff.2 ⟨rfl, firstRegion_text_ne_nil c cs, ?_, hrest.covers⟩,
      List.forall_mem_cons.2 ⟨?_, hrest.tokens⟩, ?_⟩
    · exact hcs.trans (happend.symm.trans (by rw [Span.stop, hbehind]))
    · rw [Span.stop, hbehind]
      exact htoken
    · -- the next region is plain only if nothing opens behind this one
      refine List.isChain_cons.2 ⟨?_, hrest.separated⟩
      intro t ht
      rintro ⟨hk, hkt⟩
      cases hr : cut.rest with
      | nil => simp [hr, regionsFrom] at ht
      | cons d ds =>
        have hopen := hopens hk (by simp [hr])
        obtain ⟨hfirst, -⟩ := isToken_firstRegion d ds
        have hkind : (firstRegion (d :: ds)).kind = .default := by
          rw [hr, regionsFrom] at ht
          obtain rfl := Option.some.inj ht
          exact hkt
        rw [hkind] at hfirst
        have hnot := hfirst 0 (List.length_pos_iff.2 (firstRegion_text_ne_nil d ds))
        rw [List.drop_zero, text_append_rest_firstRegion, ← hr] at hnot
        exact hnot hopen

theorem tokenises_regions (text : List Char) : Tokenises text 0 (regions text) :=
  tokenises_regionsFrom List.drop_zero (Nat.zero_le _)

/-- **The regions of a text are its only tokenisation.** -/
theorem regions_eq_iff (text : List Char) (spans : List Span) :
    regions text = spans ↔ Tokenises text 0 spans := by
  constructor
  · rintro rfl
    exact tokenises_regions text
  · exact fun h => h.regionsFrom_eq

end ClassBrowser.Source
