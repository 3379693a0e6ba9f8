import ClassBrowser.Proofs.Source.Keywords
import ClassBrowser.Source.Highlight

/-!
# Classifications

What the highlighted form of a text is, said without the walk that makes it: strings and comments
are the regions of the text, keyword spans are the maximal word runs that are keywords and begin in
a plain region, and the rest of the plain regions stays plain (`Classifies`).

The walk consumes the keywords of the whole text in step with the regions.  What carries it is that
every keyword that is left lies inside one of the regions that are left, so a plain region uses up
exactly the keywords that end in it (`cuts_cutRegions`).  A classification is determined by its
spans that are not plain (`Covers.eq_of_mem_iff`), so there is no other than the highlighted spans.
-/

namespace ClassBrowser.Source

/-- The spans are a classification of a text by its keywords. -/
structure Classifies (text : List Char) (keywords : List String) (spans : List Span) : Prop where
  covers : Covers text 0 text.length spans
  kept : ∀ s, s.kind ≠ .default → s.kind ≠ .keyword → (s ∈ spans ↔ s ∈ regions text)
  keyword : ∀ s, s.kind = .keyword → (s ∈ spans ↔
    IsWordRun text s.start s.text ∧ String.ofList s.text ∈ keywords ∧
      ∃ r ∈ regions text, r.kind = .default ∧ r.start ≤ s.start ∧ s.start < r.stop)
  plain : ∀ s ∈ spans, s.kind = .default →
    ∃ r ∈ regions text, r.kind = .default ∧ r.start ≤ s.start ∧ s.stop ≤ r.stop
  separated : spans.IsChain NotBothPlain

/-! ## Spans that are not plain determine the rest -/

section Unique

variable {text : List Char} {start stop : Nat} {s t : Span} {xs ys : List Span}

/-- A plain span goes at least as far as one that begins with it in another cover without further
marked spans. -/
theorem Covers.stop_le_of_plain (hx : Covers text start stop (s :: xs))
    (hy : Covers text start stop (t :: ys)) (hsep : (s :: xs).IsChain NotBothPlain)
    (hmarked : ∀ u, u.kind ≠ .default → u ∈ s :: xs → u ∈ t :: ys) (hs : s.kind = .default)
    (ht : t.kind = .default) : t.stop ≤ s.stop := by
  obtain ⟨hs₀, -, -, hxs⟩ := cons_iff.1 hx
  obtain ⟨ht₀, -, -, hys⟩ := cons_iff.1 hy
  have htstop := hys.start_le_stop
  cases xs with
  | nil =>
    rw [nil_iff.1 hxs]
    exact htstop
  | cons u xs =>
    -- the span behind `s` is marked, so it cannot begin inside the plain `t`
    obtain ⟨hu₀, -⟩ := cons_iff.1 hxs
    have hu : u.kind ≠ .default := fun h => (List.isChain_cons_cons.1 hsep).1 ⟨hs, h⟩
    have hmem := hmarked u hu (by simp)
    by_contra hlt
    have hpos := hx.start_lt_stop (s := s) (by simp)
    have hupos := hy.start_lt_stop hmem
    have heq := hy.eq_of_mem (i := u.start) hmem (t := t) (by simp) ⟨le_rfl, hupos⟩
      ⟨by omega, by omega⟩
    exact hu (heq ▸ ht)

/-- Two covers with the same marked spans begin with the same span. -/
theorem Covers.head_eq (hx : Covers text start stop (s :: xs))
    (hy : Covers text start stop (t :: ys)) (hsx : (s :: xs).IsChain NotBothPlain)
    (hsy : (t :: ys).IsChain NotBothPlain)
    (h : ∀ u, u.kind ≠ .default → (u ∈ s :: xs ↔ u ∈ t :: ys)) : s = t := by
  have hspos := hx.start_lt_stop (s := s) (by simp)
  have htpos := hy.start_lt_stop (s := t) (by simp)
  obtain ⟨hs₀, -⟩ := cons_iff.1 hx
  obtain ⟨ht₀, -⟩ := cons_iff.1 hy
  by_cases hs : s.kind = .default
  · by_cases ht : t.kind = .default
    · have h₁ := hx.stop_le_of_plain hy hsx (fun u hu => (h u hu).1) hs ht
      have h₂ := hy.stop_le_of_plain hx hsy (fun u hu => (h u hu).2) ht hs
      have hstart : s.start = t.start := hs₀.trans ht₀.symm
      have htext : s.text = t.text := by
        rw [hx.text_eq s (by simp), hy.text_eq t (by simp), hstart, h₁.antisymm h₂]
      rw [Span.mk.injEq]
      exact ⟨hs.trans ht.symm, hstart, htext⟩
    · exact hx.eq_of_mem (i := start) (by simp) ((h t ht).2 (by simp)) ⟨hs₀.le, by omega⟩
        ⟨ht₀.le, by omega⟩
  · exact hy.eq_of_mem (i := start) ((h s hs).1 (by simp)) (by simp) ⟨hs₀.le, by omega⟩
      ⟨ht₀.le, by omega⟩

theorem Covers.not_mem_tail (h : Covers text start stop (s :: xs)) : s ∉ xs := by
  intro hmem
  have hpos := h.start_lt_stop (s := s) (by simp)
  obtain ⟨-, -, -, hxs⟩ := cons_iff.1 h
  have := hxs.bounds hmem
  omega

/-- Covers whose plain spans never meet are equal if they have the same spans that are not plain. -/
theorem Covers.eq_of_mem_iff (hx : Covers text start stop xs) (hy : Covers text start stop ys)
    (hsx : xs.IsChain NotBothPlain) (hsy : ys.IsChain NotBothPlain)
    (h : ∀ u, u.kind ≠ .default → (u ∈ xs ↔ u ∈ ys)) : xs = ys := by
  induction xs generalizing start ys with
  | nil =>
    cases ys with
    | nil => rfl
    | cons t ys =>
      have hpos := hy.start_lt_stop (s := t) (by simp)
      have hb := hy.bounds (s := t) (by simp)
      have := nil_iff.1 hx
      omega
  | cons s xs ih =>
    have hspos := hx.start_lt_stop (s := s) (by simp)
    have hsb := hx.bounds (s := s) (by simp)
    cases ys with
    | nil =>
      have := nil_iff.1 hy
      omega
    | cons t ys =>
      obtain rfl := hx.head_eq hy hsx hsy h
      obtain ⟨-, -, -, hxs⟩ := cons_iff.1 hx
      obtain ⟨-, -, -, hys⟩ := cons_iff.1 hy
      refine congrArg (s :: ·) (ih hxs hys hsx.tail hsy.tail ?_)
      intro u hu
      have hall := h u hu
      rw [List.mem_cons, List.mem_cons] at hall
      constructor
      · intro hmem
        apply (hall.1 (.inr hmem)).resolve_left
        rintro rfl
        exact hx.not_mem_tail hmem
      · intro hmem
        apply (hall.2 (.inr hmem)).resolve_left
        rintro rfl
        exact hy.not_mem_tail hmem

end Unique

/-! ## Cutting a plain region -/

section Cut

variable {text : List Char}

/-- The span of a keyword. -/
def keywordSpan (text : List Char) (p : Nat × Nat) : Span :=
  ⟨.keyword, p.1, text.extract p.1 p.2⟩

theorem length_extract {start stop : Nat} (h : start ≤ stop) (hstop : stop ≤ text.length) :
    start + (text.extract start stop).length = stop := by
  simp only [List.extract_eq_take_drop, List.length_take, List.length_drop]
  omega

theorem covers_singleton (kind : Kind) {start stop : Nat} (h : start < stop)
    (hstop : stop ≤ text.length) :
    Covers text start stop [⟨kind, start, text.extract start stop⟩] := by
  have hlen := length_extract h.le hstop
  have hs : (⟨kind, start, text.extract start stop⟩ : Span).stop = stop := hlen
  refine Covers.cons_iff.2 ⟨rfl, ?_, (text_eq_extract_iff text _).1 ?_, Covers.nil_iff.2 hs⟩
  · intro hnil
    rw [show text.extract start stop = [] from hnil] at hlen
    simp at hlen
    omega
  · rw [hs]

theorem covers_plainSpan {start stop : Nat} (h : start ≤ stop) (hstop : stop ≤ text.length) :
    Covers text start stop (plainSpan start (text.extract start stop)) := by
  have hlen := length_extract h hstop
  unfold plainSpan
  split
  · next hnil =>
    rw [List.isEmpty_iff.1 hnil] at hlen
    exact Covers.nil_iff.2 hlen
  · next hnil =>
    refine covers_singleton .default (Nat.lt_of_le_of_ne h fun heq => hnil ?_) hstop
    simp [List.extract_eq_take_drop, heq]

/-- A plain stretch is cut at the first range if that ends inside it, and then goes on behind it. -/
theorem cutPlain_cons {cursor stop : Nat} {p : Nat × Nat} {ranges : List (Nat × Nat)}
    (h₁ : cursor ≤ p.1) (h₂ : p.1 < p.2) (h₃ : cursor ≤ stop) (hstop : stop ≤ text.length) :
    cutPlain cursor (text.extract cursor stop) (p :: ranges) =
      if p.2 ≤ stop then
        (plainSpan cursor (text.extract cursor p.1) ++ keywordSpan text p ::
            (cutPlain p.2 (text.extract p.2 stop) ranges).1,
          (cutPlain p.2 (text.extract p.2 stop) ranges).2)
      else (plainSpan cursor (text.extract cursor stop), p :: ranges) := by
  obtain ⟨first, last⟩ := p
  dsimp only at h₁ h₂ ⊢
  rw [cutPlain, length_extract h₃ hstop]
  by_cases hlast : last ≤ stop
  · have hdrop : (text.extract cursor stop).drop (last - cursor) = text.extract last stop := by
      simp only [List.extract_eq_take_drop, List.drop_take, List.drop_drop]
      congr 1 <;> [omega; (congr 1; omega)]
    have htake : (text.extract cursor stop).take (first - cursor) = text.extract cursor first := by
      simp only [List.extract_eq_take_drop, List.take_take]
      congr 1
      omega
    have hmid : ((text.extract cursor stop).drop (first - cursor)).take (last - first) =
        text.extract first last := by
      simp only [List.extract_eq_take_drop, List.drop_take, List.drop_drop, List.take_take]
      congr 1 <;> [omega; (congr 1; omega)]
    rw [if_pos hlast, if_pos hlast, hdrop, htake, hmid]
    rfl
  · rw [if_neg hlast, if_neg hlast]

variable {cursor stop : Nat} {ranges : List (Nat × Nat)}

/-- The ranges that a plain stretch leaves are those that end behind it. -/
theorem cutPlain_snd (hasc : Ascending ranges) (hcursor : ∀ p ∈ ranges, cursor ≤ p.1)
    (h : cursor ≤ stop) (hstop : stop ≤ text.length) :
    (cutPlain cursor (text.extract cursor stop) ranges).2 =
      ranges.filter fun p => stop < p.2 := by
  induction ranges generalizing cursor with
  | nil => rfl
  | cons p ranges ih =>
    obtain ⟨hp, hlater, hranges⟩ := Ascending.cons_iff.1 hasc
    rw [cutPlain_cons (hcursor p (by simp)) hp h hstop]
    by_cases hlast : p.2 ≤ stop
    · rw [if_pos hlast, List.filter_cons_of_neg (by simpa using hlast)]
      exact ih hranges hlater hlast
    · have hall : ∀ q ∈ ranges, decide (stop < q.2) = true := fun q hq => by
        have := hlater q hq
        have := hranges.nonempty q hq
        exact decide_eq_true (by omega)
      rw [if_neg hlast, List.filter_cons_of_pos (by simpa using hlast),
        List.filter_eq_self.2 hall]

theorem covers_cutPlain (hasc : Ascending ranges) (hcursor : ∀ p ∈ ranges, cursor ≤ p.1)
    (h : cursor ≤ stop) (hstop : stop ≤ text.length) :
    Covers text cursor stop (cutPlain cursor (text.extract cursor stop) ranges).1 := by
  induction ranges generalizing cursor with
  | nil => exact covers_plainSpan h hstop
  | cons p ranges ih =>
    obtain ⟨hp, hlater, hranges⟩ := Ascending.cons_iff.1 hasc
    have hfirst := hcursor p (by simp)
    rw [cutPlain_cons hfirst hp h hstop]
    by_cases hlast : p.2 ≤ stop
    · rw [if_pos hlast]
      have hkey : Covers text p.1 p.2 [keywordSpan text p] :=
        covers_singleton .keyword hp (hlast.trans hstop)
      have hplain : Covers text cursor p.1 (plainSpan cursor (text.extract cursor p.1)) :=
        covers_plainSpan hfirst (by omega)
      exact hplain.append (hkey.append (ih hranges hlater hlast))
    · rw [if_neg hlast]
      exact covers_plainSpan h hstop

theorem kind_of_mem_plainSpan {start : Nat} {cs : List Char} {s : Span}
    (h : s ∈ plainSpan start cs) : s.kind = .default := by
  unfold plainSpan at h
  split at h
  · cases h
  · rw [List.mem_singleton.1 h]

/-- The marked spans of a plain stretch are the keywords that end inside it. -/
theorem mem_cutPlain_iff (hasc : Ascending ranges) (hcursor : ∀ p ∈ ranges, cursor ≤ p.1)
    (h : cursor ≤ stop) (hstop : stop ≤ text.length) {s : Span} (hs : s.kind ≠ .default) :
    s ∈ (cutPlain cursor (text.extract cursor stop) ranges).1 ↔
      ∃ p ∈ ranges, p.2 ≤ stop ∧ s = keywordSpan text p := by
  have hplain : ∀ start cs, s ∉ plainSpan start cs := fun _ _ hm => hs (kind_of_mem_plainSpan hm)
  induction ranges generalizing cursor with
  | nil => simp [cutPlain, hplain]
  | cons p ranges ih =>
    obtain ⟨hp, hlater, hranges⟩ := Ascending.cons_iff.1 hasc
    rw [cutPlain_cons (hcursor p (by simp)) hp h hstop]
    by_cases hlast : p.2 ≤ stop
    · have hrest : s ∈ (cutPlain p.2 (text.extract p.2 stop) ranges).1 ↔
          ∃ q ∈ ranges, q.2 ≤ stop ∧ s = keywordSpan text q := ih hranges hlater hlast
      rw [if_pos hlast, List.mem_append, List.mem_cons, hrest]
      simp [hplain, hlast]
    · rw [if_neg hlast]
      have hnone : ∀ q ∈ p :: ranges, ¬ q.2 ≤ stop := by
        refine List.forall_mem_cons.2 ⟨hlast, ?_⟩
        intro q hq
        have := hlater q hq
        have := hranges.nonempty q hq
        omega
      constructor
      · exact fun hm => absurd hm (hplain _ _)
      · rintro ⟨q, hq, hle, -⟩
        exact absurd hle (hnone q hq)

theorem isChain_plainSpan_append {start : Nat} {cs : List Char} {s : Span} {spans : List Span}
    (hs : s.kind ≠ .default) (h : (s :: spans).IsChain NotBothPlain) :
    (plainSpan start cs ++ s :: spans).IsChain NotBothPlain := by
  unfold plainSpan
  split
  · exact h
  · exact List.isChain_cons_cons.2 ⟨fun hboth => hs hboth.2, h⟩

theorem isChain_cutPlain (hasc : Ascending ranges) (hcursor : ∀ p ∈ ranges, cursor ≤ p.1)
    (h : cursor ≤ stop) (hstop : stop ≤ text.length) :
    (cutPlain cursor (text.extract cursor stop) ranges).1.IsChain NotBothPlain := by
  have hplain : ∀ start cs, (plainSpan start cs).IsChain NotBothPlain := by
    intro start cs
    unfold plainSpan
    split <;> simp
  induction ranges generalizing cursor with
  | nil => exact hplain _ _
  | cons p ranges ih =>
    obtain ⟨hp, hlater, hranges⟩ := Ascending.cons_iff.1 hasc
    rw [cutPlain_cons (hcursor p (by simp)) hp h hstop]
    by_cases hlast : p.2 ≤ stop
    · rw [if_pos hlast]
      refine isChain_plainSpan_append (by simp [keywordSpan]) (List.isChain_cons.2 ⟨?_, ?_⟩)
      · exact fun t _ hboth => by simp [keywordSpan] at hboth
      · exact ih hranges hlater hlast
    · rw [if_neg hlast]
      exact hplain _ _

end Cut

/-! ## Walking over the regions -/

/-- The spans cut plain parts of a text at ranges and keep the others. -/
structure Cuts (text : List Char) (start stop : Nat) (parts : List Span)
    (ranges : List (Nat × Nat)) (spans : List Span) : Prop where
  covers : Covers text start stop spans
  marked : ∀ s, s.kind ≠ .default →
    (s ∈ spans ↔ s ∈ parts ∨ ∃ p ∈ ranges, s = keywordSpan text p)
  plain : ∀ s ∈ spans, s.kind = .default →
    ∃ r ∈ parts, r.kind = .default ∧ r.start ≤ s.start ∧ s.stop ≤ r.stop
  separated : spans.IsChain NotBothPlain

/-- The ranges lie inside plain parts. -/
def InsidePlain (parts : List Span) (ranges : List (Nat × Nat)) : Prop :=
  ∀ p ∈ ranges, ∃ r ∈ parts, r.kind = .default ∧ r.start ≤ p.1 ∧ p.2 ≤ r.stop

theorem cutRegions_of_plain {r : Span} (hk : r.kind = .default) (later : List Span)
    (ranges : List (Nat × Nat)) :
    cutRegions (r :: later) ranges = (cutPlain r.start r.text ranges).1 ++
      cutRegions later (cutPlain r.start r.text ranges).2 := by
  rw [cutRegions, if_pos hk]

section Walk

variable {text : List Char} {start : Nat} {r : Span} {parts later spans : List Span}
  {ranges : List (Nat × Nat)}

theorem InsidePlain.le_start (h : InsidePlain (r :: later) ranges)
    (hcovers : Covers text r.start text.length (r :: later)) : ∀ p ∈ ranges, r.start ≤ p.1 := by
  intro p hp
  obtain ⟨u, hu, -, hle, -⟩ := h p hp
  exact (hcovers.bounds hu).1.trans hle

/-- What a part leaves lies inside a later part, because it ends behind the part. -/
theorem InsidePlain.filter (h : InsidePlain (r :: later) ranges) :
    InsidePlain later (ranges.filter fun p => r.stop < p.2) := by
  intro p hp
  obtain ⟨hp, hbehind⟩ := List.mem_filter.1 hp
  obtain ⟨u, hu, huk, hle, hge⟩ := h p hp
  have hbehind := of_decide_eq_true hbehind
  rcases List.mem_cons.1 hu with rfl | hu
  · omega
  · exact ⟨u, hu, huk, hle, hge⟩

theorem InsidePlain.tail (h : InsidePlain (r :: later) ranges) (hk : r.kind ≠ .default) :
    InsidePlain later ranges := by
  intro p hp
  obtain ⟨u, hu, huk, hin⟩ := h p hp
  rcases List.mem_cons.1 hu with rfl | hu
  · exact absurd huk hk
  · exact ⟨u, hu, huk, hin⟩

/-- A plain part is cut, and what comes behind it begins with a span that is not plain. -/
theorem Cuts.cons_of_plain (h : Cuts text r.stop text.length later
      (ranges.filter fun p => r.stop < p.2) spans)
    (hk : r.kind = .default) (hasc : Ascending ranges) (hcursor : ∀ p ∈ ranges, r.start ≤ p.1)
    (hle : r.start ≤ r.stop) (hstop : r.stop ≤ text.length)
    (hnext : ∀ s ∈ spans.head?, s.kind ≠ .default) :
    Cuts text r.start text.length (r :: later) ranges
      ((cutPlain r.start (text.extract r.start r.stop) ranges).1 ++ spans) := by
  have hplain := covers_cutPlain hasc hcursor hle hstop
  refine ⟨hplain.append h.covers, ?_, ?_,
    List.isChain_append.2 ⟨isChain_cutPlain hasc hcursor hle hstop, h.separated, ?_⟩⟩
  · intro s hs
    have hne : s ≠ r := fun heq => hs (heq ▸ hk)
    rw [List.mem_append, mem_cutPlain_iff hasc hcursor hle hstop hs, h.marked s hs,
      List.mem_cons, or_iff_right hne]
    simp only [List.mem_filter, decide_eq_true_iff]
    constructor
    · rintro (⟨p, hp, -, rfl⟩ | hmem | ⟨p, ⟨hp, -⟩, rfl⟩)
      · exact .inr ⟨p, hp, rfl⟩
      · exact .inl hmem
      · exact .inr ⟨p, hp, rfl⟩
    · rintro (hmem | ⟨p, hp, rfl⟩)
      · exact .inr (.inl hmem)
      · rcases Nat.lt_or_ge r.stop p.2 with hlt | hge
        · exact .inr (.inr ⟨p, ⟨hp, hlt⟩, rfl⟩)
        · exact .inl ⟨p, hp, hge, rfl⟩
  · intro s hs hsk
    rcases List.mem_append.1 hs with hs | hs
    · exact ⟨r, by simp, hk, hplain.bounds hs⟩
    · obtain ⟨u, hu, hin⟩ := h.plain s hs hsk
      exact ⟨u, by simp [hu], hin⟩
  · rintro x - y hy ⟨-, hyk⟩
    exact hnext y hy hyk

/-- A part that is not plain is kept. -/
theorem Cuts.cons_of_not_plain (h : Cuts text r.stop text.length later ranges spans)
    (hk : r.kind ≠ .default) (hcovers : Covers text r.start text.length (r :: later)) :
    Cuts text r.start text.length (r :: later) ranges (r :: spans) := by
  obtain ⟨-, -, hdrop, -⟩ := Covers.cons_iff.1 hcovers
  refine ⟨Covers.cons_iff.2 ⟨rfl, hcovers.nonempty r (by simp), hdrop, h.covers⟩,
    ?_, ?_, List.isChain_cons.2 ⟨?_, h.separated⟩⟩
  · intro s hs
    rw [List.mem_cons, h.marked s hs, List.mem_cons, or_assoc]
  · intro s hs hsk
    rcases List.mem_cons.1 hs with rfl | hs
    · exact absurd hsk hk
    · obtain ⟨u, hu, hin⟩ := h.plain s hs hsk
      exact ⟨u, by simp [hu], hin⟩
  · intro t _ hboth
    exact hk hboth.1

/-- The walk cuts the parts at all ranges, provided that these ascend and lie inside plain parts. -/
theorem cuts_cutRegions (hcovers : Covers text start text.length parts)
    (hsep : parts.IsChain NotBothPlain) (hasc : Ascending ranges)
    (hinside : InsidePlain parts ranges) :
    Cuts text start text.length parts ranges (cutRegions parts ranges) := by
  induction parts generalizing start ranges with
  | nil =>
    have hnone : ranges = [] := List.eq_nil_iff_forall_not_mem.2 fun p hp => by
      obtain ⟨r, hr, -⟩ := hinside p hp
      simp at hr
    subst hnone
    exact ⟨hcovers, by simp [cutRegions], by simp [cutRegions], .nil⟩
  | cons r later ih =>
    have hpos := hcovers.start_lt_stop (s := r) (by simp)
    have hstop := (hcovers.bounds (s := r) (by simp)).2
    have htext := hcovers.text_eq r (by simp)
    obtain ⟨rfl, -, -, hlater⟩ := Covers.cons_iff.1 hcovers
    by_cases hk : r.kind = .default
    · have hcursor := hinside.le_start hcovers
      have hcut := ih hlater hsep.tail (hasc.filter _) hinside.filter
      rw [cutRegions_of_plain hk, htext, cutPlain_snd hasc hcursor hpos.le hstop]
      apply hcut.cons_of_plain hk hasc hcursor hpos.le hstop
      intro s hs hsk
      cases later with
      | nil => simp [cutRegions] at hs
      | cons u later =>
        have hu : u.kind ≠ .default := fun h => (List.isChain_cons_cons.1 hsep).1 ⟨hk, h⟩
        rw [cutRegions, if_neg hu] at hs
        obtain rfl := Option.some.inj hs
        exact hu hsk
    · have hcut := ih hlater hsep.tail hasc (hinside.tail hk)
      rw [cutRegions, if_neg hk]
      exact hcut.cons_of_not_plain hk hcovers

end Walk

/-! ## The highlighted spans -/

theorem cuts_highlight (text : List Char) (keywords : List String) :
    Cuts text 0 text.length (regions text)
      (keywordRanges text ((regions text).map Span.extent) keywords) (highlight text keywords) := by
  have htok := tokenises_regions text
  apply cuts_cutRegions htok.covers htok.separated (ascending_keywordRanges text _ keywords)
  intro p hp
  obtain ⟨run, hword, hstop, -, r, hr, hk, h₁, h₂⟩ := (mem_keywordRanges_iff text keywords p).1 hp
  exact ⟨r, hr, hk, h₁, hstop ▸ hword.stop_le hr h₂⟩

/-- No region is a keyword. -/
theorem kind_ne_keyword_of_mem_regions {text : List Char} {r : Span} (hr : r ∈ regions text) :
    r.kind ≠ .keyword := by
  intro hk
  have htoken := (tokenises_regions text).tokens r hr
  rw [hk] at htoken
  exact htoken

theorem IsWordRun.extract_eq {text run : List Char} {i : Nat} (h : IsWordRun text i run) :
    text.extract i (i + run.length) = run := by
  obtain ⟨before, after, rfl, rfl, -⟩ := h
  simp [List.extract_eq_take_drop]

/-- The highlighted spans are a classification. -/
theorem classifies_highlight (text : List Char) (keywords : List String) :
    Classifies text keywords (highlight text keywords) := by
  have hcuts := cuts_highlight text keywords
  refine ⟨hcuts.covers, ?_, ?_, hcuts.plain, hcuts.separated⟩
  · intro s hs hkey
    rw [hcuts.marked s hs]
    refine or_iff_left ?_
    rintro ⟨p, -, rfl⟩
    exact hkey rfl
  · intro s hs
    rw [hcuts.marked s (by simp [hs]),
      or_iff_right fun hr => kind_ne_keyword_of_mem_regions hr hs]
    constructor
    · rintro ⟨p, hp, rfl⟩
      obtain ⟨run, hword, hstop, hin⟩ := (mem_keywordRanges_iff text keywords p).1 hp
      have hrun : (keywordSpan text p).text = run := by
        rw [keywordSpan, hstop, hword.extract_eq]
      rw [hrun]
      exact ⟨hword, hin⟩
    · rintro ⟨hword, hin⟩
      refine ⟨(s.start, s.stop), (mem_keywordRanges_iff ..).2 ⟨s.text, hword, rfl, hin⟩, ?_⟩
      rw [keywordSpan, Span.stop, hword.extract_eq, ← hs]

/-- **The highlighted spans are the classification of the text**, the only one, and no maximal word
run crosses the boundary of a region. -/
theorem highlight_eq_iff (text : List Char) (keywords : List String) :
    (∀ spans, highlight text keywords = spans ↔ Classifies text keywords spans) ∧
      ∀ i run, IsWordRun text i run →
        ∃ r ∈ regions text, r.start ≤ i ∧ i + run.length ≤ r.stop := by
  refine ⟨fun spans => ⟨?_, ?_⟩, ?_⟩
  · rintro rfl
    exact classifies_highlight text keywords
  · intro h
    have hown := classifies_highlight text keywords
    apply hown.covers.eq_of_mem_iff h.covers hown.separated h.separated
    intro s hs
    by_cases hkey : s.kind = .keyword
    · rw [hown.keyword s hkey, h.keyword s hkey]
    · rw [hown.kept s hs hkey, h.kept s hs hkey]
  · intro i run h
    have hcovers := (tokenises_regions text).covers
    have hpos := h.length_pos
    have hend := h.stop_le_length
    obtain ⟨r, hr, h₁, h₂⟩ := hcovers.exists_mem (Nat.zero_le i) (by omega)
    exact ⟨r, hr, h₁, h.stop_le hr h₂⟩

end ClassBrowser.Source
