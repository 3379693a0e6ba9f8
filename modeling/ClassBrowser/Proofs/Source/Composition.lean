import ClassBrowser.Proofs.Source.Classification

/-!
# Texts put together

Where the last region of a text is a string or a comment that is over (`EndsClosed`), what comes
behind the text changes nothing in front of the seam, and is itself classified as if it stood alone
(`append_of_endsClosed`).

Nothing reaches over the seam.  A string or a comment would if it were open, but the last region is
closed.  The end of plain text depends on one more character, but the last region lies between it
and the seam (`IsToken.append`).  A word run would go on if there were a word character on both
sides, but what closes a region is none (`isWordRun_append_iff`).
-/

namespace ClassBrowser.Source

variable {text more : List Char} {keywords : List String} {start stop : Nat} {s : Span}
  {spans rest : List Span} {kind : Kind} {t after : List Char}

/-! ## Spans later in a text -/

/-- The span, `n` characters later. -/
def Span.shift (n : Nat) (s : Span) : Span := ⟨s.kind, n + s.start, s.text⟩

@[simp] theorem Span.kind_shift (n : Nat) (s : Span) : (s.shift n).kind = s.kind := rfl

@[simp] theorem Span.start_shift (n : Nat) (s : Span) : (s.shift n).start = n + s.start := rfl

@[simp] theorem Span.text_shift (n : Nat) (s : Span) : (s.shift n).text = s.text := rfl

@[simp] theorem Span.stop_shift (n : Nat) (s : Span) : (s.shift n).stop = n + s.stop :=
  Nat.add_assoc n s.start s.text.length

namespace Covers

theorem append_text (h : Covers text start stop spans) (hstop : stop ≤ text.length)
    (more : List Char) : Covers (text ++ more) start stop spans := by
  refine ⟨h.contiguous, ?_, h.nonempty⟩
  intro s hs
  have hpos := h.start_lt_stop hs
  have hend := (h.bounds hs).2
  rw [text_eq_extract_iff, List.drop_append_of_le_length (by omega),
    List.drop_append_of_le_length (by omega), (text_eq_extract_iff text s).1 (h.text_eq s hs),
    List.append_assoc]

theorem shift (h : Covers more start stop spans) (text : List Char) :
    Covers (text ++ more) (text.length + start) (text.length + stop)
      (spans.map (Span.shift text.length)) := by
  induction spans generalizing start with
  | nil => exact nil_iff.2 (congrArg (text.length + ·) (nil_iff.1 h))
  | cons s spans ih =>
    obtain ⟨rfl, hne, htext, hrest⟩ := cons_iff.1 h
    refine cons_iff.2 ⟨rfl, hne, ?_, ?_⟩
    · rw [Span.start_shift, Span.stop_shift, List.drop_length_add_append,
        List.drop_length_add_append]
      exact htext
    · rw [Span.stop_shift]
      exact ih hrest

/-- What covers two texts covers them one behind the other. -/
theorem append_texts (h : Covers text 0 text.length spans) (hr : Covers more 0 more.length rest) :
    Covers (text ++ more) 0 (text ++ more).length (spans ++ rest.map (Span.shift text.length)) := by
  rw [List.length_append]
  exact (h.append_text le_rfl more).append (hr.shift text)

theorem stop_of_getLast? (h : Covers text start stop spans) (hlast : spans.getLast? = some s) :
    s.stop = stop := by
  obtain ⟨init, rfl⟩ := List.getLast?_eq_some_iff.1 hlast
  have hpos := h.start_lt_stop (s := s) (by simp)
  obtain ⟨hstart, hend⟩ := h.bounds (s := s) (by simp)
  refine hend.antisymm (Nat.le_of_not_lt fun hlt => ?_)
  -- the span behind the last one would have to lie in front of it
  obtain ⟨u, hu, h₁, h₂⟩ := h.exists_mem (by omega : start ≤ s.stop) hlt
  obtain hu | hu := List.mem_append.1 hu
  · have := (List.pairwise_append.1 h.pairwise).2.2 u hu s (by simp)
    omega
  · obtain rfl := List.mem_singleton.1 hu
    omega

theorem getLast?_eq_some (h : Covers text start stop spans) (hs : s ∈ spans)
    (hstop : s.stop = stop) : spans.getLast? = some s := by
  have hlast := List.getLast?_eq_some_getLast (List.ne_nil_of_mem hs)
  have hmem := List.getLast_mem (List.ne_nil_of_mem hs)
  have hend := h.stop_of_getLast? hlast
  have hpos := h.start_lt_stop hs
  have hpos' := h.start_lt_stop hmem
  rw [hlast, h.eq_of_mem (i := stop - 1) hmem hs ⟨by omega, by omega⟩ ⟨by omega, by omega⟩]

end Covers

theorem isChain_append_shift (h : spans.IsChain NotBothPlain) (hr : rest.IsChain NotBothPlain)
    (hlast : spans.getLast? = some s) (hs : s.kind ≠ .default) (n : Nat) :
    (spans ++ rest.map (Span.shift n)).IsChain NotBothPlain := by
  refine List.isChain_append.2 ⟨h, (List.isChain_map _).2 hr, ?_⟩
  rintro t ht u - ⟨hk, -⟩
  obtain rfl := Option.some.inj (hlast.symm.trans ht)
  exact hs hk

/-! ## Regions that are over -/

/-- A string or a comment that is over, whatever comes behind it. -/
def IsClosed : Kind → List Char → Prop
  | .string, t => 2 ≤ t.length ∧ t.getLast? = t.head?
  | .lineComment, t => t.getLast? = some '\n'
  | .blockComment, t => 4 ≤ t.length ∧ ['*', '/'] <:+ t
  | .default, _ => False
  | .keyword, _ => False

/-- The last region of a text is a string or a comment that is over. -/
def EndsClosed (text : List Char) : Prop :=
  ∃ s, (regions text).getLast? = some s ∧ IsClosed s.kind s.text

theorem IsClosed.ne_default (h : IsClosed kind t) : kind ≠ .default := by
  rintro rfl
  exact h

/-- Two characters decide what begins at the start of a text. -/
theorem opens_append_iff {cs : List Char} (h : 2 ≤ cs.length) (more : List Char) :
    Opens (cs ++ more) ↔ Opens cs := by
  have hbegins : ∀ p : List Char, p.length ≤ 2 → (p <+: cs ++ more ↔ p <+: cs) :=
    fun p hp => List.isPrefix_append_of_length (hp.trans h)
  simp only [Opens, hbegins ['/', '/'] le_rfl, hbegins ['/', '*'] le_rfl,
    hbegins [_] (Nat.le_succ 1)]

theorem IsPlain.append (h : IsPlain t after) (hne : after ≠ []) (more : List Char) :
    IsPlain t (after ++ more) := by
  intro i hi
  have hlen := List.length_pos_iff.2 hne
  have hafter : i ≤ (t ++ after).length := by
    rw [List.length_append]
    omega
  rw [← List.append_assoc, List.drop_append_of_le_length hafter, opens_append_iff]
  · exact h i hi
  · rw [List.length_drop, List.length_append]
    omega

/-- A token stays one when more comes behind it, if it is closed or something stood there before. -/
theorem IsToken.append (h : IsToken kind t after) (hclosed : after = [] → IsClosed kind t)
    (more : List Char) : IsToken kind t (after ++ more) := by
  cases kind with
  | string =>
    obtain ⟨q, hq, hhead, hinside, hend⟩ := id h
    refine ⟨q, hq, hhead, hinside, fun _ => ?_⟩
    by_cases hafter : after = []
    · obtain ⟨hlen, hlast⟩ := hclosed hafter
      exact ⟨hlen, hlast.trans hhead⟩
    · exact hend hafter
  | lineComment =>
    obtain ⟨hopen, hinside, hend⟩ := id h
    refine ⟨hopen, hinside, fun _ => ?_⟩
    by_cases hafter : after = []
    · exact hclosed hafter
    · exact hend hafter
  | blockComment =>
    obtain ⟨hopen, hinside, hend⟩ := id h
    refine ⟨hopen, hinside, fun _ => ?_⟩
    by_cases hafter : after = []
    · exact hclosed hafter
    · exact hend hafter
  | default => exact IsPlain.append h hclosed more
  | keyword => exact absurd h id

/-! ## The regions of both -/

theorem Tokenises.append (h : Tokenises text 0 spans) (hr : Tokenises more 0 rest)
    (hlast : spans.getLast? = some s) (hclosed : IsClosed s.kind s.text) :
    Tokenises (text ++ more) 0 (spans ++ rest.map (Span.shift text.length)) := by
  refine ⟨h.covers.append_texts hr.covers, ?_,
    isChain_append_shift h.separated hr.separated hlast hclosed.ne_default _⟩
  intro t ht
  obtain ht | ht := List.mem_append.1 ht
  · have hle := (h.covers.bounds ht).2
    rw [List.drop_append_of_le_length hle]
    refine (h.tokens t ht).append ?_ more
    intro hnil
    have hstop : t.stop = text.length := hle.antisymm (List.drop_eq_nil_iff.1 hnil)
    obtain rfl := Option.some.inj (hlast.symm.trans (h.covers.getLast?_eq_some ht hstop))
    exact hclosed
  · obtain ⟨u, hu, rfl⟩ := List.mem_map.1 ht
    rw [Span.stop_shift, List.drop_length_add_append]
    exact hr.tokens u hu

theorem regions_append (h : EndsClosed text) (more : List Char) :
    regions (text ++ more) = regions text ++ (regions more).map (Span.shift text.length) := by
  obtain ⟨s, hlast, hclosed⟩ := h
  exact ((tokenises_regions text).append (tokenises_regions more) hlast hclosed).regionsFrom_eq

/-! ## The keywords of both -/

theorem EndsClosed.not_isWord_last (h : EndsClosed text) :
    ∀ c ∈ text.getLast?, Text.isWord c = false := by
  obtain ⟨s, hlast, hclosed⟩ := h
  have htok := tokenises_regions text
  have hs := List.mem_of_getLast? hlast
  have hstop := htok.covers.stop_of_getLast? hlast
  -- the closed region is a token also in front of one more character
  have htoken := (htok.tokens s hs).append (fun _ => hclosed) ['x']
  obtain ⟨c, hc, hno⟩ := htoken.not_isWord_last hclosed.ne_default (by simp)
  have htext := (text_eq_extract_iff text s).1 (htok.covers.text_eq s hs)
  rw [hstop, List.drop_length, List.append_nil] at htext
  have hend : text.getLast? = some c := by
    rw [← List.take_append_drop s.start text, htext, List.getLast?_append, hc]
    rfl
  intro d hd
  obtain rfl := Option.some.inj (hend.symm.trans hd)
  exact hno

section Seam

variable {i j : Nat} {run : List Char}

theorem IsWordRun.append_text (h : IsWordRun text i run)
    (hseam : ∀ c ∈ text.getLast?, Text.isWord c = false) (more : List Char) :
    IsWordRun (text ++ more) i run := by
  obtain ⟨before, after, rfl, rfl, hne, hword, hbefore, hafter⟩ := h
  refine ⟨before, after ++ more, by simp, rfl, hne, hword, hbefore, ?_⟩
  intro c hc
  cases after with
  | nil =>
    -- the run would end with the last character of the text
    have hno := hseam (run.getLast hne) (by
      simp [List.getLast?_append, List.getLast?_eq_some_getLast hne])
    rw [hword _ (List.getLast_mem hne)] at hno
    cases hno
  | cons d after => exact hafter c hc

theorem IsWordRun.shift (h : IsWordRun more j run)
    (hseam : ∀ c ∈ text.getLast?, Text.isWord c = false) :
    IsWordRun (text ++ more) (text.length + j) run := by
  obtain ⟨before, after, rfl, rfl, hne, hword, hbefore, hafter⟩ := h
  refine ⟨text ++ before, after, by simp, List.length_append, hne, hword, ?_, hafter⟩
  intro c hc
  rw [List.getLast?_append, Option.mem_def, Option.or_eq_some_iff] at hc
  obtain hc | ⟨-, hc⟩ := hc
  · exact hbefore c hc
  · exact hseam c hc

/-- Where no word character is in front of the seam, the runs are those of both sides. -/
theorem isWordRun_append_iff (hseam : ∀ c ∈ text.getLast?, Text.isWord c = false) :
    IsWordRun (text ++ more) i run ↔
      IsWordRun text i run ∨ ∃ j, i = text.length + j ∧ IsWordRun more j run := by
  constructor
  · rintro ⟨before, after, happend, rfl, hne, hword, hbefore, hafter⟩
    rw [List.append_assoc, List.append_eq_append_iff] at happend
    obtain ⟨between, rfl, rfl⟩ | ⟨behind, rfl, hbehind⟩ := happend
    · refine .inr ⟨between.length, List.length_append, between, after,
        (List.append_assoc ..).symm, rfl, hne, hword, ?_, hafter⟩
      intro c hc
      refine hbefore c ?_
      rw [List.getLast?_append, Option.mem_def.1 hc]
      rfl
    · obtain ⟨between, rfl, rfl⟩ | ⟨later, rfl, rfl⟩ := List.append_eq_append_iff.1 hbehind
      · refine .inl ⟨before, between, (List.append_assoc ..).symm, rfl, hne, hword, hbefore, ?_⟩
        intro c hc
        refine hafter c ?_
        rw [List.head?_append, Option.mem_def.1 hc]
        rfl
      · obtain rfl | ⟨init, c, rfl⟩ := behind.eq_nil_or_concat'
        · exact .inr ⟨0, by simp, [], after, rfl, rfl, hne, hword, nofun, hafter⟩
        · -- the run would hold the last character of the first text
          have hno := hseam c (by simp)
          rw [hword c (by simp)] at hno
          cases hno
  · rintro (h | ⟨j, rfl, h⟩)
    · exact h.append_text hseam more
    · exact h.shift hseam

end Seam

theorem mem_keywordRanges_append_iff (h : EndsClosed text) (p : Nat × Nat) :
    p ∈ keywordRanges (text ++ more) ((regions (text ++ more)).map Span.extent) keywords ↔
      p ∈ keywordRanges text ((regions text).map Span.extent) keywords ∨
        ∃ q ∈ keywordRanges more ((regions more).map Span.extent) keywords,
          p = (text.length + q.1, text.length + q.2) := by
  simp only [mem_keywordRanges_iff]
  simp only [regions_append h, isWordRun_append_iff h.not_isWord_last]
  constructor
  · rintro ⟨run, hword | ⟨j, hj, hword⟩, hstop, hkey, r, hr, hk, h₁, h₂⟩
    · obtain hr | hr := List.mem_append.1 hr
      · exact .inl ⟨run, hword, hstop, hkey, r, hr, hk, h₁, h₂⟩
      · obtain ⟨u, -, rfl⟩ := List.mem_map.1 hr
        have := hword.stop_le_length
        have := hword.length_pos
        rw [Span.start_shift] at h₁
        omega
    · obtain hr | hr := List.mem_append.1 hr
      · have := ((tokenises_regions text).covers.bounds hr).2
        omega
      · obtain ⟨u, hu, rfl⟩ := List.mem_map.1 hr
        rw [Span.start_shift] at h₁
        rw [Span.stop_shift] at h₂
        refine .inr ⟨(j, j + run.length), ⟨run, hword, rfl, hkey, u, hu, hk, ?_, ?_⟩, ?_⟩
        · show u.start ≤ j
          omega
        · show j < u.stop
          omega
        · rw [← Nat.add_assoc, ← hj, ← hstop]
  · rintro (⟨run, hword, hstop, hkey, r, hr, hin⟩ |
      ⟨q, ⟨run, hword, hstop, hkey, r, hr, hk, h₁, h₂⟩, rfl⟩)
    · exact ⟨run, .inl hword, hstop, hkey, r, List.mem_append_left _ hr, hin⟩
    · refine ⟨run, .inr ⟨q.1, rfl, hword⟩, ?_, hkey, r.shift text.length,
        List.mem_append_right _ (List.mem_map_of_mem hr), hk, ?_, ?_⟩
      · simp only [hstop, Nat.add_assoc]
      · simpa using h₁
      · simpa using h₂

theorem keywordSpan_append_left {p : Nat × Nat} (h : p.1 ≤ p.2) (hstop : p.2 ≤ text.length)
    (more : List Char) : keywordSpan (text ++ more) p = keywordSpan text p := by
  simp only [keywordSpan, List.extract_eq_take_drop]
  rw [List.drop_append_of_le_length (by omega), List.take_append_of_le_length]
  rw [List.length_drop]
  omega

theorem keywordSpan_append_right (text more : List Char) (p : Nat × Nat) :
    keywordSpan (text ++ more) (text.length + p.1, text.length + p.2) =
      (keywordSpan more p).shift text.length := by
  simp only [keywordSpan, Span.shift, List.extract_eq_take_drop, List.drop_length_add_append,
    Nat.add_sub_add_left]

theorem highlight_append (h : EndsClosed text) (more : List Char) (keywords : List String) :
    highlight (text ++ more) keywords =
      highlight text keywords ++ (highlight more keywords).map (Span.shift text.length) := by
  have hall := cuts_highlight (text ++ more) keywords
  have hfront := cuts_highlight text keywords
  have hback := cuts_highlight more keywords
  obtain ⟨s, hlast, hclosed⟩ := id h
  have hend : (highlight text keywords).getLast? = some s :=
    hfront.covers.getLast?_eq_some
      ((hfront.marked s hclosed.ne_default).2 (.inl (List.mem_of_getLast? hlast)))
      ((tokenises_regions text).covers.stop_of_getLast? hlast)
  apply hall.covers.eq_of_mem_iff (hfront.covers.append_texts hback.covers) hall.separated
    (isChain_append_shift hfront.separated hback.separated hend hclosed.ne_default _)
  intro u hu
  simp only [hall.marked u hu, mem_keywordRanges_append_iff h]
  rw [regions_append h, List.mem_append, List.mem_map, List.mem_append, hfront.marked u hu,
    List.mem_map]
  have hleft : ∀ p ∈ keywordRanges text ((regions text).map Span.extent) keywords,
      keywordSpan (text ++ more) p = keywordSpan text p := by
    intro p hp
    obtain ⟨run, hword, hstop, -⟩ := (mem_keywordRanges_iff text keywords p).1 hp
    have := hword.stop_le_length
    exact keywordSpan_append_left (by omega) (by omega) more
  constructor
  · rintro ((hmem | ⟨v, hv, rfl⟩) | ⟨p, hp | ⟨q, hq, rfl⟩, rfl⟩)
    · exact .inl (.inl hmem)
    · exact .inr ⟨v, (hback.marked v hu).2 (.inl hv), rfl⟩
    · exact .inl (.inr ⟨p, hp, hleft p hp⟩)
    · have hmem := (hback.marked (keywordSpan more q) hu).2 (.inr ⟨q, hq, rfl⟩)
      exact .inr ⟨_, hmem, (keywordSpan_append_right text more q).symm⟩
  · rintro ((hmem | ⟨p, hp, rfl⟩) | ⟨v, hv, rfl⟩)
    · exact .inl (.inl hmem)
    · exact .inr ⟨p, .inl hp, (hleft p hp).symm⟩
    · obtain hv | ⟨q, hq, rfl⟩ := (hback.marked v hu).1 hv
      · exact .inl (.inr ⟨v, hv, rfl⟩)
      · exact .inr ⟨_, .inr ⟨q, hq, rfl⟩, (keywordSpan_append_right text more q).symm⟩

/-- **Highlighting is compositional at closed regions.**  Behind a text whose last region is a
string or a comment that is over, whatever follows is classified as if it stood alone. -/
theorem append_of_endsClosed (h : EndsClosed text) (more : List Char) :
    regions (text ++ more) = regions text ++ (regions more).map (Span.shift text.length) ∧
      ∀ keywords, highlight (text ++ more) keywords =
        highlight text keywords ++ (highlight more keywords).map (Span.shift text.length) :=
  ⟨regions_append h more, highlight_append h more⟩

theorem append_of_endsClosed_sample :
    EndsClosed "int\x22a\x22".toList ∧
      highlight ("int\x22a\x22".toList ++ "int*/".toList) ["int"] =
        [⟨.keyword, 0, "int".toList⟩, ⟨.string, 3, "\x22a\x22".toList⟩,
          ⟨.keyword, 6, "int".toList⟩, ⟨.default, 9, "*/".toList⟩] := by
  have h : EndsClosed "int\x22a\x22".toList :=
    ⟨⟨.string, 3, "\x22a\x22".toList⟩, by decide +kernel, by cbv⟩
  refine ⟨h, ?_⟩
  rw [(append_of_endsClosed h "int*/".toList).2 ["int"]]
  decide +kernel

-- a block comment that is closed by its own opening mark is not over
example : ¬ IsClosed .blockComment "/*/".toList := by
  simp [IsClosed]

end ClassBrowser.Source
