import ClassBrowser.Proofs.Source.WordRuns

/-!
# Keywords inside plain extents

A keyword that counts is a maximal run that is in the list of keywords and lies inside one plain
extent (`IsKeywordInside`).  The search for them looks at a single extent for each run, the one that
halving leads to.  Whatever the extents are, what it reports counts, and is reported in order; and
where the plain extents are in order it misses nothing (`keywordRanges_spec`): those in front of the
one that holds a run start before the run, and those behind it start behind the run.

The regions of a text are in order, and no run crosses their boundaries, so a keyword lies inside a
plain region as soon as it begins there (`mem_keywordRanges_iff`).
-/

namespace ClassBrowser.Source

variable {text : List Char} {extents plain : List Extent} {keywords : List String} {e : Extent}
  {start length : Nat} {p : Nat × Nat}

/-! ## Extents in order -/

/-- Extents that follow one another: none ends before it starts or behind the start of the next. -/
structure InOrder (extents : List Extent) : Prop where
  proper : ∀ e ∈ extents, e.start ≤ e.stop
  chain : extents.IsChain fun e f => e.stop ≤ f.start

theorem InOrder.pairwise (h : InOrder extents) :
    extents.Pairwise fun e f => e.stop ≤ f.start := by
  induction extents with
  | nil => exact .nil
  | cons e rest ih =>
    obtain ⟨hnext, hchain⟩ := List.isChain_cons.1 h.chain
    obtain ⟨-, hproper⟩ := List.forall_mem_cons.1 h.proper
    have hrest := ih ⟨hproper, hchain⟩
    refine List.pairwise_cons.2 ⟨?_, hrest⟩
    intro f hf
    cases rest with
    | nil => cases hf
    | cons g rest =>
      have hg : e.stop ≤ g.start := hnext g rfl
      obtain rfl | hf := List.mem_cons.1 hf
      · exact hg
      · have hgf := (List.pairwise_cons.1 hrest).1 f hf
        have := hproper g (by simp)
        omega

theorem rel_of_getElem? {α : Type} {R : α → α → Prop} {l : List α} (h : l.Pairwise R) {i j : Nat}
    {x y : α} (hij : i < j) (hx : l[i]? = some x) (hy : l[j]? = some y) : R x y := by
  obtain ⟨hi, rfl⟩ := List.getElem?_eq_some_iff.1 hx
  obtain ⟨hj, rfl⟩ := List.getElem?_eq_some_iff.1 hy
  exact List.pairwise_iff_getElem.1 h i j hi hj hij

/-! ## The halving search -/

/-- The halving search gives the extent that starts last among those not behind the position. -/
theorem lastStartingBy_eq {plain : Array Extent} {position m : Nat}
    (he : plain[m]? = some e) (below : ∀ i x, i ≤ m → plain[i]? = some x → x.start ≤ position)
    (above : ∀ i x, m < i → plain[i]? = some x → (position : Int) < x.start) :
    lastStartingBy plain position = some e := by
  have hcount : Bisect.countUpTo (plain.map Extent.start) position = m + 1 := by
    refine Bisect.countUpTo_eq ?_ ?_ ?_
    · rw [Array.size_map]
      exact (Array.getElem?_eq_some_iff.1 he).1
    · intro i y hi hy
      rw [Array.getElem?_map, Option.map_eq_some_iff] at hy
      obtain ⟨x, hx, rfl⟩ := hy
      exact below i x (by omega) hx
    · intro i y hi hy
      rw [Array.getElem?_map, Option.map_eq_some_iff] at hy
      obtain ⟨x, hx, rfl⟩ := hy
      exact above i x (by omega) hx
  rw [lastStartingBy, hcount]
  exact he

theorem mem_of_lastStartingBy {plain : Array Extent} {position : Nat}
    (h : lastStartingBy plain position = some e) : e ∈ plain := by
  unfold lastStartingBy at h
  split at h
  · cases h
  · exact Array.mem_of_getElem? h

/-- In any order, the search succeeds only for stretches that lie inside one of the extents. -/
theorem exists_of_insidePlain (h : insidePlain plain.toArray start length = true) :
    ∃ e ∈ plain, e.start ≤ start ∧ ((start + length : Nat) : Int) ≤ e.stop := by
  unfold insidePlain at h
  split at h
  · cases h
  · next e he => exact ⟨e, by simpa using mem_of_lastStartingBy he, of_decide_eq_true h⟩

/-- Among extents in order the search finds the one that a stretch lies inside of. -/
theorem InOrder.lastStartingBy_eq (h : InOrder plain) (he : e ∈ plain) (hstart : e.start ≤ start)
    (hstop : (start : Int) < e.stop) : lastStartingBy plain.toArray start = some e := by
  obtain ⟨m, hm⟩ := List.mem_iff_getElem?.1 he
  refine Source.lastStartingBy_eq (m := m) (by simpa using hm) ?_ ?_
  · intro i x hi hx
    rw [List.getElem?_toArray] at hx
    obtain rfl | hlt := hi.eq_or_lt
    · obtain rfl : e = x := Option.some.inj (hm.symm.trans hx)
      exact hstart
    · have hle := rel_of_getElem? h.pairwise hlt hx hm
      have := h.proper x (List.mem_of_getElem? hx)
      omega
  · intro i x hi hx
    rw [List.getElem?_toArray] at hx
    have hle := rel_of_getElem? h.pairwise hi hm hx
    omega

/-! ## Keywords -/

/-- The bounds of a keyword of a text that lies inside a plain extent. -/
def IsKeywordInside (text : List Char) (extents : List Extent) (keywords : List String)
    (p : Nat × Nat) : Prop :=
  ∃ run, IsWordRun text p.1 run ∧ p.2 = p.1 + run.length ∧ String.ofList run ∈ keywords ∧
    ∃ e ∈ extents, e.kind = .default ∧ e.start ≤ p.1 ∧ (p.2 : Int) ≤ e.stop

theorem mem_plain_iff :
    e ∈ extents.filter (·.kind == .default) ↔ e ∈ extents ∧ e.kind = .default := by
  rw [List.mem_filter, beq_iff_eq]

theorem mem_keywordRanges_iff_search : p ∈ keywordRanges text extents keywords ↔
    ∃ run, IsWordRun text p.1 run ∧ p.2 = p.1 + run.length ∧ String.ofList run ∈ keywords ∧
      insidePlain (extents.filter (·.kind == .default)).toArray p.1 run.length = true := by
  simp only [keywordRanges, List.mem_filterMap, Prod.exists, Option.ite_none_right_eq_some,
    Bool.and_eq_true, List.contains_iff_mem, Option.some.injEq, mem_wordRuns_iff]
  constructor
  · rintro ⟨i, run, hword, ⟨hkey, hplain⟩, rfl⟩
    exact ⟨run, hword, rfl, hkey, hplain⟩
  · rintro ⟨run, hword, hstop, hkey, hplain⟩
    exact ⟨p.1, run, hword, ⟨hkey, hplain⟩, by rw [← hstop]⟩

theorem isKeywordInside_of_mem (h : p ∈ keywordRanges text extents keywords) :
    IsKeywordInside text extents keywords p := by
  obtain ⟨run, hword, hstop, hkey, hplain⟩ := mem_keywordRanges_iff_search.1 h
  obtain ⟨e, he, h₁, h₂⟩ := exists_of_insidePlain hplain
  obtain ⟨he, hk⟩ := mem_plain_iff.1 he
  exact ⟨run, hword, hstop, hkey, e, he, hk, h₁, hstop ▸ h₂⟩

theorem InOrder.mem_keywordRanges (h : InOrder (extents.filter (·.kind == .default)))
    (hp : IsKeywordInside text extents keywords p) : p ∈ keywordRanges text extents keywords := by
  obtain ⟨run, hword, hstop, hkey, e, he, hk, h₁, h₂⟩ := hp
  have hpos := hword.length_pos
  have hlast := h.lastStartingBy_eq (mem_plain_iff.2 ⟨he, hk⟩) h₁ (by omega)
  refine mem_keywordRanges_iff_search.2 ⟨run, hword, hstop, hkey, ?_⟩
  simp only [insidePlain, hlast, ← hstop]
  exact decide_eq_true ⟨h₁, h₂⟩

/-- Ranges that follow one another: each is not empty and ends before the next one begins. -/
structure Ascending (ranges : List (Nat × Nat)) : Prop where
  nonempty : ∀ p ∈ ranges, p.1 < p.2
  pairwise : ranges.Pairwise fun p q => p.2 ≤ q.1

theorem Ascending.cons_iff {p : Nat × Nat} {ranges : List (Nat × Nat)} :
    Ascending (p :: ranges) ↔ p.1 < p.2 ∧ (∀ q ∈ ranges, p.2 ≤ q.1) ∧ Ascending ranges := by
  constructor
  · rintro ⟨hne, hpair⟩
    obtain ⟨hp, hranges⟩ := List.forall_mem_cons.1 hne
    obtain ⟨hlater, hpairs⟩ := List.pairwise_cons.1 hpair
    exact ⟨hp, hlater, hranges, hpairs⟩
  · rintro ⟨hp, hlater, hne, hpair⟩
    exact ⟨List.forall_mem_cons.2 ⟨hp, hne⟩, List.pairwise_cons.2 ⟨hlater, hpair⟩⟩

theorem Ascending.filter {ranges : List (Nat × Nat)} (h : Ascending ranges)
    (keep : Nat × Nat → Bool) : Ascending (ranges.filter keep) :=
  ⟨fun p hp => h.nonempty p (List.mem_of_mem_filter hp), h.pairwise.filter keep⟩

theorem ascending_keywordRanges (text : List Char) (extents : List Extent)
    (keywords : List String) : Ascending (keywordRanges text extents keywords) := by
  refine ⟨?_, ?_⟩
  · intro p hp
    obtain ⟨run, hword, hstop, -⟩ := isKeywordInside_of_mem hp
    have := hword.length_pos
    omega
  · apply (pairwise_wordRunsFrom 0 text).2.filterMap _
    intro r s hle p hp q hq
    obtain ⟨-, hp⟩ := Option.ite_none_right_eq_some.1 hp
    obtain ⟨-, hq⟩ := Option.ite_none_right_eq_some.1 hq
    obtain rfl := Option.some.inj hp
    obtain rfl := Option.some.inj hq
    exact hle

/-- **What the search for keywords finds.**  On any extents, only keywords inside plain ones, each
behind the one before; on plain extents that are in order, all of them. -/
theorem keywordRanges_spec (text : List Char) (extents : List Extent) (keywords : List String) :
    (∀ p ∈ keywordRanges text extents keywords, IsKeywordInside text extents keywords p) ∧
      Ascending (keywordRanges text extents keywords) ∧
      (InOrder (extents.filter (·.kind == .default)) → ∀ p,
        p ∈ keywordRanges text extents keywords ↔ IsKeywordInside text extents keywords p) :=
  ⟨fun _ => isKeywordInside_of_mem, ascending_keywordRanges text extents keywords,
    fun h _ => ⟨isKeywordInside_of_mem, h.mem_keywordRanges⟩⟩

theorem keywordRanges_spec_sample :
    let text := "int x, int".toList
    let extents := [⟨.default, -2, 0⟩, ⟨.default, 0, 0⟩, ⟨.default, 0, 3⟩, ⟨.string, 3, 6⟩,
      ⟨.default, 6, 10⟩]
    InOrder (extents.filter (·.kind == .default)) ∧
      (∀ p, p ∈ keywordRanges text extents ["int"] ↔ IsKeywordInside text extents ["int"] p) ∧
      keywordRanges text extents ["int"] = [(0, 3), (7, 10)] := by
  intro text extents
  have h : InOrder (extents.filter (·.kind == .default)) :=
    ⟨by simp [extents], by simp [extents]⟩
  refine ⟨h, (keywordRanges_spec text extents ["int"]).2.2 h, ?_⟩
  subst text extents
  decide +kernel

-- of two extents with one start the search sees the last, so out of order it may miss a keyword
example : keywordRanges "int".toList [⟨.default, 0, 3⟩, ⟨.default, 0, 0⟩] ["int"] = [] := by
  decide +kernel

/-! ## Keywords of the plain regions -/

theorem inOrder_regions (text : List Char) :
    InOrder (((regions text).map Span.extent).filter (·.kind == .default)) := by
  have hcovers := (tokenises_regions text).covers
  have hpairwise : ((regions text).map Span.extent).Pairwise fun e f => e.stop ≤ f.start := by
    refine List.pairwise_map.2 (hcovers.pairwise.imp ?_)
    intro r s h
    simpa [Span.extent] using h
  refine ⟨?_, (hpairwise.filter _).isChain⟩
  intro e he
  obtain ⟨r, hr, rfl⟩ := List.mem_map.1 (mem_plain_iff.1 he).1
  have := hcovers.start_lt_stop hr
  simp only [Span.extent]
  omega

/-- The keywords that are found are the runs that are keywords and begin inside a plain region. -/
theorem mem_keywordRanges_iff (text : List Char) (keywords : List String) (p : Nat × Nat) :
    p ∈ keywordRanges text ((regions text).map Span.extent) keywords ↔
      ∃ run, IsWordRun text p.1 run ∧ p.2 = p.1 + run.length ∧ String.ofList run ∈ keywords ∧
        ∃ r ∈ regions text, r.kind = .default ∧ r.start ≤ p.1 ∧ p.1 < r.stop := by
  constructor
  · intro h
    obtain ⟨run, hword, hstop, hkey, e, he, hk, h₁, h₂⟩ := isKeywordInside_of_mem h
    obtain ⟨r, hr, rfl⟩ := List.mem_map.1 he
    have := hword.length_pos
    simp only [Span.extent] at hk h₁ h₂
    exact ⟨run, hword, hstop, hkey, r, hr, hk, by omega, by omega⟩
  · rintro ⟨run, hword, hstop, hkey, r, hr, hk, h₁, h₂⟩
    have hle := hword.stop_le hr h₂
    refine (inOrder_regions text).mem_keywordRanges ⟨run, hword, hstop, hkey, r.extent,
      List.mem_map_of_mem hr, hk, ?_, ?_⟩ <;> simp only [Span.extent] <;> omega

end ClassBrowser.Source
