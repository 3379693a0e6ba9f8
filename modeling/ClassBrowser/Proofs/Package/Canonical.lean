import ClassBrowser.Proofs.Package.Find

/-!
# Hierarchies of sets of names

The hierarchy of some names, the order of siblings included, depends on nothing but which names they
are (`Package.isCanonical`).  Contents in which no label is repeated and no package is empty can be
read back from their depth-first list (`Contents.eq_of_located`), and for names that list is known:
it holds just their members and ascends (`Package.Builder.Holds.located_eq`).  So it does not matter
in which order, or how often, the names were given.

Where names must be valid, the least invalid one decides (`Package.ofNames_cases`): sorted, it comes
before all others that are refused.
-/

namespace ClassBrowser

open QualifiedName
open Text (Loose)

/-! ## Invalid names -/

namespace QualifiedName

variable {delimiter : Loose} {name n : String} {names names' : List String}

/-- Whether a name is refused: it is empty, or one of its pieces is. -/
def IsInvalid (delimiter : Loose) (name : String) : Prop :=
  name = "" ∨ ∃ parts, pieces delimiter name = .ok parts ∧ "" ∈ parts

/-- The least of some names that is refused, in the order of the code points. -/
structure IsLeastInvalid (delimiter : Loose) (names : List String) (name : String) : Prop where
  mem : name ∈ names
  invalid : IsInvalid delimiter name
  least : ∀ n ∈ names, IsInvalid delimiter n → name ≤ n

theorem isValid_eq_false_iff (hdelimiter : delimiter ≠ .whole "") :
    isValid delimiter name = false ↔ IsInvalid delimiter name := by
  obtain ⟨parts, hparts⟩ := exists_pieces hdelimiter name
  rw [← Bool.not_eq_true, isValid_iff_pieces, IsInvalid]
  simp only [hparts, Except.ok.injEq, exists_eq_left', not_and, not_not]
  exact Decidable.or_iff_not_imp_left.symm

namespace IsLeastInvalid

theorem eq (h : IsLeastInvalid delimiter names name) (h' : IsLeastInvalid delimiter names n) :
    name = n :=
  le_antisymm (h.least n h'.mem h'.invalid) (h'.least name h.mem h.invalid)

theorem congr (h : IsLeastInvalid delimiter names name) (hnames : ∀ n, n ∈ names ↔ n ∈ names') :
    IsLeastInvalid delimiter names' name :=
  ⟨(hnames name).1 h.mem, h.invalid, fun n hn => h.least n ((hnames n).2 hn)⟩

end IsLeastInvalid

/-- Where one name is refused, not all are valid. -/
theorem IsInvalid.not_forall_isValid (h : IsInvalid delimiter name)
    (hdelimiter : delimiter ≠ .whole "") (hmem : name ∈ names) :
    ¬ ∀ n ∈ names, isValid delimiter n = true := by
  intro hall
  have hinvalid := (isValid_eq_false_iff hdelimiter).2 h
  rw [hall name hmem] at hinvalid
  cases hinvalid

end QualifiedName

/-! ## Reading back the depth-first list -/

namespace Contents

variable {c c' inner rest : Contents} {s : String} {x : List String × Member}

/-- What is in the first package is what has its label in front. -/
theorem filter_located_package (h : (package s inner rest).Unrepeated) :
    (package s inner rest).located.filter (·.1.head? = some s) =
        inner.located.map (fun x => (s :: x.1, x.2)) ∧
      (package s inner rest).located.filter (·.1.head? ≠ some s) = rest.located := by
  have hinner : ∀ x ∈ inner.located.map fun x => (s :: x.1, x.2), x.1.head? = some s := by
    intro x hx
    obtain ⟨y, -, rfl⟩ := List.mem_map.1 hx
    rfl
  have hrest : ∀ x ∈ rest.located, x.1.head? ≠ some s :=
    fun x hx => head?_ne_of_package?_eq_none h.1 hx
  rw [located, List.filter_append, List.filter_append]
  constructor
  · rw [List.filter_eq_self.2 (by simpa using hinner),
      List.filter_eq_nil_iff.2 (by simpa using hrest), List.append_nil]
  · rw [List.filter_eq_nil_iff.2 (by simpa using hinner),
      List.filter_eq_self.2 (by simpa using hrest), List.nil_append]

theorem Populated.located_ne_nil (h : (package s inner rest).Populated) : inner.located ≠ [] := by
  intro hnil
  refine h.1 ?_
  rw [members_eq_map_located, hnil]
  rfl

/-- The first member of a package stands behind the label of the package. -/
theorem Populated.head?_located (h : (package s inner rest).Populated) :
    ∃ path m, (package s inner rest).located.head? = some (s :: path, m) := by
  obtain ⟨x, later, hx⟩ := List.exists_cons_of_ne_nil h.located_ne_nil
  exact ⟨x.1, x.2, by rw [located, hx]; rfl⟩

/-- Contents are determined by their depth-first list. -/
theorem eq_of_located (hc : c.Unrepeated) (hc' : c'.Unrepeated) (hp : c.Populated)
    (hp' : c'.Populated) (h : c.located = c'.located) : c = c' := by
  induction c generalizing c' with
  | nil =>
    cases c' with
    | nil => rfl
    | member m' rest' => cases h
    | package s' inner' rest' =>
      obtain ⟨path, m, hhead⟩ := hp'.head?_located
      rw [← h] at hhead
      cases hhead
  | member m rest ih =>
    cases c' with
    | nil => cases h
    | member m' rest' =>
      obtain ⟨hm, hrest⟩ := List.cons.inj h
      rw [(Prod.mk.inj hm).2, ih hc.2 hc'.2 hp hp' hrest]
    | package s' inner' rest' =>
      obtain ⟨path, m, hhead⟩ := hp'.head?_located
      rw [← h] at hhead
      cases hhead
  | package s inner rest ihi ihr =>
    obtain ⟨path, m, hhead⟩ := hp.head?_located
    cases c' with
    | nil =>
      rw [h] at hhead
      cases hhead
    | member m' rest' =>
      rw [h] at hhead
      cases hhead
    | package s' inner' rest' =>
      obtain ⟨path', m', hhead'⟩ := hp'.head?_located
      obtain rfl : s = s' := by
        rw [h, hhead'] at hhead
        exact (List.cons.inj (Prod.mk.inj (Option.some.inj hhead)).1).1.symm
      obtain ⟨hfront, hback⟩ := filter_located_package hc
      obtain ⟨hfront', hback'⟩ := filter_located_package hc'
      have hinner : inner.located = inner'.located := by
        refine List.map_injective_iff.2 ?_ (hfront.symm.trans (h ▸ hfront'))
        rintro ⟨p, m⟩ ⟨q, n⟩ heq
        simpa using heq
      have hrest : rest.located = rest'.located := hback.symm.trans (h ▸ hback')
      rw [ihi hc.2.1 hc'.2.1 hp.2.1 hp'.2.1 hinner, ihr hc.2.2 hc'.2.2 hp.2.2 hp'.2.2 hrest]

end Contents

namespace Package

variable {delimiter : Loose} {b b' : Builder} {name : String} {names names' : List String}

/-- The depth-first list of a hierarchy depends on which names it holds. -/
theorem Builder.Holds.located_eq (h : b.Holds delimiter names) (h' : b'.Holds delimiter names')
    (hnames : ∀ n, n ∈ names ↔ n ∈ names') : b.contents.located = b'.contents.located := by
  have hnodup : ∀ {b : Builder} {names : List String}, b.Holds delimiter names →
      b.contents.located.Nodup := fun hb =>
    hb.placed.ascending.imp fun hlt heq => absurd hlt (by rw [heq]; exact lt_irrefl _)
  have hperm : b.contents.located.Perm b'.contents.located := by
    refine (List.perm_ext_iff_of_nodup (hnodup h) (hnodup h')).2 fun x => ?_
    rw [h.mem_located_iff, h'.mem_located_iff, hnames]
  exact hperm.eq_of_pairwise (fun x y _ _ hxy hyx => absurd (hxy.trans hyx) (lt_irrefl _))
    h.placed.ascending h'.placed.ascending

/-- A hierarchy depends on which names it holds. -/
theorem Builder.Holds.contents_eq (h : b.Holds delimiter names) (h' : b'.Holds delimiter names')
    (hnames : ∀ n, n ∈ names ↔ n ∈ names') : b.contents = b'.contents :=
  Contents.eq_of_located h.placed.unrepeated h'.placed.unrepeated h.placed.populated
    h'.placed.populated (h.located_eq h' hnames)

/-- The hierarchy of the valid ones of some names depends on which these are. -/
theorem ofValidNames_congr
    (h : ∀ n, isValid delimiter n = true → (n ∈ names ↔ n ∈ names')) :
    (ofValidNames delimiter names).1 = (ofValidNames delimiter names').1 := by
  obtain ⟨b, hpackage, hb⟩ := holds_ofValidNames delimiter names
  obtain ⟨b', hpackage', hb'⟩ := holds_ofValidNames delimiter names'
  have hcontents : b.contents = b'.contents := hb.contents_eq hb' fun n => by
    rw [List.mem_filter, List.mem_filter]
    exact and_congr_left (h n)
  rw [hpackage, hpackage', Builder.toPackage, Builder.toPackage, hcontents]

/-! ## Names that must be valid -/

theorem sorted_filter (p : String → Bool) (names : List String) :
    sorted (names.filter p) = (sorted names).filter p := by
  refine List.Perm.eq_of_pairwise' (pairwise_sorted _) ((pairwise_sorted names).filter p) ?_
  exact (List.mergeSort_perm _ _).trans ((List.mergeSort_perm names _).symm.filter p)

/-- As long as names are valid, none is left out. -/
theorem foldlM_add_of_valid (hvalid : ∀ n ∈ names, isValid delimiter n = true) (b : Builder)
    (skipped : List Log.Record) :
    names.foldlM (Builder.add delimiter) b =
      .ok (names.foldl (addOrSkip delimiter) (b, skipped)).1 := by
  induction names generalizing b with
  | nil => rfl
  | cons name names ih =>
    obtain ⟨hname, hrest⟩ := List.forall_mem_cons.1 hvalid
    obtain ⟨parts, hparts⟩ := isValid_iff.1 hname
    rw [List.foldlM_cons, List.foldl_cons, addOrSkip_of_ok hparts, Builder.add, hparts]
    exact ih hrest _

/-- The first invalid name stops everything. -/
theorem foldlM_add_of_invalid {e : NameError} (hvalid : ∀ n ∈ names, isValid delimiter n = true)
    (hname : segments delimiter name = .error e) (b : Builder) :
    (names ++ name :: names').foldlM (Builder.add delimiter) b = .error e := by
  rw [List.foldlM_append, foldlM_add_of_valid hvalid b []]
  show ((name :: names').foldlM (Builder.add delimiter) _ : Except NameError Builder) = _
  rw [List.foldlM_cons, Builder.add, hname]
  rfl

/-- Among names of which one is invalid, the first such in sorted order is the least. -/
theorem exists_first_invalid (hdelimiter : delimiter ≠ .whole "")
    (h : ¬ ∀ n ∈ names, isValid delimiter n = true) :
    ∃ before name behind, sorted names = before ++ name :: behind ∧
      (∀ n ∈ before, isValid delimiter n = true) ∧ IsLeastInvalid delimiter names name := by
  have hmem : ∀ n, n ∈ sorted names ↔ n ∈ names := fun n => List.mem_mergeSort
  obtain ⟨name, hfind⟩ : ∃ name, (sorted names).find? (!isValid delimiter ·) = some name := by
    rw [← Option.isSome_iff_exists, List.find?_isSome]
    simpa [hmem] using h
  obtain ⟨hinvalid, before, behind, hsplit, hbefore⟩ := List.find?_eq_some_iff_append.1 hfind
  have hvalid : ∀ n ∈ before, isValid delimiter n = true := by simpa using hbefore
  refine ⟨before, name, behind, hsplit, hvalid, ?_, ?_, ?_⟩
  · rw [← hmem, hsplit]
    exact List.mem_append_right _ List.mem_cons_self
  · exact (isValid_eq_false_iff hdelimiter).1 (by simpa using hinvalid)
  · intro n hn hn'
    rw [← hmem, hsplit] at hn
    have hasc := pairwise_sorted names
    rw [hsplit, List.pairwise_append] at hasc
    obtain hn | hn := List.mem_append.1 hn
    · rw [← isValid_eq_false_iff hdelimiter, hvalid n hn] at hn'
      cases hn'
    · obtain rfl | hn := List.mem_cons.1 hn
      · exact le_rfl
      · exact (List.pairwise_cons.1 hasc.2.1).1 n hn

/-- Either all names are valid and are arranged, or the least invalid one is reported. -/
theorem ofNames_cases (hdelimiter : delimiter ≠ .whole "") (names : List String) :
    ((∀ n ∈ names, isValid delimiter n = true) ∧
        ofNames delimiter names = .ok (ofValidNames delimiter names).1) ∨
      ∃ name, IsLeastInvalid delimiter names name ∧
        ofNames delimiter names = .error (.invalid name) := by
  by_cases hall : ∀ n ∈ names, isValid delimiter n = true
  · have hsorted : ∀ n ∈ sorted names, isValid delimiter n = true :=
      fun n hn => hall n (List.mem_mergeSort.1 hn)
    refine .inl ⟨hall, ?_⟩
    rw [ofNames, foldlM_add_of_valid hsorted .empty [], ofValidNames_eq]
    rfl
  · obtain ⟨before, name, behind, hsplit, hvalid, hleast⟩ := exists_first_invalid hdelimiter hall
    obtain ⟨parts, hparts⟩ := exists_pieces hdelimiter name
    refine .inr ⟨name, hleast, ?_⟩
    cases hname : segments delimiter name with
    | ok segs =>
      have hinvalid := (isValid_eq_false_iff hdelimiter).2 hleast.invalid
      rw [isValid_iff.2 ⟨segs, hname⟩] at hinvalid
      cases hinvalid
    | error e =>
      obtain rfl := eq_invalid_of_segments hparts hname
      rw [ofNames, hsplit, foldlM_add_of_invalid hvalid hname]
      rfl

theorem ofNames_of_valid (hdelimiter : delimiter ≠ .whole "")
    (hall : ∀ n ∈ names, isValid delimiter n = true) :
    ofNames delimiter names = .ok (ofValidNames delimiter names).1 := by
  obtain ⟨-, hok⟩ | ⟨n, hleast, -⟩ := ofNames_cases hdelimiter names
  · exact hok
  · exact absurd hall (hleast.invalid.not_forall_isValid hdelimiter hleast.mem)

theorem ofNames_eq_error_iff (hdelimiter : delimiter ≠ .whole "") {e : NameError} :
    ofNames delimiter names = .error e ↔
      ∃ n, IsLeastInvalid delimiter names n ∧ e = .invalid n := by
  obtain ⟨hall, hok⟩ | ⟨n, hleast, herror⟩ := ofNames_cases hdelimiter names
  · constructor
    · intro he
      cases hok.symm.trans he
    · rintro ⟨n, hleast, -⟩
      exact absurd hall (hleast.invalid.not_forall_isValid hdelimiter hleast.mem)
  · constructor
    · exact fun he => ⟨n, hleast, Except.error.inj (he.symm.trans herror)⟩
    · rintro ⟨n', hleast', rfl⟩
      rw [herror, hleast.eq hleast']

/-- The hierarchy of names that must be valid depends on which these are, and so does the error. -/
theorem ofNames_congr (hdelimiter : delimiter ≠ .whole "")
    (hnames : ∀ n, n ∈ names ↔ n ∈ names') :
    ofNames delimiter names = ofNames delimiter names' := by
  obtain ⟨hall, hok⟩ | ⟨n, hleast, herror⟩ := ofNames_cases hdelimiter names
  · have hall' : ∀ n ∈ names', isValid delimiter n = true := fun n hn => hall n ((hnames n).2 hn)
    rw [hok, ofNames_of_valid hdelimiter hall', ofValidNames_congr fun n _ => hnames n]
  · rw [herror, (ofNames_eq_error_iff hdelimiter).2 ⟨n, hleast.congr hnames, rfl⟩]

/-! ## Sets of names -/

/-- What is known of the hierarchies of some names. -/
structure IsCanonical (delimiter : Loose) (names : List String) : Prop where
  /-- Other lists of the same names yield the same. -/
  congr : ∀ names', (∀ n, n ∈ names ↔ n ∈ names') →
    ofNames delimiter names = ofNames delimiter names' ∧
      (ofValidNames delimiter names).1 = (ofValidNames delimiter names').1
  /-- Where names must be valid, they are refused exactly if one is not. -/
  refused : (∃ e, ofNames delimiter names = .error e) ↔ ∃ n ∈ names, IsInvalid delimiter n
  /-- The message names the least invalid one. -/
  message : ∀ e, ofNames delimiter names = .error e → ∃ n, IsLeastInvalid delimiter names n ∧
    e = .invalid n ∧ e.message = "Invalid qualified name: " ++ Text.quoted n
  /-- Where invalid names are left out, nothing of them is left in the hierarchy. -/
  leftOut : ofNames delimiter (names.filter (isValid delimiter)) =
      .ok (ofValidNames delimiter names).1 ∧
    ofValidNames delimiter (names.filter (isValid delimiter)) =
      ((ofValidNames delimiter names).1, [])
  /-- There is one record for each time that an invalid name was given, in the order of the
  names. -/
  records : (ofValidNames delimiter names).2 =
    (sorted (names.filter fun n => !isValid delimiter n)).map skippedRecord
  isValid_iff : ∀ n, isValid delimiter n = false ↔ IsInvalid delimiter n

/-- The valid ones of some names are arranged in the same way alone, without any record. -/
theorem ofValidNames_filter (delimiter : Loose) (names : List String) :
    ofValidNames delimiter (names.filter (isValid delimiter)) =
      ((ofValidNames delimiter names).1, []) := by
  refine Prod.ext (ofValidNames_congr fun n hn => by simp [hn]) ?_
  rw [records_ofValidNames, ← sorted_filter, List.filter_filter]
  simp [sorted]

/-- **A hierarchy of names depends on nothing but which names they are**, and so does the refusal of
an invalid one; an invalid name that is left out leaves a record, and nothing else, behind. -/
theorem isCanonical (hdelimiter : delimiter ≠ .whole "") (names : List String) :
    IsCanonical delimiter names := by
  refine ⟨fun names' hnames => ⟨ofNames_congr hdelimiter hnames,
    ofValidNames_congr fun n _ => hnames n⟩, ⟨?_, ?_⟩, ?_,
    ⟨?_, ofValidNames_filter delimiter names⟩, ?_, fun n => isValid_eq_false_iff hdelimiter⟩
  · rintro ⟨e, he⟩
    obtain ⟨n, hleast, -⟩ := (ofNames_eq_error_iff hdelimiter).1 he
    exact ⟨n, hleast.mem, hleast.invalid⟩
  · rintro ⟨n, hn, hinvalid⟩
    obtain ⟨hall, -⟩ | ⟨n', -, herror⟩ := ofNames_cases hdelimiter names
    · exact absurd hall (hinvalid.not_forall_isValid hdelimiter hn)
    · exact ⟨_, herror⟩
  · intro e he
    obtain ⟨n, hleast, rfl⟩ := (ofNames_eq_error_iff hdelimiter).1 he
    exact ⟨n, hleast, rfl, rfl⟩
  · rw [ofNames_of_valid hdelimiter fun n hn => List.of_mem_filter hn, ofValidNames_filter]
  · rw [records_ofValidNames, sorted_filter]

theorem isCanonical_sample : ("/" : Loose) ≠ .whole "" ∧
    ofNames "/" ["b", "a/", "b"] = ofNames "/" ["a/", "b"] ∧
    (∃ e, ofNames "/" ["b", "a/", "b"] = .error e) ∧
    ofNames "/" ["b", "b"] = .ok (ofValidNames "/" ["b", "a/", "b"]).1 ∧
    (ofValidNames "/" ["b", "a/", "b"]).2 = [skippedRecord "a/"] := by
  have hdelimiter : ("/" : Loose) ≠ .whole "" := by decide
  have hcanonical := isCanonical hdelimiter ["b", "a/", "b"]
  have hinvalid : isValid "/" "a/" = false := by decide +kernel
  have hvalid : isValid "/" "b" = true := by decide +kernel
  refine ⟨hdelimiter, (hcanonical.congr ["a/", "b"] (by simp)).1,
    hcanonical.refused.2 ⟨"a/", by simp, (hcanonical.isValid_iff "a/").1 hinvalid⟩, ?_, ?_⟩
  · simpa [hvalid, hinvalid] using hcanonical.leftOut.1
  · rw [hcanonical.records]
    simp [sorted, hvalid, hinvalid]

end Package

end ClassBrowser
