import ClassBrowser.Proofs.Package.Find
import ClassBrowser.Proofs.Text.Stripping
import Mathlib.Data.List.Infix

/-!
# Reading an outline

An outline says which names it was made of: each line is a package or a member by whether it ends
with a slash, its indentation says how deep it stands, and the labels of the packages around it are
those of the last packages before it that stand less deep (`namesFrom`).

So that the indentation of a line can be told from its label, no label may begin with a blank; that
no label has a slash, the delimiter sees to.  Then every line is read back as it was written
(`Contents.map_ofText_outlineFrom`), and reading the outline of contents gives their depth-first
list (`Contents.namesFrom_lines`).  So two hierarchies of names with the same outline have the same
names (`Package.names_of_outline`).
-/

namespace ClassBrowser

open QualifiedName
open Text (Loose)

/-! ## Lines -/

/-- A line of an outline: how deep it stands, whether it names a package, and the label. -/
structure OutlineLine where
  depth : Nat
  isPackage : Bool
  label : String
deriving DecidableEq, Repr

namespace OutlineLine

/-- Reads a line: the blanks in front say how deep it stands, a slash at the end that it names a
package. -/
def ofText (text : String) : OutlineLine :=
  let blanks := text.toList.takeWhile (· == ' ')
  let shown := text.toList.dropWhile (· == ' ')
  let depth := blanks.length / Package.defaultIndent.length
  if shown.getLast? = some '/' then ⟨depth, true, String.ofList shown.dropLast⟩
  else ⟨depth, false, String.ofList shown⟩

/-- The names that lines stand for, where `around` are the labels of the packages that the line
before is in, and its own if it names a package. -/
def namesFrom (delimiter : Loose) (around : List String) : List OutlineLine → List String
  | [] => []
  | line :: rest =>
    let here := around.take line.depth ++ [line.label]
    if line.isPackage then namesFrom delimiter here rest
    else join delimiter here :: namesFrom delimiter around rest

end OutlineLine

/-- The names that an outline stands for. -/
def namesOfOutline (delimiter : Loose) (outline : List String) : List String :=
  OutlineLine.namesFrom delimiter [] (outline.map OutlineLine.ofText)

/-- Whether a label can be told from the indentation in front of it and a slash behind it. -/
def IsLegible (label : String) : Prop := label.toList.head? ≠ some ' ' ∧ '/' ∉ label.toList

namespace Contents

variable {c inner rest : Contents} {depth : Nat} {label s : String} {path around : List String}
  {delimiter : Loose}

/-- What the lines of an outline say. -/
def lines (depth : Nat) : Contents → List OutlineLine
  | nil => []
  | member m rest => ⟨depth, false, m.display⟩ :: lines depth rest
  | package s inner rest => ⟨depth, true, s⟩ :: (lines (depth + 1) inner ++ lines depth rest)

theorem toList_indentation (depth : Nat) :
    (String.join (List.replicate depth Package.defaultIndent)).toList =
      List.replicate (2 * depth) ' ' := by
  induction depth with
  | zero => rfl
  | succ depth ih =>
    calc
      (String.join (List.replicate (depth + 1) Package.defaultIndent)).toList =
          Package.defaultIndent.toList ++
            (String.join (List.replicate depth Package.defaultIndent)).toList := by
        rw [List.replicate_succ, String.join_cons, String.toList_append]
      _ = List.replicate 2 ' ' ++ List.replicate (2 * depth) ' ' := by
        rw [ih]
        rfl
      _ = List.replicate (2 * (depth + 1)) ' ' := by
        rw [← List.replicate_add, Nat.mul_succ, Nat.add_comm]

theorem ofText_indented (depth : Nat) {shown : String} (h : shown.toList.head? ≠ some ' ') :
    OutlineLine.ofText (String.join (List.replicate depth Package.defaultIndent) ++ shown) =
      if shown.toList.getLast? = some '/' then
        ⟨depth, true, String.ofList shown.toList.dropLast⟩
      else ⟨depth, false, shown⟩ := by
  have hblanks : ∀ c ∈ List.replicate (2 * depth) ' ', (c == ' ') = true := by simp
  have hshown : ∀ c ∈ shown.toList.head?, (c == ' ') = false := by
    intro c hc
    rw [beq_eq_false_iff_ne]
    rintro rfl
    exact h hc
  have hdepth : 2 * depth / Package.defaultIndent.length = depth := by
    rw [show Package.defaultIndent.length = 2 from rfl]
    omega
  have hchars : (String.join (List.replicate depth Package.defaultIndent) ++ shown).toList =
      List.replicate (2 * depth) ' ' ++ shown.toList := by
    rw [String.toList_append, toList_indentation]
  rw [OutlineLine.ofText, hchars, Text.takeWhile_append_of_head hblanks hshown,
    Text.dropWhile_append_of_head hblanks hshown, List.length_replicate, hdepth,
    String.ofList_toList]

theorem ofText_member (depth : Nat) (h : IsLegible label) :
    OutlineLine.ofText (String.join (List.replicate depth Package.defaultIndent) ++ label) =
      ⟨depth, false, label⟩ := by
  have hlast : label.toList.getLast? ≠ some '/' := fun hlast =>
    h.2 (List.mem_of_getLast? hlast)
  rw [ofText_indented depth h.1, if_neg hlast]

theorem ofText_package (depth : Nat) (h : IsLegible label) :
    OutlineLine.ofText
        (String.join (List.replicate depth Package.defaultIndent) ++ label ++ "/") =
      ⟨depth, true, label⟩ := by
  have hchars : (label ++ "/").toList = label.toList ++ ['/'] := String.toList_append
  have hhead : (label ++ "/").toList.head? ≠ some ' ' := by
    rw [hchars, List.head?_append]
    cases hlabel : label.toList.head? with
    | none => simp
    | some x => simpa [hlabel] using h.1
  calc
    OutlineLine.ofText
        (String.join (List.replicate depth Package.defaultIndent) ++ label ++ "/") =
        if (label ++ "/").toList.getLast? = some '/' then
          ⟨depth, true, String.ofList (label ++ "/").toList.dropLast⟩
        else ⟨depth, false, label ++ "/"⟩ := by
      rw [String.append_assoc, ofText_indented depth hhead]
    _ = ⟨depth, true, String.ofList label.toList⟩ := by
      rw [hchars, List.getLast?_concat, if_pos rfl, List.dropLast_concat]
    _ = ⟨depth, true, label⟩ := by rw [String.ofList_toList]

/-- Every line is read back as it was written, if the labels of every member and around it can be:
there is no other label, since every package has a member below it. -/
theorem map_ofText_outlineFrom (hpopulated : c.Populated)
    (h : ∀ x ∈ c.located, ∀ label ∈ x.1 ++ [x.2.display], IsLegible label) (depth : Nat) :
    (c.outlineFrom Package.defaultIndent depth).map OutlineLine.ofText = c.lines depth := by
  induction c generalizing depth with
  | nil => rfl
  | member m rest ih =>
    obtain ⟨hm, hrest⟩ := List.forall_mem_cons.1 h
    rw [outlineFrom, List.map_cons, ofText_member depth (hm m.display List.mem_cons_self),
      ih hpopulated hrest, lines]
  | package s inner rest ihi ihr =>
    obtain ⟨hne, hinner, hrest⟩ := hpopulated
    obtain ⟨hbelow, hafter⟩ := List.forall_mem_append.1 h
    rw [List.forall_mem_map] at hbelow
    have hs : IsLegible s := by
      rw [members_eq_map_located, ne_eq, List.map_eq_nil_iff] at hne
      obtain ⟨x, hx⟩ := List.exists_mem_of_ne_nil _ hne
      exact hbelow x hx s List.mem_cons_self
    have hlower : ∀ x ∈ inner.located, ∀ label ∈ x.1 ++ [x.2.display], IsLegible label :=
      fun x hx label hlabel => hbelow x hx label (List.mem_cons_of_mem s hlabel)
    calc
      ((package s inner rest).outlineFrom Package.defaultIndent depth).map OutlineLine.ofText =
          ⟨depth, true, s⟩ ::
            ((inner.outlineFrom Package.defaultIndent (depth + 1)).map OutlineLine.ofText ++
              (rest.outlineFrom Package.defaultIndent depth).map OutlineLine.ofText) := by
        rw [outlineFrom, List.map_cons, ofText_package depth hs, List.map_append]
      _ = ⟨depth, true, s⟩ :: (inner.lines (depth + 1) ++ rest.lines depth) := by
        rw [ihi hinner hlower, ihr hrest hafter]
      _ = (package s inner rest).lines depth := rfl

/-- Reading the lines of contents gives their depth-first list, and the packages around them are
still known behind these lines. -/
theorem namesFrom_lines (delimiter : Loose) (c : Contents) (haround : around.take depth = path)
    (hdepth : path.length = depth) :
    ∃ around' : List String, around'.take depth = path ∧
      ∀ more, OutlineLine.namesFrom delimiter around (c.lines depth ++ more) =
        c.located.map (fun x => join delimiter (path ++ (x.1 ++ [x.2.display]))) ++
          OutlineLine.namesFrom delimiter around' more := by
  induction c generalizing around depth path with
  | nil => exact ⟨around, haround, fun more => rfl⟩
  | member m rest ih =>
    obtain ⟨around', haround', hrest⟩ := ih haround hdepth
    refine ⟨around', haround', fun more => ?_⟩
    rw [lines, List.cons_append, OutlineLine.namesFrom, if_neg Bool.false_ne_true, haround,
      hrest more, located]
    rfl
  | package s inner rest ihi ihr =>
    have hown : (path ++ [s]).take (depth + 1) = path ++ [s] :=
      List.take_of_length_le (by simp [hdepth])
    obtain ⟨around₁, haround₁, hinner⟩ := ihi hown (by simp [hdepth])
    have hback : around₁.take depth = path := by
      have htake := congrArg (List.take depth) haround₁
      rwa [List.take_take, Nat.min_eq_left (Nat.le_succ depth),
        List.take_left' hdepth] at htake
    obtain ⟨around₂, haround₂, hrest⟩ := ihr hback hdepth
    refine ⟨around₂, haround₂, fun more => ?_⟩
    calc
      OutlineLine.namesFrom delimiter around ((package s inner rest).lines depth ++ more) =
          OutlineLine.namesFrom delimiter (path ++ [s])
            (inner.lines (depth + 1) ++ (rest.lines depth ++ more)) := by
        rw [lines, List.cons_append, List.append_assoc, OutlineLine.namesFrom, if_pos rfl, haround]
      _ = inner.located.map (fun x => join delimiter (path ++ [s] ++ (x.1 ++ [x.2.display]))) ++
            (rest.located.map (fun x => join delimiter (path ++ (x.1 ++ [x.2.display]))) ++
              OutlineLine.namesFrom delimiter around₂ more) := by
        rw [hinner, hrest]
      _ = (package s inner rest).located.map
              (fun x => join delimiter (path ++ (x.1 ++ [x.2.display]))) ++
            OutlineLine.namesFrom delimiter around₂ more := by
        simp [located, Function.comp_def]

end Contents

namespace QualifiedName

/-- Whether no segment of a name begins with a blank. -/
def IsFlush (delimiter : Loose) (name : String) : Prop :=
  ∀ parts, segments delimiter name = .ok parts → ∀ s ∈ parts, s.toList.head? ≠ some ' '

instance (delimiter : Loose) (name : String) : Decidable (IsFlush delimiter name) :=
  match h : segments delimiter name with
  | .ok parts =>
    decidable_of_iff (∀ s ∈ parts, s.toList.head? ≠ some ' ') (by simp [IsFlush, h])
  | .error _ => .isTrue (by simp [IsFlush, h])

theorem slash_not_mem_of_pieces {name s : String} {parts : List String}
    (h : pieces "/" name = .ok parts) (hs : s ∈ parts) : '/' ∉ s.toList := by
  obtain ⟨c, cs, hd, hsplit⟩ := pieces_whole.1 h
  obtain ⟨rfl, rfl⟩ := List.cons.inj (hd.symm.trans (show "/".toList = ['/'] from rfl))
  have hpieces := (Text.splitChars_eq_iff.1 hsplit).1
  have hinfix := hpieces.not_isInfix (List.mem_map.2 ⟨s, hs, rfl⟩)
  rwa [List.singleton_infix_iff] at hinfix

end QualifiedName

namespace Package

variable {names names' : List String}

theorem Builder.Holds.isLegible {b : Builder} (h : b.Holds "/" names)
    (hvalid : ∀ n ∈ names, isValid "/" n = true) (hflush : ∀ n ∈ names, IsFlush "/" n) :
    ∀ x ∈ b.contents.located, ∀ label ∈ x.1 ++ [x.2.display], IsLegible label := by
  rintro ⟨path, m⟩ hx label hlabel
  have hsegments := h.segments_eq hx hvalid
  have hname : m.qualified ∈ names := (h.mem_located_iff.1 hx).1
  exact ⟨hflush _ hname _ hsegments label hlabel,
    slash_not_mem_of_pieces (segments_eq_ok_iff.1 hsegments).1 hlabel⟩

/-- The names that the outline of a hierarchy stands for are those that it holds. -/
theorem Builder.Holds.namesOfOutline_eq {b : Builder} (h : b.Holds "/" names)
    (hvalid : ∀ n ∈ names, isValid "/" n = true) (hflush : ∀ n ∈ names, IsFlush "/" n) :
    namesOfOutline "/" (b.toPackage.outline defaultIndent) = sorted names.dedup := by
  have hstart : ([] : List String).take 0 = [] := rfl
  obtain ⟨around, -, hread⟩ := Contents.namesFrom_lines "/" b.contents hstart rfl
  have hlines := hread []
  rw [List.append_nil, OutlineLine.namesFrom, List.append_nil] at hlines
  calc
    namesOfOutline "/" (b.toPackage.outline defaultIndent) =
        OutlineLine.namesFrom "/" [] (b.contents.lines 0) := by
      rw [namesOfOutline, outline, toPackage,
        Contents.map_ofText_outlineFrom h.placed.populated (h.isLegible hvalid hflush)]
    _ = b.contents.located.map fun x => join "/" (x.1 ++ [x.2.display]) := hlines
    _ = b.contents.located.map fun x => x.2.qualified :=
      List.map_congr_left fun x hx => join_of_pieces (h.placed.pieces x hx)
    _ = b.contents.members.map Member.qualified := by
      rw [Contents.members_eq_map_located, List.map_map]
      rfl
    _ = sorted names.dedup := h.qualified_eq

theorem namesOfOutline_ofValidNames (h : ∀ n ∈ names, IsFlush "/" n) :
    namesOfOutline "/" ((ofValidNames "/" names).1.outline defaultIndent) =
      sorted (names.filter (isValid "/")).dedup := by
  obtain ⟨b, hpackage, hb⟩ := holds_ofValidNames "/" names
  rw [hpackage]
  exact hb.namesOfOutline_eq (fun n hn => (List.mem_filter.1 hn).2)
    fun n hn => h n (List.mem_filter.1 hn).1

/-- **Decoding an outline**: where no segment begins with a blank, the outline of the hierarchy of
the valid ones of some names stands for these names, so that two lists of names with the same
outline have the same valid names. -/
theorem names_of_outline (h : ∀ n ∈ names, IsFlush "/" n) (h' : ∀ n ∈ names', IsFlush "/" n) :
    namesOfOutline "/" ((ofValidNames "/" names).1.outline defaultIndent) =
        sorted (names.filter (isValid "/")).dedup ∧
      ((ofValidNames "/" names).1.outline defaultIndent =
          (ofValidNames "/" names').1.outline defaultIndent →
        ∀ n, n ∈ names ∧ isValid "/" n = true ↔ n ∈ names' ∧ isValid "/" n = true) := by
  have hread := namesOfOutline_ofValidNames h
  refine ⟨hread, fun heq n => ?_⟩
  have hsame : sorted (names.filter (isValid "/")).dedup =
      sorted (names'.filter (isValid "/")).dedup := by
    rw [← hread, heq, namesOfOutline_ofValidNames h']
  have hmem : ∀ l : List String, n ∈ sorted (l.filter (isValid "/")).dedup ↔
      n ∈ l ∧ isValid "/" n = true := by
    intro l
    rw [sorted, List.mem_mergeSort, List.mem_dedup, List.mem_filter]
  rw [← hmem, ← hmem, hsame]

/-- A class `p` beside the package `p`, a class `A` beside the package `A` in it, and on the other
side repeated names in another order and an invalid one. -/
theorem names_of_outline_sample :
    let names := ["p/A", "p", "p/A/b"]
    let names' := ["p/A/b", "p", "p/", "p/A", "p"]
    let lines := ["p", "p/", "  A", "  A/", "    b"]
    (∀ n ∈ names, IsFlush "/" n) ∧ (∀ n ∈ names', IsFlush "/" n) ∧
      (ofValidNames "/" names).1.outline defaultIndent = lines ∧
      (ofValidNames "/" names').1.outline defaultIndent = lines ∧
      (∀ n, n ∈ names ∧ isValid "/" n = true ↔ n ∈ names' ∧ isValid "/" n = true) ∧
      namesOfOutline "/" lines = ["p", "p/A", "p/A/b"] := by
  intro names names' lines
  have hflush : ∀ n ∈ names, IsFlush "/" n := by
    decide +kernel
  have hflush' : ∀ n ∈ names', IsFlush "/" n := by
    decide +kernel
  have hsorted : sorted names = ["p", "p/A", "p/A/b"] :=
    (sorted_congr (by decide)).trans (List.mergeSort_of_pairwise (by decide +kernel))
  have hsorted' : sorted names' = ["p", "p", "p/", "p/A", "p/A/b"] :=
    (sorted_congr (by decide)).trans (List.mergeSort_of_pairwise (by decide +kernel))
  have hlines : (ofValidNames "/" names).1.outline defaultIndent = lines := by
    rw [ofValidNames, hsorted]
    decide +kernel
  have hlines' : (ofValidNames "/" names').1.outline defaultIndent = lines := by
    rw [ofValidNames, hsorted']
    decide +kernel
  obtain ⟨hread, hsame⟩ := names_of_outline hflush hflush'
  refine ⟨hflush, hflush', hlines, hlines', hsame (hlines.trans hlines'.symm), ?_⟩
  have hvalid : (names.filter (isValid "/")).dedup = names := by
    decide +kernel
  rw [← hlines, hread, hvalid, hsorted]

end Package

end ClassBrowser
