import ClassBrowser.Proofs.Engine.Reports
import ClassBrowser.Proofs.Text.Glyphs

/-!
# Where classes are found

What is found of a source lies in the archive that was made of it, in the directory that was made of
it, or, where there is neither, anywhere in the directory for all that is made (`Yields`).  A class
is named by its way from where the search begins.  So an entry of an archive has one name, and so
has a file unless it is found by two searches: in the directory of one source, and from above it for
a source of which there is nothing (`FoundTwice`).  That is the only way in which two names may
stand for one file (`collect_injective_iff`), and it does happen (`exists_class_reported_twice`).
-/

namespace ClassBrowser

open Text (Loose)

namespace Path

variable {parts : List Loose}

/-- The text of joined components ends in that of the last one. -/
theorem exists_text_joined (h : parts ≠ []) :
    ∃ before, (joined parts).text = before ++ (parts.getLast h).text := by
  induction parts with
  | nil => exact absurd rfl h
  | cons part rest ih =>
    by_cases hrest : rest = []
    · subst hrest
      exact ⟨"", String.empty_append.symm⟩
    · obtain ⟨before, hbefore⟩ := ih hrest
      refine ⟨part.text ++ "/" ++ before, ?_⟩
      calc
        (joined (part :: rest)).text = part.text ++ "/" ++ (joined rest).text := by
          rw [joined_cons hrest, Loose.text_append, Loose.text_append]
          rfl
        _ = part.text ++ "/" ++ before ++ (rest.getLast hrest).text := by
          rw [hbefore, ← String.append_assoc]
        _ = part.text ++ "/" ++ before ++ ((part :: rest).getLast h).text := by
          rw [List.getLast_cons hrest]

end Path

namespace Files

theorem mem_below_iff {fs : Files} {root place : Place} {node : Node} :
    (place, node) ∈ fs.below root ↔
      (place, node) ∈ fs.nodes ∧ ∃ rel, rel ≠ [] ∧ place = root ++ rel := by
  have hstrict : (root.isPrefixOf place && place != root) = true ↔
      ∃ rel, rel ≠ [] ∧ place = root ++ rel := by
    rw [Bool.and_eq_true, List.isPrefixOf_iff_prefix, bne_iff_ne]
    constructor
    · rintro ⟨⟨rel, rfl⟩, hne⟩
      exact ⟨rel, fun hrel => hne (by rw [hrel, List.append_nil]), rfl⟩
    · rintro ⟨rel, hrel, rfl⟩
      exact ⟨⟨rel, rfl⟩, fun heq => hrel (List.append_right_eq_self.1 heq)⟩
  rw [below, List.mem_mergeSort, List.mem_filter, hstrict]

/-- What stands below a place in the order of the table, where that is sorted. -/
theorem below_eq {fs : Files} {root : Place}
    (h : (fs.nodes.filter fun (at_, _) => root.isPrefixOf at_ && at_ != root).Pairwise
      fun a b => comesBefore a.1 b.1 = true) :
    fs.below root = fs.nodes.filter fun (at_, _) => root.isPrefixOf at_ && at_ != root :=
  List.mergeSort_of_pairwise h

end Files

namespace Decompiler

/-! ## What a search yields -/

/-- The name of the class in a file, by the way that leads to it from where the search begins. -/
def nameBelow (rel : List Loose) : String := classOf (Path.joined rel).text

/-- Where a class lies that has a file of its own. -/
def fileAt (place : Place) : Location := ⟨⟨.root, place⟩, none⟩

/-- Whether a directory was made of a source. -/
def HasDirectory (fs : Files) (output : Place) (source : Path) : Prop :=
  fs.node? (output ++ [source.name]) = some .directory

/-- Whether what was made of a source passes for an archive and cannot be opened. -/
def IsDamaged (fs : Files) (output : Place) (source : Path) : Prop :=
  ∃ fault executable, fs.node? (output ++ [source.name]) =
    some (.file (.damaged fault) executable)

/-- Whether neither an archive nor a directory was made of a source. -/
structure LacksOutput (fs : Files) (output : Place) (source : Path) : Prop where
  ne_zip : ∀ entries executable, fs.node? (output ++ [source.name]) ≠
    some (.file (.zip entries) executable)
  not_isDamaged : ¬ IsDamaged fs output source
  not_hasDirectory : ¬ HasDirectory fs output source

/-- Where the files of a source are searched for. -/
inductive Searches (fs : Files) (output : Place) (source : Path) : Place → Prop
  | own (h : HasDirectory fs output source) : Searches fs output source (output ++ [source.name])
  | all (h : LacksOutput fs output source) : Searches fs output source output

/-- What is found of a source: a name, and where the class lies. -/
inductive Yields (fs : Files) (output : Place) (source : Path) : String × Location → Prop
  | entry {entry : String} (executable : Bool) (entries : Entries)
      (hnode : fs.node? (output ++ [source.name]) = some (.file (.zip entries) executable))
      (hmem : entry ∈ entries.map Prod.fst)
      (hsuffix : Archive.hasSuffix sourceSuffix entry = true) :
      Yields fs output source
        (classOf entry, ⟨⟨.root, output ++ [source.name]⟩, some entry⟩)
  | file {root : Place} {rel : List Loose} (hroot : Searches fs output source root)
      (hrel : rel ≠ []) (hstands : root ++ rel ∈ fs.nodes.keys)
      (hsuffix : Archive.hasSuffix sourceSuffix (rel.getLast hrel).text = true) :
      Yields fs output source (nameBelow rel, fileAt (root ++ rel))

variable {fs : Files} {output root : Place} {source : Path} {sources : List Path}
  {found : List (String × Location)} {p : String × Location} {locations : Assoc String Location}
  {rel : List Loose} {d : Decompiler}

/-- What was made of a source is an archive, one that cannot be opened, a directory, or nothing of
these. -/
theorem output_cases (fs : Files) (output : Place) (source : Path) :
    (∃ entries executable, fs.node? (output ++ [source.name]) =
        some (.file (.zip entries) executable)) ∨
      IsDamaged fs output source ∨ HasDirectory fs output source ∨
        LacksOutput fs output source := by
  by_cases harchive : ∃ entries executable, fs.node? (output ++ [source.name]) =
      some (.file (.zip entries) executable)
  · exact .inl harchive
  by_cases hdamaged : IsDamaged fs output source
  · exact .inr (.inl hdamaged)
  by_cases hdirectory : HasDirectory fs output source
  · exact .inr (.inr (.inl hdirectory))
  · exact .inr (.inr (.inr ⟨fun entries executable hnode => harchive ⟨entries, executable, hnode⟩,
      hdamaged, hdirectory⟩))

theorem fromSource_of_damaged {fault : ZipFault} {executable : Bool}
    (h : fs.node? (output ++ [source.name]) = some (.file (.damaged fault) executable)) :
    fromSource fs output source = .error (.zip fault) := by
  unfold fromSource
  simp only [h]

theorem fromSource_of_directory (h : HasDirectory fs output source) :
    fromSource fs output source = .ok (fromDirectory fs (output ++ [source.name])) := by
  unfold fromSource
  dsimp only
  rw [show fs.node? (output ++ [source.name]) = some .directory from h]

theorem fromSource_of_lacks (h : LacksOutput fs output source) :
    fromSource fs output source = .ok (fromDirectory fs output) := by
  unfold fromSource
  dsimp only
  split
  · next hnode => exact absurd hnode (h.ne_zip _ _)
  · next hnode => exact absurd ⟨_, _, hnode⟩ h.not_isDamaged
  · next hnode => exact absurd hnode h.not_hasDirectory
  · rfl

theorem name_append (root : Place) (hrel : rel ≠ []) :
    (Path.mk .root (root ++ rel)).name = rel.getLast hrel := by
  rw [Path.name, List.getLastD_eq_getLast?, List.getLast?_append_of_ne_nil _ hrel,
    List.getLast?_eq_some_getLast hrel]
  rfl

theorem mem_fromDirectory_iff : p ∈ fromDirectory fs root ↔
    ∃ rel, ∃ hrel : rel ≠ [], root ++ rel ∈ fs.nodes.keys ∧
      Archive.hasSuffix sourceSuffix (rel.getLast hrel).text = true ∧
      p = (nameBelow rel, fileAt (root ++ rel)) := by
  have hname (rel : List Loose) :
      classOf (Path.joined ((root ++ rel).drop root.length)).text = nameBelow rel := by
    rw [List.drop_left]
    rfl
  constructor
  · intro h
    obtain ⟨⟨place, node⟩, hmem, rfl⟩ := List.mem_map.1 h
    obtain ⟨hbelow, hsuffix⟩ := List.mem_filter.1 hmem
    obtain ⟨hstands, rel, hrel, rfl⟩ := Files.mem_below_iff.1 hbelow
    refine ⟨rel, hrel, List.mem_map.2 ⟨_, hstands, rfl⟩, name_append root hrel ▸ hsuffix, ?_⟩
    dsimp only
    rw [hname]
    rfl
  · rintro ⟨rel, hrel, hstands, hsuffix, rfl⟩
    obtain ⟨⟨place, node⟩, hmem, hplace⟩ := List.mem_map.1 hstands
    obtain rfl : place = root ++ rel := hplace
    refine List.mem_map.2 ⟨(root ++ rel, node), List.mem_filter.2 ⟨?_, ?_⟩, ?_⟩
    · exact Files.mem_below_iff.2 ⟨hmem, rel, hrel, rfl⟩
    · show Archive.hasSuffix sourceSuffix (Path.mk .root (root ++ rel)).name.text = true
      rw [name_append root hrel]
      exact hsuffix
    · dsimp only
      rw [hname]
      rfl

/-- What is found of a source whose files are searched for at one place. -/
theorem yields_iff_of_searches (hroot : Searches fs output source root)
    (honly : ∀ r, Searches fs output source r → r = root)
    (hnozip : ∀ entries executable, fs.node? (output ++ [source.name]) ≠
      some (.file (.zip entries) executable)) :
    Yields fs output source p ↔ p ∈ fromDirectory fs root := by
  rw [mem_fromDirectory_iff]
  constructor
  · intro h
    cases h with
    | entry executable entries hnode => exact absurd hnode (hnozip entries executable)
    | file hsearches hrel hstands hsuffix =>
      obtain rfl := honly _ hsearches
      exact ⟨_, hrel, hstands, hsuffix, rfl⟩
  · rintro ⟨rel, hrel, hstands, hsuffix, rfl⟩
    exact .file hroot hrel hstands hsuffix

/-- The classes that are listed of an archive are all its entries with the suffix. -/
theorem mem_filesWithSuffix_iff {entries : Entries} {names : List String}
    (h : Archive.filesWithSuffix sourceSuffix entries = .ok names) {entry : String} :
    entry ∈ names ↔
      entry ∈ entries.map Prod.fst ∧ Archive.hasSuffix sourceSuffix entry = true := by
  unfold Archive.filesWithSuffix at h
  dsimp only at h
  split at h
  · cases h
  · obtain rfl := Except.ok.inj h
    rw [List.mem_filter]
    refine and_congr_right fun _ => ⟨fun hkept => (Bool.and_eq_true_iff.1 hkept).2, fun hkept => ?_⟩
    obtain ⟨n, rfl⟩ := Archive.hasSuffix_iff.1 hkept
    exact hasSuffix_not_directory n

theorem mem_fromSource_iff (h : fromSource fs output source = .ok found) :
    p ∈ found ↔ Yields fs output source p := by
  obtain ⟨entries, executable, hnode⟩ | ⟨fault, executable, hnode⟩ | hdirectory | hlacks :=
    output_cases fs output source
  · rw [fromSource_of_archive hnode] at h
    obtain ⟨names, hnames, hfound⟩ := bind_eq_ok_iff.1 h
    obtain rfl := Except.ok.inj hfound
    have hentry : ∀ entry, entry ∈ names ↔
        entry ∈ entries.map Prod.fst ∧ Archive.hasSuffix sourceSuffix entry = true :=
      fun entry => mem_filesWithSuffix_iff hnames
    constructor
    · intro hp
      obtain ⟨entry, hmem, rfl⟩ := List.mem_map.1 hp
      exact .entry executable entries hnode ((hentry entry).1 hmem).1 ((hentry entry).1 hmem).2
    · intro hp
      cases hp with
      | entry executable' entries' hnode' hmem hsuffix =>
        obtain ⟨rfl, -⟩ : entries = entries' ∧ executable = executable' := by
          simpa using hnode.symm.trans hnode'
        exact List.mem_map.2 ⟨_, (hentry _).2 ⟨hmem, hsuffix⟩, rfl⟩
      | file hroot =>
        cases hroot with
        | own hdirectory => exact nomatch hnode.symm.trans hdirectory
        | all hlacks => exact absurd hnode (hlacks.ne_zip _ _)
  · cases (fromSource_of_damaged hnode).symm.trans h
  · obtain rfl := Except.ok.inj ((fromSource_of_directory hdirectory).symm.trans h)
    refine (yields_iff_of_searches (.own hdirectory) ?_ ?_).symm
    · intro r hr
      cases hr with
      | own => rfl
      | all hlacks => exact absurd hdirectory hlacks.not_hasDirectory
    · intro entries executable hzip
      cases hdirectory.symm.trans hzip
  · obtain rfl := Except.ok.inj ((fromSource_of_lacks hlacks).symm.trans h)
    refine (yields_iff_of_searches (.all hlacks) ?_ hlacks.ne_zip).symm
    intro r hr
    cases hr with
    | own h => exact absurd h hlacks.not_hasDirectory
    | all => rfl

theorem mem_flatten_iff {all : List (List (String × Location))}
    (h : sources.mapM (fromSource fs output) = .ok all) :
    p ∈ all.flatten ↔ ∃ s ∈ sources, Yields fs output s p := by
  rw [mem_flatten_of_mapM h]
  constructor
  · rintro ⟨s, hs, found, hsource, hp⟩
    exact ⟨s, hs, (mem_fromSource_iff hsource).1 hp⟩
  · rintro ⟨s, hs, hp⟩
    obtain ⟨found, hsource⟩ := exists_of_mapM_eq_ok h hs
    exact ⟨s, hs, found, hsource, (mem_fromSource_iff hsource).2 hp⟩

/-- What was collected was found of some source. -/
theorem exists_yields_of_collect (h : collect fs output sources = .ok locations)
    {name : String} {l : Location} (hget : locations.get? name = some l) :
    ∃ s ∈ sources, Yields fs output s (name, l) := by
  obtain ⟨found, hfound, h⟩ := bind_eq_ok_iff.1 h
  obtain rfl := Except.ok.inj h
  rw [Assoc.get?_insertAll_eq_or, Assoc.get?_nil, Option.or_none, Assoc.last?] at hget
  exact (mem_flatten_iff hfound).1 (List.mem_reverse.1 (Assoc.mem_of_get? hget))

/-- Nothing is collected exactly if nothing is found of any source. -/
theorem eq_nil_iff_of_collect (h : collect fs output sources = .ok locations) :
    locations = [] ↔ ∀ s ∈ sources, ∀ p, ¬ Yields fs output s p := by
  obtain ⟨found, hfound, h⟩ := bind_eq_ok_iff.1 h
  obtain rfl := Except.ok.inj h
  rw [Assoc.insertAll_eq_nil_iff, List.eq_nil_iff_forall_not_mem]
  constructor
  · intro hnone s hs p hp
    exact hnone p ((mem_flatten_iff hfound).2 ⟨s, hs, hp⟩)
  · intro hnone p hp
    obtain ⟨s, hs, hp⟩ := (mem_flatten_iff hfound).1 hp
    exact hnone s hs p hp

/-! ## Archives that cannot be looked through -/

/-- Whether the archive that was made of a source has an entry without a name. -/
def HasNameless (fs : Files) (output : Place) (source : Path) : Prop :=
  ∃ entries executable, fs.node? (output ++ [source.name]) =
    some (.file (.zip entries) executable) ∧ ∃ e ∈ entries, e.1 = ""

/-- Whether what was made of a source cannot be looked through: it is an archive with a nameless
entry, or one that cannot be opened. -/
def Resists (fs : Files) (output : Place) (source : Path) : Prop :=
  HasNameless fs output source ∨ IsDamaged fs output source

/-- A source that cannot be looked through yields an error that is passed on as it is. -/
theorem Resists.fromSource (h : Resists fs output source) :
    ∃ e, fromSource fs output source = .error e ∧ e.isReported = false := by
  obtain ⟨entries, executable, hnode, e, he, hname⟩ | ⟨fault, executable, hnode⟩ := h
  · refine ⟨.namelessEntry, ?_, rfl⟩
    rw [fromSource_of_archive hnode, fromArchive, Archive.filesWithSuffix_of_nameless he hname]
    rfl
  · exact ⟨.zip fault, fromSource_of_damaged hnode, rfl⟩

/-- Only a source that cannot be looked through yields an error. -/
theorem resists_of_fromSource {e : ArchiveError}
    (h : Decompiler.fromSource fs output source = .error e) : Resists fs output source := by
  obtain ⟨entries, executable, hnode⟩ | hdamaged | hdirectory | hlacks :=
    output_cases fs output source
  · by_cases hentry : ∃ e ∈ entries, e.1 = ""
    · exact .inl ⟨entries, executable, hnode, hentry⟩
    · rw [fromSource_of_archive hnode, fromArchive,
        Archive.filesWithSuffix_of_named fun e he hname => hentry ⟨e, he, hname⟩] at h
      cases h
  · exact .inr hdamaged
  · cases (fromSource_of_directory hdirectory).symm.trans h
  · cases (fromSource_of_lacks hlacks).symm.trans h

/-- Where a source cannot be looked through, nothing is collected at all. -/
theorem exists_collect_eq_error (h : ∃ s ∈ sources, Resists fs output s) :
    ∃ e, collect fs output sources = .error e ∧ e.isReported = false := by
  obtain ⟨s, hs, hresists⟩ := h
  obtain ⟨e, he, hunreported⟩ : ∃ e, sources.mapM (fromSource fs output) = .error e ∧
      e.isReported = false := by
    refine exists_mapM_eq_error hs ?_ fun t _ e he => ?_
    · obtain ⟨e, he, -⟩ := hresists.fromSource
      exact ⟨e, he⟩
    · obtain ⟨e', he', hunreported⟩ := (resists_of_fromSource he).fromSource
      cases he.symm.trans he'
      exact hunreported
  exact ⟨e, by rw [collect, he]; rfl, hunreported⟩

theorem exists_collect_eq_ok (h : ∀ s ∈ sources, ¬ Resists fs output s) :
    ∃ locations, collect fs output sources = .ok locations := by
  have hfound : ∃ found, sources.mapM (fromSource fs output) = .ok found := by
    refine exists_mapM_eq_ok fun s hs => ?_
    cases hsource : fromSource fs output s with
    | error e => exact absurd (resists_of_fromSource hsource) (h s hs)
    | ok found => exact ⟨found, rfl⟩
  obtain ⟨found, hfound⟩ := hfound
  exact ⟨_, by rw [collect, hfound]; rfl⟩

/-! ## Two names of one file -/

/-- A name that is found from further above is another one. -/
theorem nameBelow_cons_ne (part : Loose) (hrel : rel ≠ [])
    (hsuffix : Archive.hasSuffix sourceSuffix (rel.getLast hrel).text = true) :
    nameBelow (part :: rel) ≠ nameBelow rel := by
  obtain ⟨before, hbefore⟩ := Path.exists_text_joined hrel
  obtain ⟨n, hn⟩ := Archive.hasSuffix_iff.1 hsuffix
  have hinner : nameBelow rel = before ++ n := by
    rw [nameBelow, hbefore, hn, ← String.append_assoc, classOf_append]
  have houter : nameBelow (part :: rel) = part.text ++ "/" ++ (before ++ n) := by
    have htext : (Path.joined (part :: rel)).text =
        part.text ++ "/" ++ (before ++ n) ++ sourceSuffix := by
      rw [Path.joined_cons hrel, Loose.text_append, Loose.text_append, hbefore, hn]
      simp only [String.append_assoc]
      rfl
    rw [nameBelow, htext, classOf_append]
  rw [hinner, houter]
  intro h
  have hslash : ("/" : String).length = 1 := rfl
  have hlength := congrArg String.length h
  rw [String.length_append, String.length_append, hslash] at hlength
  omega

/-- Whether a file is found in the directory of a source and once more from above it, for a source
of which there is nothing, and keeps both names. -/
structure FoundTwice (fs : Files) (output : Place) (sources : List Path)
    (locations : Assoc String Location) (source : Path) (rel : List Loose) : Prop where
  ne_nil : rel ≠ []
  directory : HasDirectory fs output source
  lacking : ∃ s ∈ sources, LacksOutput fs output s
  inner : locations.get? (nameBelow rel) = some (fileAt (output ++ source.name :: rel))
  outer : locations.get? (nameBelow (source.name :: rel)) =
    some (fileAt (output ++ source.name :: rel))

theorem fileAt_injective {place place' : Place} (h : fileAt place = fileAt place') :
    place = place' :=
  (Path.mk.inj (Location.mk.inj h).1).2

/-- What is found from above the directory of a source has that in front of its way. -/
theorem eq_cons_of_append_eq {part : Loose} {rel' : List Loose}
    (h : output ++ [part] ++ rel = output ++ rel') : rel' = part :: rel := by
  rw [List.append_assoc] at h
  exact (List.append_cancel_left h).symm

/-- Two names under which one class is found are the same, or the searches overlap. -/
theorem Yields.eq_or {s t : Path} {m n : String} {l : Location} (hs : Yields fs output s (m, l))
    (ht : Yields fs output t (n, l)) :
    m = n ∨ ∃ rel, rel ≠ [] ∧
      ((HasDirectory fs output s ∧ LacksOutput fs output t ∧
        l = fileAt (output ++ s.name :: rel) ∧ m = nameBelow rel ∧ n = nameBelow (s.name :: rel)) ∨
      (HasDirectory fs output t ∧ LacksOutput fs output s ∧
        l = fileAt (output ++ t.name :: rel) ∧ n = nameBelow rel ∧
          m = nameBelow (t.name :: rel))) := by
  cases hs with
  | entry executable entries hnode =>
    generalize hl : (⟨⟨.root, output ++ [s.name]⟩, some _⟩ : Location) = l at ht
    cases ht with
    | entry => exact .inl (congrArg classOf (Option.some.inj (Location.mk.inj hl).2))
    | file => exact nomatch (Location.mk.inj hl).2
  | @file root rel hroot hrel hstands hsuffix =>
    generalize hl : fileAt (root ++ rel) = l at ht
    cases ht with
    | entry => exact nomatch (Location.mk.inj hl).2
    | @file root' rel' hroot' hrel' =>
      have hplace := fileAt_injective hl
      cases hroot with
      | own hdirectory =>
        cases hroot' with
        | own hdirectory' =>
          have htail := eq_cons_of_append_eq (hplace.trans (List.append_assoc _ _ _))
          exact .inl (congrArg nameBelow (List.cons.inj htail).2.symm)
        | all hlacks =>
          obtain rfl := eq_cons_of_append_eq hplace
          exact .inr ⟨rel, hrel, .inl ⟨hdirectory, hlacks, rfl, rfl, rfl⟩⟩
      | all hlacks =>
        cases hroot' with
        | own hdirectory =>
          obtain rfl := eq_cons_of_append_eq hplace.symm
          exact .inr ⟨rel', hrel', .inr ⟨hdirectory, hlacks,
            congrArg fileAt (List.append_assoc _ _ _), rfl, rfl⟩⟩
        | all => exact .inl (congrArg nameBelow (List.append_cancel_left hplace))

/-- A file that is found has the suffix. -/
theorem Yields.hasSuffix {place : Place} {n : String}
    (h : Yields fs output source (n, fileAt place)) :
    ∃ hne : place ≠ [], Archive.hasSuffix sourceSuffix (place.getLast hne).text = true := by
  generalize hl : fileAt place = l at h
  cases h with
  | entry => exact nomatch (Location.mk.inj hl).2
  | @file root rel hroot hrel hstands hsuffix =>
    obtain rfl := fileAt_injective hl
    refine ⟨List.append_ne_nil_of_right_ne_nil root hrel, ?_⟩
    rwa [List.getLast_append_of_ne_nil _ hrel]

theorem FoundTwice.names_ne (h : FoundTwice fs output sources locations source rel)
    (hcollect : collect fs output sources = .ok locations) :
    nameBelow (source.name :: rel) ≠ nameBelow rel := by
  obtain ⟨s, -, hyields⟩ := exists_yields_of_collect hcollect h.inner
  obtain ⟨hne, hsuffix⟩ := hyields.hasSuffix
  refine nameBelow_cons_ne source.name h.ne_nil ?_
  rwa [List.getLast_append_of_ne_nil _ (List.cons_ne_nil _ _), List.getLast_cons h.ne_nil]
    at hsuffix

/-- Whether no class stands under two names. -/
def HasDistinctPlaces (locations : Assoc String Location) : Prop :=
  ∀ m n l, locations.get? m = some l → locations.get? n = some l → m = n

/-- Where two names stand for one class, a file was found twice. -/
theorem exists_foundTwice_of_ne (hcollect : collect fs output sources = .ok locations)
    {m n : String} {l : Location} (hm : locations.get? m = some l)
    (hn : locations.get? n = some l) (hne : m ≠ n) :
    ∃ source ∈ sources, ∃ rel, FoundTwice fs output sources locations source rel := by
  obtain ⟨s, hs, hyields⟩ := exists_yields_of_collect hcollect hm
  obtain ⟨t, ht, hyields'⟩ := exists_yields_of_collect hcollect hn
  obtain heq | ⟨rel, hrel, hcases⟩ := hyields.eq_or hyields'
  · exact absurd heq hne
  · obtain ⟨hdirectory, hlacks, rfl, rfl, rfl⟩ | ⟨hdirectory, hlacks, rfl, rfl, rfl⟩ := hcases
    · exact ⟨s, hs, rel, hrel, hdirectory, ⟨t, ht, hlacks⟩, hm, hn⟩
    · exact ⟨t, ht, rel, hrel, hdirectory, ⟨s, hs, hlacks⟩, hn, hm⟩

/-- Whatever the sources are and whatever was made of them, no two names stand for one class,
exactly if no file is found twice.  What a run reports are the texts at these very places. -/
theorem collect_injective_iff (hcollect : collect fs output sources = .ok locations) :
    (HasDistinctPlaces locations ↔
      ∀ source ∈ sources, ∀ rel, ¬ FoundTwice fs output sources locations source rel) ∧
    ∀ {d d' : Decompiler} {w w' : World} {acts : List Act}, d.decompile w = (w', d', .ok acts) →
      collect w'.files outputDirectory.parts d.sources = .ok d'.locations ∧
      ∀ {name : String} {text : Option String}, .unit name text ∈ acts →
        ∃ l bytes, d'.locations.get? name = some l ∧
          Archive.read w'.files l.file l.entry = .ok bytes ∧
          text = some (Text.Utf8.decodeLossy bytes) := by
  refine ⟨⟨?_, ?_⟩, fun {d d' w w' acts} hrun => ?_⟩
  · intro hdistinct source _ rel htwice
    exact htwice.names_ne hcollect (hdistinct _ _ _ htwice.outer htwice.inner)
  · intro hnone m n l hm hn
    by_contra hne
    obtain ⟨source, hsource, rel, htwice⟩ := exists_foundTwice_of_ne hcollect hm hn hne
    exact hnone source hsource rel htwice
  · obtain ⟨-, -, -, -, hcollect, rfl⟩ := exists_of_decompile hrun
    refine ⟨hcollect, fun {name text} hunit => ?_⟩
    obtain ⟨t, rfl, ht⟩ := textOf_of_mem_reports hunit
    obtain ⟨l, bytes, hget, hread, rfl⟩ := textOf_eq_ok_iff.1 ht
    exact ⟨l, bytes, hget, hread, rfl⟩

namespace Sample

def first : Path := ⟨.root, ["W", "a.jar"]⟩

def second : Path := ⟨.root, ["W", "b.jar"]⟩

/-- A decompiler that was given two archives. -/
def decompiler : Decompiler where
  jar := some (.value ⟨.relative, ["engine.jar"]⟩)
  java := some (.value ⟨.relative, ["java"]⟩)
  options := []
  sources := [first, second]
  running := false
  locations := []

/-- Surroundings where a directory is made of the first archive and nothing of the second. -/
def world : World :=
  .start ⟨[([], .directory), (["W"], .directory), (["W", "a.jar"], .file (.zip []) false),
    (["W", "b.jar"], .file (.zip []) false), (["W", "engine.jar"], .file (.bytes .empty) false),
    (["W", "java"], .program [⟨.empty, .empty, 0,
      [⟨["a.jar", "X.java"], some (.bytes "x".toUTF8)⟩], false⟩] 0)], .roomy⟩ {}

/-- The surroundings when the process has ended. -/
def ended : World := (decompiler.launch world).1

theorem launch_eq : decompiler.launch world = (ended, .ok ⟨0, "", ""⟩) :=
  Prod.ext rfl (eq_ok_of_toOption (by decide +kernel))

/-- Where the one class lies that was made. -/
def place : Place := ["OUT", "a.jar", "X.java"]

theorem hasDirectory : HasDirectory ended.files outputDirectory.parts first := by
  have hwalk : ended.files.walk ⟨.root, place⟩ (outputDirectory.parts ++ [first.name])
      ["X.java"] = .ok place :=
    eq_ok_of_toOption (by decide +kernel)
  exact (Files.walk_cons_eq_ok_iff.1 hwalk).1

theorem lacksOutput : LacksOutput ended.files outputDirectory.parts second := by
  have hnone : ended.files.node? (outputDirectory.parts ++ [second.name]) = none :=
    Option.isNone_iff_eq_none.1 (by decide +kernel)
  refine ⟨fun entries executable h => ?_, ?_, fun h => ?_⟩
  · exact nomatch hnone.symm.trans h
  · rintro ⟨fault, executable, h⟩
    exact nomatch hnone.symm.trans h
  · exact nomatch hnone.symm.trans h

/-- The table that the run collects. -/
def table : Assoc String Location := [("X", fileAt place), ("a.jar/X", fileAt place)]

theorem collect_eq : collect ended.files outputDirectory.parts decompiler.sources = .ok table := by
  have hinner : fromDirectory ended.files (outputDirectory.parts ++ [first.name]) =
      [("X", fileAt place)] := by
    rw [fromDirectory, Files.below_eq (by decide +kernel)]
    decide +kernel
  have houter : fromDirectory ended.files outputDirectory.parts =
      [("a.jar/X", fileAt place)] := by
    rw [fromDirectory, Files.below_eq (by decide +kernel)]
    decide +kernel
  have hfound : decompiler.sources.mapM (fromSource ended.files outputDirectory.parts) =
      .ok [[("X", fileAt place)], [("a.jar/X", fileAt place)]] := by
    have hfirst : fromSource ended.files outputDirectory.parts first =
        .ok [("X", fileAt place)] := by
      rw [fromSource_of_directory hasDirectory, hinner]
    have hsecond : fromSource ended.files outputDirectory.parts second =
        .ok [("a.jar/X", fileAt place)] := by
      rw [fromSource_of_lacks lacksOutput, houter]
    show [first, second].mapM _ = _
    rw [List.mapM_cons, List.mapM_cons, List.mapM_nil, hfirst, hsecond]
    rfl
  rw [collect, hfound]
  rfl

/-- The decompiler after the run. -/
def after : Decompiler := { decompiler.started with locations := table }

theorem decompile_eq : decompiler.decompile world =
    (ended, after, .ok [.total 2, .unit "X" (some "x"), .unit "a.jar/X" (some "x")]) := by
  have hgather : decompiler.started.gather ended ⟨0, "", ""⟩ =
      (after, .ok (after.reports ended.files)) :=
    gather_eq_ok_iff.2 ⟨rfl, table, List.cons_ne_nil _ _, collect_eq, rfl, rfl⟩
  have hreports : after.reports ended.files =
      [.total 2, .unit "X" (some "x"), .unit "a.jar/X" (some "x")] := by
    decide +kernel
  rw [Decompiler.decompile_eq (List.cons_ne_nil _ _), launch_eq]
  dsimp only
  rw [hgather, hreports]

theorem not_hasDistinctPlaces : ¬ HasDistinctPlaces table := fun h =>
  absurd (h "X" "a.jar/X" (fileAt place) rfl rfl) (by decide)

end Sample

theorem collect_injective_iff_sample :
    (∃ source ∈ Sample.decompiler.sources, ∃ rel, FoundTwice Sample.ended.files
      outputDirectory.parts Sample.decompiler.sources Sample.table source rel) ∧
    ∃ l bytes, Sample.table.get? "X" = some l ∧
      Archive.read Sample.ended.files l.file l.entry = .ok bytes ∧
      some "x" = some (Text.Utf8.decodeLossy bytes) := by
  obtain ⟨hiff, hreported⟩ := collect_injective_iff Sample.collect_eq
  constructor
  · by_contra hnone
    refine Sample.not_hasDistinctPlaces (hiff.2 ?_)
    intro source hsource rel htwice
    exact hnone ⟨source, hsource, rel, htwice⟩
  · exact (hreported Sample.decompile_eq).2 (by simp)

/-- A run that makes a directory of one archive and nothing of another reports a class twice. -/
theorem exists_class_reported_twice : ∃ (d d' : Decompiler) (w w' : World) (l : Location),
    d.decompile w =
      (w', d', .ok [.total 2, .unit "X" (some "x"), .unit "a.jar/X" (some "x")]) ∧
    d'.locations.get? "X" = some l ∧ d'.locations.get? "a.jar/X" = some l :=
  ⟨Sample.decompiler, Sample.after, Sample.world, Sample.ended, fileAt Sample.place,
    Sample.decompile_eq, rfl, rfl⟩

end Decompiler

end ClassBrowser
