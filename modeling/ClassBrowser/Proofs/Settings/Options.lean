import ClassBrowser.Proofs.Assoc
import ClassBrowser.Proofs.Text.Stripping
import ClassBrowser.Settings

/-!
# Options written as texts

An option is written as a key and a value with an equals sign between.  Blanks around the key do not
count, nor do dashes in front of it: the key is stripped once, and then dashes are removed once
(`Settings.optionKey`).  Behind the dashes there may be blanks again, and these stay
(`Settings.HidesBlank`).

`Settings.parseOptions_spec` says which lists of texts are refused and what the options of the
others are.  These, written as texts again, are read back as they are exactly where no key begins
with a blank (`Settings.parseOptions_render_iff`).
-/

namespace ClassBrowser.Settings

open Text (isBlank stripChars)

/-- What stands in front of the first equals sign. -/
def keyPart (value : String) : List Char := value.toList.takeWhile (· != '=')

/-- The key of an option: without blanks around it, and then without dashes in front of it. -/
def optionKey (value : String) : String :=
  String.ofList ((stripChars (keyPart value)).dropWhile (· == '-'))

/-- What stands behind the first equals sign. -/
def optionText (value : String) : String :=
  String.ofList (value.toList.dropWhile (· != '=')).tail

/-- Whether a text can be read as an option. -/
def IsOption (value : String) : Prop := '=' ∈ value.toList ∧ optionKey value ≠ ""

instance (value : String) : Decidable (IsOption value) := inferInstanceAs (Decidable (_ ∧ _))

theorem not_isOption_iff {value : String} :
    ¬ IsOption value ↔ '=' ∉ value.toList ∨ optionKey value = "" := by
  rw [IsOption, not_and_or, ne_eq, not_not]

/-- Whether there is a blank behind the dashes in front of the key. -/
def HidesBlank (value : String) : Prop :=
  ∃ dashes blank rest, dashes ≠ [] ∧ (∀ c ∈ dashes, c = '-') ∧ isBlank blank = true ∧
    stripChars (keyPart value) = dashes ++ blank :: rest

/-- An option as a text. -/
def render (option : String × String) : String := option.1 ++ "=" ++ option.2

variable {value key : String} {values : List String} {options : Assoc String String}

/-! ## One option -/

theorem forall_ne_equals {cs : List Char} (h : '=' ∉ cs) : ∀ c ∈ cs, (c != '=') = true :=
  fun c hc => by simpa using ne_of_mem_of_not_mem hc h

/-- A text that is an option is read as its key and its text, and any other is refused. -/
theorem parseOption_eq (value : String) : parseOption value =
    if IsOption value then .ok (optionKey value, optionText value)
    else .error (.badOption value) := by
  rw [parseOption]
  split
  · next hnone =>
    have hequals : '=' ∉ value.toList := fun hmem => by
      simpa using List.dropWhile_eq_nil_iff.1 hnone '=' hmem
    rw [if_neg fun h => hequals h.1]
  · next c after hafter =>
    have hequals : '=' ∈ value.toList := by
      by_contra hnot
      rw [List.dropWhile_eq_nil_iff.2 (forall_ne_equals hnot)] at hafter
      cases hafter
    have hoption : IsOption value ↔
        ¬ ((stripChars (keyPart value)).dropWhile (· == '-')).isEmpty = true := by
      simp [IsOption, hequals, optionKey]
    have htext : optionText value = String.ofList after := by
      rw [optionText, hafter, List.tail_cons]
    rw [← keyPart]
    by_cases h : IsOption value
    · rw [if_pos h, if_neg (hoption.1 h), htext, optionKey]
    · rw [if_neg h, if_pos (not_not.1 fun hne => h (hoption.2 hne))]

/-- A key does not begin with a dash, does not end with a blank and has no equals sign. -/
structure IsKey (key : String) : Prop where
  head : key.toList.head? ≠ some '-'
  last : ∀ c ∈ key.toList.getLast?, isBlank c = false
  equals : '=' ∉ key.toList

theorem isKey_optionKey (value : String) : IsKey (optionKey value) := by
  have hsuffix : (optionKey value).toList <:+ stripChars (keyPart value) := by
    rw [optionKey, String.toList_ofList]
    exact List.dropWhile_suffix _
  refine ⟨?_, ?_, ?_⟩
  · intro hhead
    rw [optionKey, String.toList_ofList] at hhead
    simpa using Text.head?_dropWhile (· == '-') _ '-' hhead
  · intro c hc
    obtain ⟨front, hfront⟩ := hsuffix
    refine Text.getLast?_stripChars (keyPart value) c ?_
    rw [← hfront, List.getLast?_append, Option.mem_def.1 hc]
    rfl
  · intro hmem
    have hpart := Text.stripChars_subset _ (hsuffix.subset hmem)
    simpa using List.mem_takeWhile_imp hpart

/-- A key begins with a blank exactly if the blank stands behind dashes. -/
theorem hidesBlank_iff (value : String) :
    HidesBlank value ↔ ∃ c ∈ (optionKey value).toList.head?, isBlank c = true := by
  rw [optionKey, String.toList_ofList]
  constructor
  · rintro ⟨dashes, blank, rest, -, hdashes, hblank, hstrip⟩
    refine ⟨blank, ?_, hblank⟩
    have hne : blank ≠ '-' := by
      rintro rfl
      exact absurd hblank (by decide)
    rw [hstrip, Text.dropWhile_append_of_head (by simpa using hdashes) (by simpa using hne)]
    rfl
  · rintro ⟨blank, hhead, hblank⟩
    have hsplit : (stripChars (keyPart value)).takeWhile (· == '-') ++
        (stripChars (keyPart value)).dropWhile (· == '-') = stripChars (keyPart value) :=
      List.takeWhile_append_dropWhile
    obtain ⟨rest, hrest⟩ := List.head?_eq_some_iff.1 hhead
    rw [hrest] at hsplit
    refine ⟨_, blank, rest, ?_, ?_, hblank, hsplit.symm⟩
    · intro hnil
      rw [hnil, List.nil_append] at hsplit
      have hnot := Text.head?_stripChars (keyPart value) blank (by rw [← hsplit]; rfl)
      rw [hblank] at hnot
      cases hnot
    · intro c hc
      simpa using List.mem_takeWhile_imp hc

/-! ## All options -/

/-- The key and the text of an option. -/
def entry (value : String) : String × String := (optionKey value, optionText value)

/-- Options are read up to the first text that is none. -/
theorem foldlM_addOption (options : Assoc String String) (values : List String) :
    values.foldlM addOption options =
      match values.find? (fun value => !decide (IsOption value)) with
      | some value => .error (.badOption value)
      | none => .ok (options.insertAll (values.map entry)) := by
  induction values generalizing options with
  | nil => rfl
  | cons value values ih =>
    rw [List.foldlM_cons, addOption, parseOption_eq]
    by_cases h : IsOption value
    · rw [if_pos h, List.find?_cons_of_neg (by simp [h])]
      exact ih _
    · rw [if_neg h, List.find?_cons_of_pos (by simp [h])]
      rfl

theorem parseOptions_eq_error_iff {e : SettingsError} : parseOptions values = .error e ↔
    ∃ value, values.find? (fun value => !decide (IsOption value)) = some value ∧
      e = .badOption value := by
  rw [parseOptions, foldlM_addOption]
  cases values.find? (fun value => !decide (IsOption value)) with
  | some value => simp [eq_comm]
  | none => simp

theorem parseOptions_eq_ok_iff : parseOptions values = .ok options ↔
    (∀ value ∈ values, IsOption value) ∧ options = Assoc.insertAll [] (values.map entry) := by
  rw [parseOptions, foldlM_addOption]
  cases hfind : values.find? (fun value => !decide (IsOption value)) with
  | some value =>
    have hbad : ¬ IsOption value := by simpa using List.find?_some hfind
    have hmem := List.mem_of_find?_eq_some hfind
    simp only [reduceCtorEq, false_iff]
    exact fun h => hbad (h.1 value hmem)
  | none =>
    have hall : ∀ value ∈ values, IsOption value := by simpa using hfind
    simp only [Except.ok.injEq]
    exact ⟨fun h => ⟨hall, h.symm⟩, fun h => h.2.symm⟩

/-! ## Options written as texts again -/

theorem toList_render (key text : String) :
    (render (key, text)).toList = key.toList ++ '=' :: text.toList := by
  simp [render]

theorem keyPart_render (h : '=' ∉ key.toList) (text : String) :
    keyPart (render (key, text)) = key.toList := by
  rw [keyPart, toList_render, Text.takeWhile_append_of_head (forall_ne_equals h) (by simp)]

theorem optionText_render (h : '=' ∉ key.toList) (text : String) :
    optionText (render (key, text)) = text := by
  rw [optionText, toList_render, Text.dropWhile_append_of_head (forall_ne_equals h) (by simp),
    List.tail_cons, String.ofList_toList]

/-- A key is read back as it is exactly if it does not begin with a blank. -/
theorem optionKey_render_eq_iff (h : IsKey key) (text : String) :
    optionKey (render (key, text)) = key ↔ ∀ c ∈ key.toList.head?, isBlank c = false := by
  rw [← String.toList_inj, optionKey, String.toList_ofList, keyPart_render h.equals,
    Text.stripChars_of_getLast h.last]
  constructor
  · intro hsame c hc
    by_contra hblank
    -- one character is removed at least, so the key got shorter
    obtain ⟨rest, hrest⟩ := List.head?_eq_some_iff.1 (Option.mem_def.1 hc)
    rw [hrest, List.dropWhile_cons_of_pos (by simpa using hblank)] at hsame
    have hlen := congrArg List.length hsame
    have hle := (List.dropWhile_suffix (l := rest) isBlank).length_le
    have hle' := (List.dropWhile_suffix (l := rest.dropWhile isBlank) (· == '-')).length_le
    rw [List.length_cons] at hlen
    omega
  · intro hhead
    have hdash : ∀ c ∈ key.toList.head?, (c == '-') = false := by
      intro c hc
      rw [beq_eq_false_iff_ne]
      rintro rfl
      exact h.head hc
    rw [Text.dropWhile_of_head hhead, Text.dropWhile_of_head hdash]

/-- What the options of texts are.  The keys stand in the order of their first appearance, and the
last text of a key counts.  A key begins with a blank exactly where a value hides one, and written
as texts again the options are read back as they are exactly where no value does. -/
structure Reads (values : List String) (options : Assoc String String) : Prop where
  keys : options.keys = (values.map optionKey).eraseDups
  text : ∀ key, options.get? key = Assoc.last? (values.map entry) key
  key : ∀ key ∈ options.keys, key ≠ "" ∧ IsKey key
  blank : ∀ value ∈ values,
    (∃ c ∈ (optionKey value).toList.head?, isBlank c = true) ↔ HidesBlank value
  stable : parseOptions (options.map render) = .ok options ↔ ∀ value ∈ values, ¬ HidesBlank value

theorem keys_of_parseOptions (h : parseOptions values = .ok options) :
    options.keys = (values.map optionKey).eraseDups := by
  obtain ⟨-, rfl⟩ := parseOptions_eq_ok_iff.1 h
  rw [Assoc.keys_insertAll (t := []) List.nodup_nil, List.map_map]
  rfl

theorem mem_keys_of_parseOptions (h : parseOptions values = .ok options) :
    key ∈ options.keys ↔ ∃ value ∈ values, optionKey value = key := by
  rw [keys_of_parseOptions h, List.mem_eraseDups, List.mem_map]

theorem isOption_render (h : IsKey key) (hhead : ∀ c ∈ key.toList.head?, isBlank c = false)
    (hne : key ≠ "") (text : String) : IsOption (render (key, text)) := by
  refine ⟨by simp [render], ?_⟩
  rw [(optionKey_render_eq_iff h text).2 hhead]
  exact hne

/-- Options are read back as they are exactly if no key begins with a blank. -/
theorem parseOptions_render_iff (hnodup : options.keys.Nodup)
    (hkey : ∀ key ∈ options.keys, key ≠ "" ∧ IsKey key) :
    parseOptions (options.map render) = .ok options ↔
      ∀ key ∈ options.keys, ∀ c ∈ key.toList.head?, isBlank c = false := by
  have hmem : ∀ option ∈ options, option.1 ∈ options.keys := fun option hoption =>
    List.mem_map_of_mem hoption
  constructor
  · intro hread
    have hkeys := keys_of_parseOptions hread
    rw [List.map_map] at hkeys
    -- no key got lost, so none coincides with another and each is in its old place
    have hall : options.keys = options.map (optionKey ∘ render) := by
      refine List.Sublist.eq_of_length ?_ (by simp [Assoc.keys])
      rw [hkeys]
      exact Assoc.eraseDups_sublist _
    intro key hmemKey
    obtain ⟨⟨key, text⟩, hoption, rfl⟩ := List.mem_map.1 hmemKey
    have hsame := List.map_inj_left.1 hall (key, text) hoption
    exact (optionKey_render_eq_iff (hkey key hmemKey).2 text).1 hsame.symm
  · intro hhead
    have hsame : (options.map render).map entry = options := by
      rw [List.map_map]
      refine (List.map_congr_left fun option hoption => ?_).trans (List.map_id options)
      have hread := (hkey option.1 (hmem option hoption)).2
      exact Prod.ext ((optionKey_render_eq_iff hread option.2).2 (hhead _ (hmem option hoption)))
        (optionText_render hread.equals option.2)
    rw [parseOptions_eq_ok_iff, hsame]
    refine ⟨?_, ?_⟩
    · rw [List.forall_mem_map]
      rintro ⟨key, text⟩ hoption
      obtain ⟨hne, hkey⟩ := hkey key (hmem _ hoption)
      exact isOption_render hkey (hhead key (hmem _ hoption)) hne text
    · exact (Assoc.insertAll_of_nodup (t := []) hnodup).symm

theorem reads_of_parseOptions (h : parseOptions values = .ok options) : Reads values options := by
  have hmem : ∀ {key}, key ∈ options.keys ↔ ∃ value ∈ values, optionKey value = key :=
    mem_keys_of_parseOptions h
  have hnodup : options.keys.Nodup := by
    rw [(parseOptions_eq_ok_iff.1 h).2]
    exact Assoc.nodup_keys_insertAll (t := []) List.nodup_nil _
  have hkey : ∀ key ∈ options.keys, key ≠ "" ∧ IsKey key := by
    intro key hmemKey
    obtain ⟨value, hvalue, rfl⟩ := hmem.1 hmemKey
    exact ⟨((parseOptions_eq_ok_iff.1 h).1 value hvalue).2, isKey_optionKey value⟩
  refine ⟨keys_of_parseOptions h, fun key => ?_, hkey,
    fun value _ => (hidesBlank_iff value).symm, ?_⟩
  · rw [(parseOptions_eq_ok_iff.1 h).2, Assoc.get?_insertAll_eq_or, Assoc.get?_nil, Option.or_none]
  · rw [parseOptions_render_iff hnodup hkey]
    constructor
    · intro hhead value hvalue hhides
      obtain ⟨c, hc, hblank⟩ := (hidesBlank_iff value).1 hhides
      rw [hhead _ (hmem.2 ⟨value, hvalue, rfl⟩) c hc] at hblank
      cases hblank
    · intro hnone key hmemKey c hc
      obtain ⟨value, hvalue, rfl⟩ := hmem.1 hmemKey
      by_contra hblank
      exact hnone value hvalue ((hidesBlank_iff value).2 ⟨c, hc, by simpa using hblank⟩)

/-- **Reading options**: texts are refused exactly if one has no equals sign or nothing in front of
it but dashes with blanks around them, and the first such text is reported.  Else the options are
those of the texts in the sense of `Reads`. -/
theorem parseOptions_spec (values : List String) :
    ((∃ e, parseOptions values = .error e) ↔
        ∃ value ∈ values, '=' ∉ value.toList ∨ optionKey value = "") ∧
      (∀ e, parseOptions values = .error e → e.isReported = true ∧
        ∃ value, values.find? (fun value => !decide (IsOption value)) = some value ∧
          e = .badOption value) ∧
      ∀ options, parseOptions values = .ok options → Reads values options := by
  refine ⟨?_, fun e h => ?_, fun options h => reads_of_parseOptions h⟩
  · simp only [parseOptions_eq_error_iff, ← not_isOption_iff]
    constructor
    · rintro ⟨e, value, hfind, -⟩
      exact ⟨value, List.mem_of_find?_eq_some hfind, by simpa using List.find?_some hfind⟩
    · rintro ⟨value, hvalue, hbad⟩
      obtain ⟨first, hfirst⟩ := Option.isSome_iff_exists.1
        ((List.find?_isSome (p := fun value => !decide (IsOption value))).2
          ⟨value, hvalue, by simpa using hbad⟩)
      exact ⟨.badOption first, first, hfirst, rfl⟩
  · obtain ⟨value, hfind, rfl⟩ := parseOptions_eq_error_iff.1 h
    exact ⟨rfl, value, hfind, rfl⟩

/-- Blanks and dashes in front of one key, an equals sign in the last text of it, and a text that
begins with a blank. -/
theorem parseOptions_spec_sample :
    let values := ["dgs=0", " --ind =  ", "-dgs=a=b"]
    parseOptions values = .ok [("dgs", "a=b"), ("ind", "  ")] ∧
      Reads values [("dgs", "a=b"), ("ind", "  ")] := by
  intro values
  have hread : parseOptions values = .ok [("dgs", "a=b"), ("ind", "  ")] := by
    decide +kernel
  exact ⟨hread, (parseOptions_spec values).2.2 _ hread⟩

/-- A blank between a dash and the key stays in the key, and is gone when the option is read
again. -/
theorem exists_option_not_stable :
    ¬ ∀ values options, parseOptions values = .ok options →
      (∀ key ∈ options.keys, ∀ c ∈ key.toList.head?, isBlank c = false ∧ c ≠ '-') ∧
        parseOptions (options.map render) = .ok options := by
  intro h
  have hread : parseOptions ["- a=1"] = .ok [(" a", "1")] := by
    decide +kernel
  have hagain : parseOptions [" a=1"] = .ok [("a", "1")] := by
    decide +kernel
  have hstable := (h ["- a=1"] _ hread).2
  rw [show [(" a", "1")].map render = [" a=1"] from by decide +kernel, hagain] at hstable
  exact absurd hstable (by decide)

end ClassBrowser.Settings
