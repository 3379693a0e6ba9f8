import ClassBrowser.Proofs.CommandLine.Decompile
import ClassBrowser.Proofs.Package.Find
import ClassBrowser.Proofs.Text.Glyphs

/-!
# The command `show`

The command decompiles an archive and prints the text of the class that it is asked for.  In the
name that it is given, dots stand for the delimiter, so the class that it looks up is another one
where the name of a class has dots of its own (`askedName_eq_iff`).  What is known under the name
that is looked up is printed as it is, and if nothing is, that is said (`perform_showClass`).
-/

namespace ClassBrowser

open Text (Glyph Loose)

/-! ## Names with dots -/

namespace CommandLine

variable {delimiter : Loose} {name : String}

/-- Every dot makes way for the glyphs of the delimiter. -/
theorem length_flatMap_dots (gs : List Glyph) (cs : List Char) :
    (cs.flatMap fun c => if c = '.' then gs else [.char c]).length + cs.count '.' =
      cs.length + cs.count '.' * gs.length := by
  induction cs with
  | nil => simp
  | cons c cs ih =>
    rw [List.flatMap_cons, List.length_append, List.length_cons]
    by_cases hc : c = '.'
    · subst hc
      rw [if_pos rfl, List.count_cons_self, Nat.succ_mul]
      omega
    · rw [if_neg hc, List.count_cons_of_ne hc, List.length_singleton]
      omega

/-- A name is looked up as it is given if and only if it has no dot, or a dot is the delimiter. -/
theorem askedName_eq_iff :
    askedName delimiter name = .whole name ↔ '.' ∉ name.toList ∨ delimiter = .whole "." := by
  have hglyphs : askedName delimiter name = .whole name ↔
      (name.toList.flatMap fun c => if c = '.' then delimiter.glyphs else [.char c]) =
        name.toList.flatMap fun c => [Glyph.char c] := by
    rw [← List.map_eq_flatMap, askedName, ← Loose.glyphs_whole]
    exact ⟨fun h => by rw [← h, Loose.glyphs_ofGlyphs], fun h => by rw [h, Loose.ofGlyphs_glyphs]⟩
  rw [hglyphs]
  constructor
  · intro h
    -- By the lengths, a dot in the name makes way for one glyph, and that is the dot itself.
    refine or_iff_not_imp_left.2 fun hdot => ?_
    rw [not_not] at hdot
    have hcount : 0 < name.toList.count '.' := List.count_pos_iff.2 hdot
    have hlength := length_flatMap_dots delimiter.glyphs name.toList
    rw [h, ← List.map_eq_flatMap, List.length_map, Nat.add_left_cancel_iff] at hlength
    obtain ⟨g, hg⟩ := List.length_eq_one_iff.1 (Nat.eq_of_mul_eq_mul_left hcount
      (hlength.symm.trans (Nat.mul_one _).symm))
    have hsingle (c : Char) : (if c = '.' then [g] else [.char c]) =
        [if c = '.' then g else Glyph.char c] := by
      split <;> rfl
    simp only [hg, hsingle, ← List.map_eq_flatMap] at h
    have hchar := List.map_inj_left.1 h '.' hdot
    rw [if_pos rfl] at hchar
    exact Loose.glyphs_injective (hg.trans (by rw [hchar]; rfl))
  · rintro (hdot | rfl)
    · refine List.flatMap_congr fun c hc => if_neg ?_
      rintro rfl
      exact hdot hc
    · refine List.flatMap_congr fun c _ => ?_
      split
      · next hc => exact hc ▸ rfl
      · rfl

end CommandLine

namespace Session

variable {s : Session} {name text : String}

theorem content_of_text? (h : s.store.text? name = some text) : s.content name = (s, .ok text) := by
  rw [content, h]

/-- A name that is not in the store is not known, where the hierarchy is that of the store. -/
theorem content_of_not_contains (hcontains : s.store.contains name = false)
    (htree : s.tree = s.pipeline.workspace.tree.2)
    (hdelimiter : s.settings.delimiter = s.pipeline.workspace.delimiter) :
    s.content name = (s, .ok (notFound name)) := by
  have hkeys : name ∉ s.store.entries.keys := by
    rw [← Assoc.get?_eq_none_iff]
    simpa [Store.contains, Assoc.contains] using hcontains
  have hfind : (s.tree.find? s.settings.delimiter name).isSome = false := by
    rw [Bool.eq_false_iff, htree, hdelimiter]
    intro hfound
    have hname := ((Package.isSome_find?_ofValidNames _ _ _).1 hfound).1
    exact hkeys (Store.mem_names_iff.1 hname)
  have htext : s.store.text? name = none := by
    rw [Store.text?, (Assoc.get?_eq_none_iff _ _).2 hkeys]
    rfl
  rw [content, htext]
  simp [isKnown, hcontains, hfind]

end Session

namespace CommandLine

variable {choice : EngineChoice} {settings : Settings} {engine : Option Factory} {w : World}
  {archive : Path} {s : Session} {name text : String} {report : Report}

/-! ## What is printed -/

/-- Whether a report prints a text and nothing else, with a line end behind one that has none, and
ends normally. -/
structure Prints (report : Report) (text : String) : Prop where
  ending : report.ending = .normal
  output : report.output = if text.toList.getLast? = some '\n' then text else text ++ "\n"

theorem prints_printClass {spans : List Source.Span}
    (h : (highlightedUnder s (askedName s.settings.delimiter name)).2 = .ok (text, spans)) :
    Prints (printClass s (.value name) false) text := by
  rcases hshown : highlightedUnder s (askedName s.settings.delimiter name) with ⟨s', shown⟩
  rw [hshown] at h
  subst h
  have hprint : printClass s (.value name) false =
      .ended (.raw text :: missingLineEnd text) .normal s'.world := by
    simp only [printClass, Given.get, hshown]
    rfl
  rw [hprint]
  refine ⟨rfl, ?_⟩
  unfold missingLineEnd
  by_cases hend : text.toList.getLast? = some '\n' <;>
    simp [hend, Report.output, Report.ended, Printed.text]

/-- What is printed of a class whose text is known. -/
theorem prints_of_text? {asked : String}
    (hasked : askedName s.settings.delimiter name = .whole asked)
    (htext : s.store.text? asked = some text) : Prints (printClass s (.value name) false) text := by
  refine @prints_printClass s name text (Source.highlight text.toList Source.javaKeywords) ?_
  rw [hasked]
  show (s.highlighted asked).2 = _
  rw [Session.highlighted, Session.content_of_text? htext]
  rfl

/-- What is printed where no class of the name is known. -/
theorem prints_notFound (htree : s.tree = s.pipeline.workspace.tree.2)
    (hdelimiter : s.settings.delimiter = s.pipeline.workspace.delimiter)
    (hunknown : ∀ asked, askedName s.settings.delimiter name = .whole asked →
      s.store.contains asked = false) :
    Prints (printClass s (.value name) false)
      (Session.notFound (askedName s.settings.delimiter name).text) := by
  cases hasked : askedName s.settings.delimiter name with
  | whole asked =>
    refine @prints_printClass s name _
      (Source.highlight (Session.notFound asked).toList Source.javaKeywords) ?_
    rw [hasked]
    show (s.highlighted asked).2 = _
    rw [Session.highlighted,
      Session.content_of_not_contains (hunknown asked hasked) htree hdelimiter]
    rfl
  | torn glyphs h =>
    refine @prints_printClass s name _
      (Source.highlight (Session.notFound (Glyph.text glyphs)).toList Source.javaKeywords) ?_
    rw [hasked]
    rfl

/-! ## The command as a whole -/

/-- A command that has decompiled an archive comes to a session that knows its classes. -/
theorem exists_comesTo {s₁ : Workspace} {result : Option TaskResult}
    (hsettings : choice.settings w = .ok settings)
    (hends : TaskEnds .decompileArchive archive (beginning settings engine archive w) s₁
      (.success result)) :
    ∃ s : Session, s.pipeline.workspace = s₁ ∧ s.settings = settings ∧
      s.tree = s.pipeline.workspace.tree.2 ∧
      s.settings.delimiter = s.pipeline.workspace.delimiter ∧
      ComesTo choice engine archive w s := by
  obtain ⟨rfl, hdelimiter⟩ := hends.of_success rfl
  obtain ⟨s, hworkspace, hsame, htree, hfirst⟩ := decompileFirst_quiet_of_success rfl hends
  refine ⟨s, hworkspace, hsame, htree.trans (by rw [hworkspace]), ?_, fun next => ?_⟩
  · rw [hsame, hworkspace]
    exact hdelimiter.symm
  · rw [withSession, hsettings]
    exact hfirst next

/-- A command that has decompiled an archive prints a class of the session that this has led to. -/
theorem exists_perform_showClass_eq {s₁ : Workspace} {result : Option TaskResult}
    (hsettings : choice.settings w = .ok settings)
    (hends : TaskEnds .decompileArchive archive (beginning settings engine archive w) s₁
      (.success result)) (name : String) :
    ∃ s : Session, s.pipeline.workspace = s₁ ∧ s.settings = settings ∧
      s.tree = s.pipeline.workspace.tree.2 ∧
      s.settings.delimiter = s.pipeline.workspace.delimiter ∧
      (Command.showClass choice archive (.value name) false).perform engine w =
        printClass s (.value name) false := by
  obtain ⟨s, hworkspace, hsame, htree, hdelimiter, hcomes⟩ := exists_comesTo hsettings hends
  exact ⟨s, hworkspace, hsame, htree, hdelimiter, hcomes _⟩

/-- `show`, for a name that is given without a switch, after an engine that succeeds.  The name is
looked up as it is given if and only if it has no dot, or a dot is the delimiter; so just then it is
sure that a class of that name, whose text is known, is printed as it is.  If no class is known
under the name that is looked up, that is said instead. -/
theorem perform_showClass {s₁ : Workspace} {result : Option TaskResult}
    (hsettings : choice.settings w = .ok settings)
    (hends : TaskEnds .decompileArchive archive (beginning settings engine archive w) s₁
      (.success result)) (name : String) :
    let report := (Command.showClass choice archive (.value name) false).perform engine w
    let asked := askedName settings.delimiter name
    (asked = .whole name ↔ '.' ∉ name.toList ∨ settings.delimiter = .whole ".") ∧
    (∀ n text, asked = .whole n → s₁.store.text? n = some text → Prints report text) ∧
    ((∀ n, asked = .whole n → s₁.store.contains n = false) →
      Prints report (Session.notFound asked.text)) := by
  intro report asked
  obtain ⟨s, rfl, rfl, htree, hdelimiter, hreport⟩ :=
    exists_perform_showClass_eq hsettings hends name
  rw [show report = _ from hreport]
  exact ⟨askedName_eq_iff, fun n text hasked htext => prints_of_text? hasked htext,
    prints_notFound htree hdelimiter⟩

namespace Sample

/-- An engine that reports a class whose name has a dot, and one whose name has a delimiter. -/
def dotted : Factory :=
  .script ⟨"", [], [.unit "a.b" (some "x"), .unit "c/d" (some "y")], []⟩

theorem taskEnds_dotted : ∃ s₁ result,
    TaskEnds .decompileArchive input (beginning Settings.default (some dotted) input desk) s₁
      (.success result) ∧
    s₁.store.entries = [("a.b", some "x"), ("c/d", some "y")] := by
  obtain ⟨s₁, result, hends, hentries⟩ :=
    @exists_taskEnds_of_normal input (beginning Settings.default (some dotted) input desk) dotted
      rfl rfl
  exact ⟨s₁, result, hends, hentries⟩

end Sample

theorem perform_showClass_sample :
    Prints ((Command.showClass Sample.bare Sample.input (.value "c/d") false).perform
      (some Sample.dotted) Sample.desk) "y" := by
  obtain ⟨s₁, result, hends, hentries⟩ := Sample.taskEnds_dotted
  obtain ⟨hasked, hshown, -⟩ := @perform_showClass Sample.bare Settings.default
    (some Sample.dotted) Sample.desk Sample.input s₁ result rfl hends "c/d"
  refine hshown "c/d" "y" (hasked.2 (.inl (by decide))) ?_
  rw [Store.text?, hentries]
  decide

/-- Not every class is shown whose text is known: the name of one that has a dot is looked up with a
delimiter for it, and nothing is found. -/
theorem exists_class_not_shown : ∃ settings s₁ result,
    Sample.bare.settings Sample.desk = .ok settings ∧
    TaskEnds .decompileArchive Sample.input
      (beginning settings (some Sample.dotted) Sample.input Sample.desk) s₁ (.success result) ∧
    s₁.store.text? "a.b" = some "x" ∧
    ¬ Prints ((Command.showClass Sample.bare Sample.input (.value "a.b") false).perform
      (some Sample.dotted) Sample.desk) "x" := by
  obtain ⟨s₁, result, hends, hentries⟩ := Sample.taskEnds_dotted
  refine ⟨Settings.default, s₁, result, rfl, hends, by rw [Store.text?, hentries]; decide, ?_⟩
  intro hprints
  obtain ⟨s, rfl, hsettings, htree, hdelimiter, hreport⟩ :=
    @exists_perform_showClass_eq Sample.bare Settings.default (some Sample.dotted) Sample.desk
      Sample.input s₁ result rfl hends "a.b"
  have hasked : askedName s.settings.delimiter "a.b" = .whole "a/b" := by
    rw [hsettings]
    decide
  have hnone : Prints (printClass s (.value "a.b") false) "// Class not found: a/b" := by
    have hprints := @prints_notFound s "a.b" htree hdelimiter fun n hn => by
      obtain rfl : "a/b" = n := Loose.whole.inj (hasked.symm.trans hn)
      show s.pipeline.workspace.store.entries.contains "a/b" = false
      rw [hentries]
      decide
    rwa [hasked] at hprints
  rw [hreport] at hprints
  have houtput := hprints.output.symm.trans hnone.output
  revert houtput
  decide

end CommandLine

end ClassBrowser
