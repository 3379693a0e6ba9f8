import ClassBrowser.Proofs.CommandLine.ShowClass
import ClassBrowser.Proofs.Source.Colours

/-!
# The command `show` in colours

The switch for colours changes nothing but the style in which a class is shown.  Both runs come to
the same session and there to the same text (`Shows`), which the one prints as it is and the other
as the rendering of its highlighted spans; the line end behind it is decided by the text in both
(`printClass_eq`).  Where no text is shown, the runs do not differ at all
(`perform_showClass_colour`).
-/

namespace ClassBrowser.CommandLine

open Source (escape withoutSequences renderAnsi highlight javaKeywords Colours)

variable {choice : EngineChoice} {engine : Option Factory} {w : World} {archive : Path}
  {s s' : Session} {name : Given String} {asked text : String} {spans : List Source.Span}

/-- Whether a text is what a command shows of a class: what is stored of it, what the engine
renders, or what stands for a class without a text. -/
def Shows (choice : EngineChoice) (engine : Option Factory) (archive : Path)
    (name : Given String) (w : World) (text : String) : Prop :=
  ∃ s asked s' spans, ComesTo choice engine archive w s ∧ name = .value asked ∧
    highlightedUnder s (askedName s.settings.delimiter asked) = (s', .ok (text, spans))

/-! ## What is printed of a text -/

/-- The spans that are shown are those of the text. -/
theorem spans_eq_highlight {asked : Text.Loose}
    (h : highlightedUnder s asked = (s', .ok (text, spans))) :
    spans = highlight text.toList javaKeywords := by
  cases asked with
  | whole name =>
    change s.highlighted name = _ at h
    unfold Session.highlighted at h
    rcases hcontent : s.content name with ⟨s₁, shown⟩
    rw [hcontent] at h
    cases shown with
    | error t => cases h
    | ok found =>
      cases h
      rfl
  | torn glyphs _ =>
    cases h
    rfl

theorem printClass_eq (h : highlightedUnder s (askedName s.settings.delimiter asked) =
      (s', .ok (text, spans))) (color : Bool) :
    printClass s (.value asked) color =
      .ended (.raw (if color then renderAnsi (highlight text.toList javaKeywords) else text) ::
        missingLineEnd text) .normal s'.world := by
  rw [← spans_eq_highlight h, printClass]
  dsimp only [Given.get]
  rw [h]

/-- Where no text is shown, nothing depends on the colours. -/
theorem printClass_congr (h : ∀ asked s' text spans, name = .value asked →
      highlightedUnder s (askedName s.settings.delimiter asked) ≠ (s', .ok (text, spans))) :
    printClass s name true = printClass s name false := by
  cases name with
  | nothing => rfl
  | value asked =>
    unfold printClass
    dsimp only [Given.get]
    rcases hshown : highlightedUnder s (askedName s.settings.delimiter asked) with ⟨s', shown⟩
    cases shown with
    | error t => rfl
    | ok found => exact absurd hshown (h asked s' found.1 found.2 rfl)

theorem output_ended_raw (shown text : String) (ending : Ending) (w : World) :
    (Report.ended (.raw shown :: missingLineEnd text) ending w).output =
      shown ++ if text.toList.getLast? = some '\n' then "" else "\n" := by
  unfold missingLineEnd
  by_cases hend : text.toList.getLast? = some '\n' <;>
    simp [hend, Report.output, Report.ended, Printed.text]

/-! ## The command as a whole -/

/-- The runs with and without colours come to the same session. -/
theorem perform_showClass_of_comesTo (h : ComesTo choice engine archive w s) (color : Bool) :
    (Command.showClass choice archive name color).perform engine w = printClass s name color :=
  h _

/-- **Colours never change the text.**  Without the style sequences, what `show` prints in colours
is what it prints without them, for every class whose text has no escape character; and if no text
is shown, the two runs are the same.  In the rendering of such a text each string, comment and
keyword stands between the sequence of its kind and a reset, and plain text has no style. -/
theorem perform_showClass_colour (choice : EngineChoice) (engine : Option Factory) (archive : Path)
    (name : Given String) (w : World) :
    let plain := (Command.showClass choice archive name false).perform engine w
    let coloured := (Command.showClass choice archive name true).perform engine w
    (∀ text, Shows choice engine archive name w text → Prints plain text ∧
      coloured.ending = .normal ∧ coloured.world = plain.world ∧
      (escape ∉ text.toList → withoutSequences coloured.output = plain.output)) ∧
    ((∀ text, ¬ Shows choice engine archive name w text) → coloured = plain) ∧
    ∀ text keywords, escape ∉ text →
      Colours (highlight text keywords) (renderAnsi (highlight text keywords)) := by
  intro plain coloured
  refine ⟨?_, ?_, fun text keywords h => Source.colours_renderAnsi fun s hs =>
    Source.escape_not_mem_of_highlight h hs⟩
  · rintro text ⟨s, asked, s', spans, hcomes, rfl, hshown⟩
    have hplain : plain = _ := (perform_showClass_of_comesTo hcomes false).trans
      (printClass_eq hshown false)
    have hcoloured : coloured = _ := (perform_showClass_of_comesTo hcomes true).trans
      (printClass_eq hshown true)
    rw [hplain, hcoloured]
    refine ⟨⟨rfl, ?_⟩, rfl, rfl, fun hescape => ?_⟩
    · rw [output_ended_raw, if_neg Bool.false_ne_true]
      split
      · exact String.append_empty
      · rfl
    · have hend : escape ∉ (if text.toList.getLast? = some '\n' then "" else "\n").toList := by
        split <;> decide
      rw [output_ended_raw, output_ended_raw, if_pos rfl, if_neg Bool.false_ne_true,
        Source.withoutSequences_renderAnsi_append
          (fun s hs => Source.escape_not_mem_of_highlight hescape hs) hend,
        Source.flatMap_text_highlight, String.ofList_toList]
  · intro hnone
    obtain ⟨s, hcomes⟩ | ⟨report, hends⟩ := comesTo_cases choice engine archive w
    · refine (perform_showClass_of_comesTo hcomes true).trans
        (Eq.trans (printClass_congr ?_) (perform_showClass_of_comesTo hcomes false).symm)
      intro asked s' text spans hname hshown
      exact hnone text ⟨s, asked, s', spans, hcomes, hname, hshown⟩
    · exact (hends _).trans (hends _).symm

namespace Sample

/-- A text with a keyword at its start, and digits and an `m` behind a string. -/
def motley : String := "int\x22a\x221m"

/-- An engine that reports a class with this text. -/
def motleyReporter : Factory := .script ⟨"", [], [.unit "c/d" (some motley)], []⟩

theorem shows_motley :
    Shows bare (some motleyReporter) input (.value "c/d") desk motley := by
  obtain ⟨s₁, result, hends, hentries⟩ := @exists_taskEnds_of_normal input
    (beginning Settings.default (some motleyReporter) input desk) motleyReporter rfl rfl
  obtain ⟨s, rfl, hsettings, -, -, hcomes⟩ := @exists_comesTo bare Settings.default
    (some motleyReporter) desk input s₁ result rfl hends
  have hasked : askedName s.settings.delimiter "c/d" = .whole "c/d" := by
    rw [hsettings]
    decide
  have htext : s.store.text? "c/d" = some motley := by
    rw [Session.store, Store.text?, hentries]
    decide
  refine ⟨s, "c/d", s, highlight motley.toList javaKeywords, hcomes, rfl, ?_⟩
  rw [hasked]
  show s.highlighted "c/d" = _
  rw [Session.highlighted, Session.content_of_text? htext]
  rfl

end Sample

theorem perform_showClass_colour_sample :
    withoutSequences ((Command.showClass Sample.bare Sample.input (.value "c/d") true).perform
        (some Sample.motleyReporter) Sample.desk).output = Sample.motley ++ "\n" ∧
      Colours (highlight Sample.motley.toList javaKeywords)
        (renderAnsi (highlight Sample.motley.toList javaKeywords)) := by
  have hescape : escape ∉ Sample.motley.toList := by decide
  obtain ⟨htext, -, hcolours⟩ := perform_showClass_colour Sample.bare (some Sample.motleyReporter)
    Sample.input (.value "c/d") Sample.desk
  obtain ⟨hprints, -, -, hsame⟩ := htext Sample.motley Sample.shows_motley
  refine ⟨(hsame hescape).trans (hprints.output.trans (if_neg (by decide))), ?_⟩
  exact hcolours Sample.motley.toList javaKeywords hescape

end ClassBrowser.CommandLine
