import ClassBrowser.Proofs.Source.Classification
import ClassBrowser.Proofs.Text.Stripping
import ClassBrowser.Source.Ansi

/-!
# Reading coloured text

What a terminal reads in a text: characters to show, and between them the sequences that set a style
(`readAnsi`).  A style is in force until the reset (`painted`).

A rendering of spans is read back as it was made, whatever stands behind it, if no span has an
escape character of its own (`readAnsi_renderAnsi_append`).  Nothing merges: a sequence ends with
its first `m`, so digits that follow are not taken for parameters, and no character of a span begins
a further one.  Hence the text is what is left without the sequences
(`withoutSequences_renderAnsi_append`).
-/

namespace ClassBrowser.Source

/-- The character that begins an escape sequence. -/
def escape : Char := '\x1b'

/-- The characters between the bracket and the end of a style sequence. -/
def isParameter (c : Char) : Bool := c.isDigit || c == ';'

/-- What a terminal reads: a character to show, or a sequence that sets a style. -/
inductive AnsiToken
  | char (c : Char)
  | sequence (text : String)
deriving DecidableEq, Repr

/-- The style sequence at the start of a text and what stands behind it, if there is one. -/
def styleSequence? : List Char → Option (String × List Char)
  | '\x1b' :: '[' :: rest =>
    match rest.dropWhile isParameter with
    | 'm' :: after => some (ansiSequence (String.ofList (rest.takeWhile isParameter)), after)
    | _ => none
  | _ => none

theorem length_of_styleSequence? {cs after : List Char} {sequence : String}
    (h : styleSequence? cs = some (sequence, after)) : after.length < cs.length := by
  unfold styleSequence? at h
  split at h
  · next rest =>
    have hle := (List.dropWhile_sublist (l := rest) isParameter).length_le
    split at h
    · next found hrest =>
      obtain rfl : found = after := (Prod.mk.inj (Option.some.inj h)).2
      rw [hrest] at hle
      simp only [List.length_cons] at hle ⊢
      omega
    · cases h
  · cases h

/-- What a terminal reads in a text, from the left. -/
def readAnsi : List Char → List AnsiToken
  | [] => []
  | c :: cs =>
    match _found : styleSequence? (c :: cs) with
    | some (sequence, after) => .sequence sequence :: readAnsi after
    | none => .char c :: readAnsi cs
termination_by cs => cs.length
decreasing_by
  · exact length_of_styleSequence? _found
  · simp

/-- The character that a terminal shows. -/
def AnsiToken.char? : AnsiToken → Option Char
  | .char c => some c
  | .sequence _ => none

/-- A text without its style sequences. -/
def withoutSequences (text : String) : String :=
  String.ofList ((readAnsi text.toList).filterMap AnsiToken.char?)

/-- The characters that are shown, each with the style that it is shown in, if any: the one that was
set last, unless it was reset. -/
def painted : Option String → List AnsiToken → List (Char × Option String)
  | _, [] => []
  | style, .char c :: rest => (c, style) :: painted style rest
  | _, .sequence text :: rest => painted (if text = ansiReset then none else some text) rest

/-- What a terminal is to read of a span: its characters, between the sequence of its kind and a
reset if the kind has a style. -/
def Span.tokens (s : Span) : List AnsiToken :=
  match s.kind.ansiStyle with
  | some style => .sequence style :: s.text.map .char ++ [.sequence ansiReset]
  | none => s.text.map .char

variable {c : Char} {cs text t : List Char} {s : Span} {spans : List Span} {start stop : Nat}
  {parameters : String}

/-! ## Reading -/

theorem readAnsi_cons_of_ne (h : c ≠ escape) (cs : List Char) :
    readAnsi (c :: cs) = .char c :: readAnsi cs := by
  have hnone : styleSequence? (c :: cs) = none := by
    unfold styleSequence?
    split
    · next heq => exact absurd (List.cons.inj heq).1 h
    · rfl
  rw [readAnsi]
  split
  · next heq =>
    rw [hnone] at heq
    cases heq
  · rfl

/-- Characters without an escape are read as they are. -/
theorem readAnsi_append (h : escape ∉ t) (cs : List Char) :
    readAnsi (t ++ cs) = t.map .char ++ readAnsi cs := by
  induction t with
  | nil => rfl
  | cons c t ih =>
    obtain ⟨hc, ht⟩ := List.ne_and_not_mem_of_not_mem_cons h
    rw [List.cons_append, readAnsi_cons_of_ne (Ne.symm hc), ih ht]
    rfl

/-- A sequence ends with its own `m`, whatever stands behind it. -/
theorem readAnsi_sequence_append (h : ∀ c ∈ parameters.toList, isParameter c = true)
    (cs : List Char) : readAnsi ((ansiSequence parameters).toList ++ cs) =
      .sequence (ansiSequence parameters) :: readAnsi cs := by
  have hchars : (ansiSequence parameters).toList ++ cs =
      '\x1b' :: '[' :: (parameters.toList ++ 'm' :: cs) := by
    simp [ansiSequence]
  have hfound : styleSequence? ('\x1b' :: '[' :: (parameters.toList ++ 'm' :: cs)) =
      some (ansiSequence parameters, cs) := by
    have hend : ∀ c ∈ ('m' :: cs).head?, isParameter c = false := by
      rintro c ⟨⟩
      decide
    rw [styleSequence?, Text.dropWhile_append_of_head h hend, Text.takeWhile_append_of_head h hend,
      String.ofList_toList]
    rfl
  rw [hchars, readAnsi]
  split
  · next heq =>
    obtain ⟨rfl, rfl⟩ := Prod.mk.inj (Option.some.inj (hfound.symm.trans heq))
    rfl
  · next heq =>
    rw [hfound] at heq
    cases heq

/-! ## Spans -/

/-- A style is a sequence of its own, and only plain text has none. -/
theorem Kind.ansiStyle_cases (k : Kind) :
    (k = .default ∧ k.ansiStyle = none) ∨ (k ≠ .default ∧ ∃ parameters,
      k.ansiStyle = some (ansiSequence parameters) ∧ ansiSequence parameters ≠ ansiReset ∧
        ∀ c ∈ parameters.toList, isParameter c = true) := by
  cases k with
  | default => exact .inl ⟨rfl, rfl⟩
  | string => exact .inr ⟨nofun, _, rfl, by decide, List.all_eq_true.1 rfl⟩
  | lineComment => exact .inr ⟨nofun, _, rfl, by decide, List.all_eq_true.1 rfl⟩
  | blockComment => exact .inr ⟨nofun, _, rfl, by decide, List.all_eq_true.1 rfl⟩
  | keyword => exact .inr ⟨nofun, _, rfl, by decide, List.all_eq_true.1 rfl⟩

theorem readAnsi_toAnsi_append (s : Span) (h : escape ∉ s.text) (cs : List Char) :
    readAnsi (s.toAnsi.toList ++ cs) = s.tokens ++ readAnsi cs := by
  rcases s.kind.ansiStyle_cases with ⟨-, hstyle⟩ | ⟨-, parameters, hstyle, -, hparameters⟩
  · simp only [Span.toAnsi, Span.tokens, hstyle, String.toList_ofList]
    exact readAnsi_append h cs
  · simp only [Span.toAnsi, Span.tokens, hstyle, String.toList_append, String.toList_ofList,
      List.append_assoc]
    rw [readAnsi_sequence_append hparameters, readAnsi_append h, ansiReset,
      readAnsi_sequence_append (List.all_eq_true.1 rfl)]
    simp

theorem renderAnsi_cons (s : Span) (spans : List Span) :
    renderAnsi (s :: spans) = s.toAnsi ++ renderAnsi spans := by
  rw [renderAnsi, List.map_cons, String.join_cons, renderAnsi]

/-- Spans are read back from their rendering, whatever stands behind it. -/
theorem readAnsi_renderAnsi_append (h : ∀ s ∈ spans, escape ∉ s.text) (cs : List Char) :
    readAnsi ((renderAnsi spans).toList ++ cs) = spans.flatMap Span.tokens ++ readAnsi cs := by
  induction spans with
  | nil => rfl
  | cons s spans ih =>
    obtain ⟨hs, hspans⟩ := List.forall_mem_cons.1 h
    calc
      readAnsi ((renderAnsi (s :: spans)).toList ++ cs) =
          readAnsi (s.toAnsi.toList ++ ((renderAnsi spans).toList ++ cs)) := by
        rw [renderAnsi_cons, String.toList_append, List.append_assoc]
      _ = s.tokens ++ readAnsi ((renderAnsi spans).toList ++ cs) := readAnsi_toAnsi_append s hs _
      _ = s.tokens ++ (spans.flatMap Span.tokens ++ readAnsi cs) := by rw [ih hspans]
      _ = (s :: spans).flatMap Span.tokens ++ readAnsi cs := by
        rw [List.flatMap_cons, List.append_assoc]

/-! ## What is shown -/

theorem filterMap_char?_map (cs : List Char) :
    (cs.map AnsiToken.char).filterMap AnsiToken.char? = cs := by
  rw [List.filterMap_map]
  exact List.filterMap_some

theorem filterMap_char?_tokens (s : Span) : s.tokens.filterMap AnsiToken.char? = s.text := by
  unfold Span.tokens
  split
  · rw [List.cons_append, List.filterMap_cons_none rfl, List.filterMap_append,
      filterMap_char?_map]
    exact List.append_nil _
  · exact filterMap_char?_map s.text

/-- Without the sequences the characters of the spans are left, and what stands behind them. -/
theorem withoutSequences_renderAnsi_append (h : ∀ s ∈ spans, escape ∉ s.text) {more : String}
    (hmore : escape ∉ more.toList) :
    withoutSequences (renderAnsi spans ++ more) =
      String.ofList (spans.flatMap Span.text) ++ more := by
  have hspans : (spans.flatMap Span.tokens).filterMap AnsiToken.char? =
      spans.flatMap Span.text := by
    rw [List.filterMap_flatMap]
    exact List.flatMap_congr fun s _ => filterMap_char?_tokens s
  have hread : readAnsi more.toList = more.toList.map .char := by
    simpa [readAnsi] using readAnsi_append hmore []
  calc
    withoutSequences (renderAnsi spans ++ more) =
        String.ofList ((readAnsi ((renderAnsi spans).toList ++ more.toList)).filterMap
          AnsiToken.char?) := by
      rw [withoutSequences, String.toList_append]
    _ = String.ofList ((spans.flatMap Span.tokens ++ more.toList.map AnsiToken.char).filterMap
          AnsiToken.char?) := by
      rw [readAnsi_renderAnsi_append h, hread]
    _ = String.ofList (spans.flatMap Span.text ++ more.toList) := by
      rw [List.filterMap_append, hspans, filterMap_char?_map]
    _ = String.ofList (spans.flatMap Span.text) ++ more := by
      rw [String.ofList_append, String.ofList_toList]

theorem painted_chars (style : Option String) (cs : List Char) (rest : List AnsiToken) :
    painted style (cs.map .char ++ rest) = cs.map (·, style) ++ painted style rest := by
  induction cs with
  | nil => rfl
  | cons c cs ih =>
    calc
      painted style ((c :: cs).map .char ++ rest) =
          (c, style) :: painted style (cs.map .char ++ rest) := by
        rw [List.map_cons, List.cons_append, painted]
      _ = (c, style) :: (cs.map (·, style) ++ painted style rest) := by rw [ih]
      _ = (c :: cs).map (·, style) ++ painted style rest := by
        rw [List.map_cons, List.cons_append]

/-- A span is painted in the style of its kind, and leaves no style behind. -/
theorem painted_tokens_append (s : Span) (rest : List AnsiToken) :
    painted none (s.tokens ++ rest) = s.text.map (·, s.kind.ansiStyle) ++ painted none rest := by
  rcases s.kind.ansiStyle_cases with ⟨-, hstyle⟩ | ⟨-, parameters, hstyle, hne, -⟩
  · simp only [Span.tokens, hstyle]
    exact painted_chars none s.text rest
  · simp only [Span.tokens, hstyle]
    calc
      painted none (.sequence (ansiSequence parameters) :: s.text.map .char ++
            [.sequence ansiReset] ++ rest) =
          painted (some (ansiSequence parameters))
            (s.text.map .char ++ .sequence ansiReset :: rest) := by
        rw [List.append_assoc, List.cons_append, painted, if_neg hne, List.singleton_append]
      _ = s.text.map (·, some (ansiSequence parameters)) ++
            painted (some (ansiSequence parameters)) (.sequence ansiReset :: rest) :=
        painted_chars _ _ _
      _ = s.text.map (·, some (ansiSequence parameters)) ++ painted none rest := by
        rw [painted, if_pos rfl]

theorem painted_flatMap_tokens (spans : List Span) :
    painted none (spans.flatMap Span.tokens) =
      spans.flatMap fun s => s.text.map (·, s.kind.ansiStyle) := by
  induction spans with
  | nil => rfl
  | cons s spans ih => rw [List.flatMap_cons, painted_tokens_append, ih, List.flatMap_cons]

/-! ## Highlighted text -/

/-- Spans that cover a text from a position on hold what stands there. -/
theorem Covers.flatMap_text (h : Covers text start text.length spans) :
    spans.flatMap Span.text = text.drop start := by
  induction spans generalizing start with
  | nil => rw [nil_iff.1 h, List.drop_length, List.flatMap_nil]
  | cons s spans ih =>
    obtain ⟨rfl, -, htext, hlater⟩ := cons_iff.1 h
    rw [List.flatMap_cons, ih hlater, htext]

theorem flatMap_text_highlight (text : List Char) (keywords : List String) :
    (highlight text keywords).flatMap Span.text = text :=
  (cuts_highlight text keywords).covers.flatMap_text.trans List.drop_zero

/-- A span has no escape character where its text has none. -/
theorem escape_not_mem_of_highlight {keywords : List String} (h : escape ∉ text)
    (hs : s ∈ highlight text keywords) : escape ∉ s.text := by
  intro hmem
  refine h ?_
  rw [← flatMap_text_highlight text keywords]
  exact List.mem_flatMap.2 ⟨s, hs, hmem⟩

/-- Whether a text shows spans in colours.  A terminal reads the characters of each span in order,
those of a string, a comment or a keyword between one sequence, that of its kind, and one reset; so
it shows them in the style of their kind, and plain text in none. -/
structure Colours (spans : List Span) (shown : String) : Prop where
  read : readAnsi shown.toList = spans.flatMap Span.tokens
  painted : painted none (readAnsi shown.toList) =
    spans.flatMap fun s => s.text.map (·, s.kind.ansiStyle)
  plain_iff : ∀ s ∈ spans, s.kind.ansiStyle = none ↔ s.kind = .default

theorem colours_renderAnsi (h : ∀ s ∈ spans, escape ∉ s.text) :
    Colours spans (renderAnsi spans) := by
  have hread := readAnsi_renderAnsi_append h []
  rw [List.append_nil, show readAnsi [] = [] by rw [readAnsi], List.append_nil] at hread
  refine ⟨hread, by rw [hread, painted_flatMap_tokens], fun s _ => ?_⟩
  rcases s.kind.ansiStyle_cases with ⟨hk, hstyle⟩ | ⟨hk, parameters, hstyle, -⟩
  · exact ⟨fun _ => hk, fun _ => hstyle⟩
  · exact ⟨fun hnone => (nomatch hstyle.symm.trans hnone), fun heq => absurd heq hk⟩

end ClassBrowser.Source
