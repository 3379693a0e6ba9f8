import ClassBrowser.Source.Keyword

/-!
# Highlighted text

`highlight` classifies a text completely: its regions, with the plain ones cut at the keywords they
hold.  The keywords of the whole text are found first and are then used up, in order, by one walk
over the regions (`cutPlain` for a plain region).

The two passes look at the text in different ways, for regions at its quotes and comment marks, for
keywords at its words.  The walk relies on it that each keyword lies inside one plain region, which
the search for keywords has made sure of (`insidePlain`).
-/

namespace ClassBrowser.Source

/-- A plain span, or nothing where it would be empty. -/
def plainSpan (start : Nat) (text : List Char) : List Span :=
  if text.isEmpty then [] else [⟨.default, start, text⟩]

/-- Cuts the plain text `rest`, which begins at `cursor`, at the ranges that end inside it; also
gives the ranges that are left for later text. -/
def cutPlain (cursor : Nat) (rest : List Char) :
    List (Nat × Nat) → List Span × List (Nat × Nat)
  | [] => (plainSpan cursor rest, [])
  | (first, last) :: ranges =>
    if last ≤ cursor + rest.length then
      let later := cutPlain last (rest.drop (last - cursor)) ranges
      (plainSpan cursor (rest.take (first - cursor)) ++
        ⟨.keyword, first, (rest.drop (first - cursor)).take (last - first)⟩ :: later.1, later.2)
    else (plainSpan cursor rest, (first, last) :: ranges)

/-- Walks over the regions and cuts the plain ones at the ranges, in order. -/
def cutRegions : List Span → List (Nat × Nat) → List Span
  | [], _ => []
  | region :: later, ranges =>
    if region.kind = .default then
      let cut := cutPlain region.start region.text ranges
      cut.1 ++ cutRegions later cut.2
    else region :: cutRegions later ranges

def highlight (text : List Char) (keywords : List String) : List Span :=
  let parts := regions text
  cutRegions parts (keywordRanges text (parts.map Span.extent) keywords)

end ClassBrowser.Source
