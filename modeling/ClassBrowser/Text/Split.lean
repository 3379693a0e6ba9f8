/-!
# Splitting, joining and replacing

Cutting a text at a delimiter of any length.  Occurrences are taken greedily from the left and do
not overlap, so that `a::::b` has an empty middle piece and `aaa` at `aa` leaves an `a` behind.
`joinChars` puts the pieces together again (`joinChars_splitChars`).
-/

namespace ClassBrowser.Text

/-- What follows the text `p` at the start of `s`, if `s` begins with `p`. -/
def dropStart? : (p s : List Char) → Option (List Char)
  | [], s => some s
  | _ :: _, [] => none
  | a :: p, b :: s => if a = b then dropStart? p s else none

theorem eq_append_of_dropStart? {p s r : List Char} (h : dropStart? p s = some r) : s = p ++ r := by
  fun_induction dropStart? p s with
  | case1 s => simpa using h
  | case2 => simp at h
  | case3 p b s ih => simp [ih h]
  | case4 => simp at h

theorem dropStart?_append (p r : List Char) : dropStart? p (p ++ r) = some r := by
  induction p with
  | nil => simp [dropStart?]
  | cons a p ih => simp [dropStart?, ih]

theorem dropStart?_eq_some_iff {p s r : List Char} : dropStart? p s = some r ↔ s = p ++ r :=
  ⟨eq_append_of_dropStart?, fun h => h ▸ dropStart?_append p r⟩

/-- The pieces of `s` between occurrences of the nonempty delimiter `d :: ds`, found from the left;
`piece` is the piece being read, in reverse. -/
def splitFrom (d : Char) (ds : List Char) (piece : List Char) (s : List Char) : List (List Char) :=
  match s with
  | [] => [piece.reverse]
  | c :: rest =>
    match _found : dropStart? (d :: ds) (c :: rest) with
    | some after => piece.reverse :: splitFrom d ds [] after
    | none => splitFrom d ds (c :: piece) rest
termination_by s.length
decreasing_by
  · have := congrArg List.length (eq_append_of_dropStart? _found)
    simp at this
    simp
    omega
  · simp

def splitChars (d : Char) (ds s : List Char) : List (List Char) :=
  splitFrom d ds [] s

def joinChars (d : List Char) : List (List Char) → List Char
  | [] => []
  | [p] => p
  | p :: q :: ps => p ++ d ++ joinChars d (q :: ps)

theorem splitFrom_ne_nil (d : Char) (ds piece s : List Char) : splitFrom d ds piece s ≠ [] := by
  fun_induction splitFrom d ds piece s with
  | case1 => simp
  | case2 => simp
  | case3 => assumption

theorem joinChars_splitFrom (d : Char) (ds piece s : List Char) :
    joinChars (d :: ds) (splitFrom d ds piece s) = piece.reverse ++ s := by
  fun_induction splitFrom d ds piece s with
  | case1 => simp [joinChars]
  | case2 piece c rest after hd ih =>
    have h := eq_append_of_dropStart? hd
    rw [h]
    rcases hs : splitFrom d ds [] after with _ | ⟨q, qs⟩
    · exact absurd hs (splitFrom_ne_nil _ _ _ _)
    · rw [hs] at ih
      simp [joinChars, ih]
  | case3 piece c rest hd ih => simp [ih]

theorem joinChars_splitChars (d : Char) (ds s : List Char) :
    joinChars (d :: ds) (splitChars d ds s) = s := by
  simp [splitChars, joinChars_splitFrom]

/-- The pieces of a text between occurrences of a delimiter; `none` for the empty delimiter, which
occurs everywhere. -/
def split? (delimiter s : String) : Option (List String) :=
  match delimiter.toList with
  | [] => none
  | d :: ds => some ((splitChars d ds s.toList).map String.ofList)

def splitAt (d : Char) (s : String) : List String :=
  (splitChars d [] s.toList).map String.ofList

def replaceChar (c : Char) (replacement s : String) : String :=
  String.ofList (s.toList.flatMap fun x => if x = c then replacement.toList else [x])

def occurs (p : List Char) : (s : List Char) → Bool
  | [] => p.isEmpty
  | c :: s => (dropStart? p (c :: s)).isSome || occurs p s

/-- Removes `ending` where a text ends in it. -/
def dropEnding? (ending s : String) : Option String :=
  (dropStart? ending.toList.reverse s.toList.reverse).map fun r => String.ofList r.reverse

end ClassBrowser.Text
