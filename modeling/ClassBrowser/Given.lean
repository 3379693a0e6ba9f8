/-!
# Given values

An argument of the command line may be there and yet have no value: two dashes in the place of the
value are taken for the mark behind which there are no switches, and nothing is left (`ofWord`).
The argument counts as given all the same, and that there is nothing shows only where the value is
used (`get`).
-/

namespace ClassBrowser

/-- What is given for an argument: a value, or nothing at all. -/
inductive Given (α : Type)
  | value (a : α)
  | nothing
deriving DecidableEq, Repr, Inhabited

/-- What was wanted where nothing is given: a path, or something with an ability. -/
inductive Lack
  | path
  | ability (name : String)
deriving DecidableEq, Repr, Inhabited

def Lack.message : Lack → String
  | .path => "expected str, bytes or os.PathLike object, not list"
  | .ability name => s!"'list' object has no attribute '{name}'"

namespace Given

def ofWord (word : String) : Given String := if word = "--" then .nothing else .value word

/-- Two dashes are the only word that gives nothing. -/
theorem ofWord_eq_nothing_iff {word : String} : ofWord word = .nothing ↔ word = "--" := by
  by_cases h : word = "--" <;> simp [ofWord, h]

def convert {α β ε : Type} (f : α → Except ε β) : Given α → Except ε (Given β)
  | .value a => (f a).map .value
  | .nothing => .ok .nothing

/-- The value, where one is needed for what `lack` says. -/
def get {α : Type} (lack : Lack) : Given α → Except Lack α
  | .value a => .ok a
  | .nothing => .error lack

end Given

end ClassBrowser
