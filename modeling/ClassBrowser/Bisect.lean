/-!
# Halving search

`firstWhere stop lo hi` looks for the first position of `[lo, hi)` where `stop` holds by halving
the interval; it is exact whenever `stop` changes at most once, from `false` to `true`.  Two
searches of the library are instances of it: `countUpTo`, which finds how many entries of an
ascending array are at most a given number, and the look-up of a code point in a table of
boundaries (`inAlternating`).
-/

namespace ClassBrowser.Bisect

/-- The first position of `[lo, hi)` at which `stop` holds, or `hi`, provided that `stop` changes
at most once on the interval. -/
def firstWhere (stop : Nat → Bool) (lo hi : Nat) : Nat :=
  if lo < hi then
    let mid := (lo + hi) / 2
    if stop mid then firstWhere stop lo mid else firstWhere stop (mid + 1) hi
  else lo
termination_by hi - lo

/-- How many entries of an ascending array are at most `x`, found by halving.  On an array in any
other order the answer is the position at which this very search stops. -/
def countUpTo (xs : Array Int) (x : Int) : Nat :=
  firstWhere (fun i => match xs[i]? with
    | some y => decide (x < y)
    | none => true) 0 xs.size

/-- Membership in a set of numbers given by its boundaries: the set begins at the first boundary,
ends before the second, begins again at the third, and so on. -/
def inAlternating (boundaries : Array Nat) (n : Nat) : Bool :=
  firstWhere (fun i => match boundaries[i]? with
    | some b => decide (n < b)
    | none => true) 0 boundaries.size % 2 == 1

/-- The search stays inside its interval. -/
theorem firstWhere_bounds (stop : Nat → Bool) (lo hi : Nat) (h : lo ≤ hi) :
    lo ≤ firstWhere stop lo hi ∧ firstWhere stop lo hi ≤ hi := by
  fun_induction firstWhere stop lo hi with
  | case1 lo hi hlt mid hs ih =>
    have := ih (by omega)
    omega
  | case2 lo hi hlt mid hs ih =>
    have := ih (by omega)
    omega
  | case3 lo hi hlt => omega

/-- The search is exact where `stop` changes at `k` and nowhere else. -/
theorem firstWhere_eq (stop : Nat → Bool) {lo hi k : Nat} (hlo : lo ≤ k) (hhi : k ≤ hi)
    (below : ∀ i, i < k → stop i = false) (above : ∀ i, k ≤ i → i < hi → stop i = true) :
    firstWhere stop lo hi = k := by
  fun_induction firstWhere stop lo hi with
  | case1 lo hi hlt mid hs ih =>
    have hmid : k ≤ mid := Nat.le_of_not_lt fun hk => by simp [below mid hk] at hs
    exact ih hlo hmid fun i h₁ h₂ => above i h₁ (by omega)
  | case2 lo hi hlt mid hs ih =>
    have hmid : mid < k := Nat.lt_of_not_le fun hk => hs (above mid hk (by omega))
    exact ih hmid hhi above
  | case3 lo hi hlt => omega

/-- The count is exact where the entries up to a position are at most `x` and those behind it are
greater. -/
theorem countUpTo_eq {xs : Array Int} {x : Int} {k : Nat} (hk : k ≤ xs.size)
    (below : ∀ i y, i < k → xs[i]? = some y → y ≤ x)
    (above : ∀ i y, k ≤ i → xs[i]? = some y → x < y) : countUpTo xs x = k := by
  apply firstWhere_eq _ (Nat.zero_le k) hk
  · intro i hi
    have hy : xs[i]? = some xs[i] := Array.getElem?_eq_getElem (by omega)
    have := below i _ hi hy
    simp only [hy]
    exact decide_eq_false (by omega)
  · intro i hi hsize
    have hy : xs[i]? = some xs[i] := Array.getElem?_eq_getElem hsize
    simp only [hy]
    exact decide_eq_true (above i _ hi hy)

end ClassBrowser.Bisect
