import ClassBrowser.Decimal.Binary64

/-!
# Shortest decimal text

A binary fraction is written with the fewest significant digits that read back as the same fraction
and, of several such numerals, the one nearest to it.  The reals that read back as a fraction form
an interval, whose ends belong to it when the mantissa is even; of every decimal grid only the two
neighbours of the fraction need to be tried.

The digits stand in positional notation while the decimal exponent is from -4 to 15, always with a
point; otherwise one digit stands before the point and the exponent has a sign and two digits.
-/

namespace ClassBrowser.Decimal

/-- The interval of reals that round to a fraction, over a common denominator: its two ends, the
fraction itself, the denominator, and whether the ends belong to it. -/
structure Rounding where
  low : Nat
  high : Nat
  value : Nat
  den : Nat
  closed : Bool
deriving Repr, Inhabited

/-- The interval of `m * 2 ^ e` for a positive `m`.  Below a power of two the next fraction is only
half as far away. -/
def Rounding.of (m : Nat) (e : Int) : Rounding :=
  let narrow := m = pow2 52 ∧ -1074 < e
  let lower := if narrow then 4 * m - 1 else 4 * m - 2
  if 0 ≤ e then
    let unit := pow2 e.toNat
    ⟨lower * unit, (4 * m + 2) * unit, 4 * m * unit, 4, m % 2 == 0⟩
  else ⟨lower, 4 * m + 2, 4 * m, 4 * pow2 (-e).toNat, m % 2 == 0⟩

/-- Whether `n * 10 ^ k` lies in the interval. -/
def Rounding.holds (r : Rounding) (n : Nat) (k : Int) : Bool :=
  let (x, scale) := if 0 ≤ k then (n * pow10 k.toNat * r.den, 1) else (n * r.den, pow10 (-k).toNat)
  if r.closed then decide (r.low * scale ≤ x ∧ x ≤ r.high * scale)
  else decide (r.low * scale < x ∧ x < r.high * scale)

def Rounding.inUnits (r : Rounding) (k : Int) : Nat × Nat :=
  if 0 ≤ k then (r.value, r.den * pow10 k.toNat) else (r.value * pow10 (-k).toNat, r.den)

structure Numeral where
  digits : Nat
  exponent : Int
deriving DecidableEq, Repr, Inhabited

/-- The neighbour of the fraction on the grid of `10 ^ k` that reads back; the nearer one if both
do. -/
def Rounding.onGrid? (r : Rounding) (k : Int) : Option Numeral :=
  let (n, d) := r.inUnits k
  let below := n / d
  match r.holds below k, r.holds (below + 1) k with
  | true, true =>
    if nearest n d = below then some ⟨below, k⟩ else some ⟨below + 1, k⟩
  | true, false => some ⟨below, k⟩
  | false, true => some ⟨below + 1, k⟩
  | false, false => none

/-- The first hit among the grids that begin with `10 ^ k`, each ten times finer than the last. -/
def Rounding.search (r : Rounding) : (grids : Nat) → (k : Int) → Numeral
  | 0, k => ⟨nearest (r.inUnits k).1 (r.inUnits k).2, k⟩
  | grids + 1, k =>
    match r.onGrid? k with
    | some n => n
    | none => r.search grids (k - 1)

def leadingExponent (num den : Nat) : Int :=
  if den ≤ num then ((Nat.toDigits 10 (num / den)).length : Int) - 1
  else -((Nat.toDigits 10 ((den - 1) / num)).length : Int)

/-- The shortest numeral of a positive fraction. -/
def shortest (m : Nat) (e : Int) : Numeral :=
  let r := Rounding.of m e
  r.search 17 (leadingExponent r.value r.den)

def trimZeros (digits : List Char) : List Char × Nat :=
  let kept := (digits.reverse.dropWhile (· == '0')).reverse
  (kept, digits.length - kept.length)

/-- A decimal exponent with its sign and at least two digits. -/
def exponentText (e : Int) : String :=
  let digits := Nat.toDigits 10 e.natAbs
  (if e < 0 then "-" else "+") ++
    String.ofList (if digits.length < 2 then '0' :: digits else digits)

/-- Significant digits and the exponent of the first of them as text. -/
def layout (digits : List Char) (leading : Int) : String :=
  let count := digits.length
  if leading < -4 ∨ 16 ≤ leading then
    match digits with
    | [] => ""
    | [d] => String.ofList [d] ++ "e" ++ exponentText leading
    | d :: ds => String.ofList (d :: '.' :: ds) ++ "e" ++ exponentText leading
  else if leading < 0 then
    "0." ++ String.ofList (List.replicate (-leading - 1).toNat '0' ++ digits)
  else
    let whole := leading.toNat + 1
    if count ≤ whole then
      String.ofList (digits ++ List.replicate (whole - count) '0') ++ ".0"
    else String.ofList (digits.take whole ++ '.' :: digits.drop whole)

def positiveText (m : Nat) (e : Int) : String :=
  let n := shortest m e
  let all := Nat.toDigits 10 n.digits
  layout (trimZeros all).1 (n.exponent + all.length - 1)

def Binary64.toText : Binary64 → String
  | .nan => "nan"
  | .infinite negative => if negative then "-inf" else "inf"
  | .finite negative m e =>
    (if negative then "-" else "") ++ if m = 0 then "0.0" else positiveText m e

end ClassBrowser.Decimal
