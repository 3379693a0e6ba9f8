/-!
# Decimal numerals as binary fractions

A number with a decimal point is kept as the nearest binary fraction with 53 significant bits and
an exponent between -1074 and 971; a tie goes to the even neighbour.  Numbers beyond the range are
infinite.  All arithmetic is exact, on natural numbers.
-/

namespace ClassBrowser.Decimal

/-- A signed binary fraction `mantissa * 2 ^ exponent`, an infinity, or no number. -/
inductive Binary64
  | finite (negative : Bool) (mantissa : Nat) (exponent : Int)
  | infinite (negative : Bool)
  | nan
deriving DecidableEq, Repr, Inhabited

def pow2 (n : Nat) : Nat := Nat.pow 2 n

def pow10 (n : Nat) : Nat := Nat.pow 10 n

/-- The natural number nearest to `num / den`; a tie goes to the even neighbour. -/
def nearest (num den : Nat) : Nat :=
  let q := num / den
  let r := num % den
  if 2 * r < den then q
  else if den < 2 * r then q + 1
  else if q % 2 = 0 then q else q + 1

/-- The numerator and the denominator of `num / den / 2 ^ e`. -/
def scaleDown (num den : Nat) (e : Int) : Nat × Nat :=
  if 0 ≤ e then (num, den * pow2 e.toNat) else (num * pow2 (-e).toNat, den)

/-- The exponent at which the positive fraction `num / den` has 53 bits before the point, or the
least exponent. -/
def exponentFor (num den : Nat) : Int :=
  let guess : Int := (num.log2 : Int) - den.log2 - 52
  let (n, d) := scaleDown num den guess
  max (-1074) (if n < d * pow2 52 then guess - 1 else guess)

/-- The binary fraction nearest to `num / den`. -/
def ofFraction (negative : Bool) (num den : Nat) : Binary64 :=
  if num = 0 then .finite negative 0 (-1074)
  else
    let e := exponentFor num den
    let (n, d) := scaleDown num den e
    let m := nearest n d
    let (m, e) := if m = pow2 53 then (pow2 52, e + 1) else (m, e)
    if 971 < e then .infinite negative else .finite negative m e

/-- The decimal exponents beyond which a nonzero numeral is infinite or zero. -/
def decimalRange : Int := 400

/-- The binary fraction nearest to `digits * 10 ^ exponent`, where `digits` has at most `width`
digits. -/
def ofDecimal (negative : Bool) (digits width : Nat) (exponent : Int) : Binary64 :=
  if digits = 0 then .finite negative 0 (-1074)
  else if exponent + width < -decimalRange then .finite negative 0 (-1074)
  else if decimalRange < exponent + ((Nat.toDigits 10 digits).length : Int) then
    .infinite negative
  else if 0 ≤ exponent then ofFraction negative (digits * pow10 exponent.toNat) 1
  else ofFraction negative digits (pow10 (-exponent).toNat)

end ClassBrowser.Decimal
