/-!
# Double-precision numbers

A `Binary64` is a binary floating-point number of 64 bits, given by what it
means: a sign, a significand below `2 ^ 53` and a power of two, or one of the
values outside the reals.  The language has no arithmetic on these numbers; a
literal with a fraction is read, kept in the tree, compared and displayed.

`ofRatio` rounds an exact quotient to the nearest number, a tie going to the even
significand.  The exponent is chosen first: it is the one that puts the quotient
between `2 ^ 52` and `2 ^ 53` units, but never below `-1074`, which is where the
subnormal numbers lie.  Rounding up may reach `2 ^ 53` units, and `normalize`
then moves to the next exponent; a number past the last exponent is infinite.
-/

namespace Octet

/-- A double-precision number. -/
inductive Binary64 where
  /-- Not a number. -/
  | nan
  /-- One of the two infinities. -/
  | infinite (negative : Bool)
  /-- The number `± significand * 2 ^ exponent`. -/
  | finite (negative : Bool) (significand : Nat) (exponent : Int)
  deriving DecidableEq, Repr

namespace Binary64

/-- The least significand of 53 bits, `2 ^ 52`. -/
def minNormal : Nat := 4503599627370496

/-- The exponent of the subnormal numbers. -/
def minExponent : Int := -1074

/-- The greatest exponent of a finite number. -/
def maxExponent : Int := 971

/-- The quotient of two natural numbers, rounded to the nearest; a tie goes to
the even neighbour. -/
def roundDiv (num den : Nat) : Nat :=
  let q := num / den
  let r := num % den
  if 2 * r < den then q
  else if den < 2 * r then q + 1
  else if q % 2 = 0 then q else q + 1

/-- `num / den` counted in units of `2 ^ exponent`, as a fraction. -/
def inUnits (num den : Nat) (exponent : Int) : Nat × Nat :=
  if exponent < 0 then (num * Nat.pow 2 (-exponent).toNat, den)
  else (num, den * Nat.pow 2 exponent.toNat)

/-- The exponent whose units measure the positive fraction `num / den` with 53
bits, or the least one. -/
def unitFor (num den : Nat) : Int :=
  let guess : Int := (Nat.log2 num : Int) - (Nat.log2 den : Int) - 52
  let (n, d) := inUnits num den guess
  max minExponent (if n / d < minNormal then guess - 1 else guess)

/-- A rounded significand with its exponent, as a number. -/
def normalize (negative : Bool) (significand : Nat) (exponent : Int) : Binary64 :=
  let (m, e) :=
    if significand = 2 * minNormal then (minNormal, exponent + 1) else (significand, exponent)
  if maxExponent < e then .infinite negative else .finite negative m e

/-- The number nearest to `± num / den`. -/
def ofRatio (negative : Bool) (num den : Nat) : Binary64 :=
  if num = 0 then .finite negative 0 minExponent
  else
    let e := unitFor num den
    let (n, d) := inUnits num den e
    normalize negative (roundDiv n d) e

/-- The number nearest to `± digits * 10 ^ exponent`.  A decimal far outside the
range is settled by its size alone. -/
def ofDecimal (negative : Bool) (digits : Nat) (exponent : Int) : Binary64 :=
  let size : Int := (Nat.toDigits 10 digits).length + exponent
  if digits = 0 then .finite negative 0 minExponent
  else if 400 < size then .infinite negative
  else if size < -400 then .finite negative 0 minExponent
  else if exponent < 0 then ofRatio negative digits (Nat.pow 10 (-exponent).toNat)
  else ofRatio negative (digits * Nat.pow 10 exponent.toNat) 1

/-- Whether a number equals an integer, without any rounding. -/
def eqInt : Binary64 → Int → Bool
  | .finite negative m e, n =>
    let (k, d) := inUnits n.natAbs 1 e
    k == m * d && (m == 0 || negative == decide (n < 0))
  | _, _ => false

/-- Whether two numbers are equal: the two zeros are, and nothing equals what is
not a number. -/
def eq : Binary64 → Binary64 → Bool
  | .finite s m e, .finite s' m' e' => (m == 0 && m' == 0) || (s == s' && m == m' && e == e')
  | .infinite s, .infinite s' => s == s'
  | _, _ => false

end Binary64
end Octet
