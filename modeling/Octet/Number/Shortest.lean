import Octet.Number.Binary64

/-!
# The fewest digits that read back

A double-precision number is shown by the shortest decimal that rounds to it and,
of those, by the one nearest to it.  `Shortest.decimal` finds it by trying one,
two, three digits and so on, all in exact arithmetic on natural numbers.

Everything is counted in quarters of the number's own unit, so that the number
`m * 2 ^ e` is `4 * m` quarters and the reals that round to it reach two quarters
to either side.  Below a power of two the neighbours lie twice as dense, so there
only one quarter is left on the lower side.  The two ends belong to the interval
exactly when `m` is even, since a tie goes to the even significand.

For a given number of digits only the two neighbours of the number on the decimal
grid matter: if any point of the grid lies in the interval, one of these does.
With seventeen digits one always does.
-/

namespace Octet
namespace Shortest

/-- A decimal `digits * 10 ^ exponent`. -/
structure Decimal where
  digits : Nat
  exponent : Int
  deriving DecidableEq, Repr

/-- The positive numbers that round to a given one: `center`, and how far the
interval reaches below and above it, all counted in units of `2 ^ exponent`, and
whether its ends belong to it. -/
structure Interval where
  center : Nat
  below : Nat
  above : Nat
  exponent : Int
  closed : Bool

/-- The numbers that round to `significand * 2 ^ exponent`. -/
def interval (significand : Nat) (exponent : Int) : Interval where
  center := 4 * significand
  below := if significand = Binary64.minNormal ∧ exponent ≠ Binary64.minExponent then 1 else 2
  above := 2
  exponent := exponent - 2
  closed := significand % 2 == 0

/-- `k * 2 ^ e / 10 ^ t` as a fraction. -/
def scaled (k : Nat) (e t : Int) : Nat × Nat :=
  (k * Nat.pow 2 e.toNat * Nat.pow 10 (-t).toNat, Nat.pow 2 (-e).toNat * Nat.pow 10 t.toNat)

/-- Whether `digits * 10 ^ t` lies in the interval. -/
def Interval.holds (i : Interval) (digits : Nat) (t : Int) : Bool :=
  let (low, den) := scaled (i.center - i.below) i.exponent t
  let (high, _) := scaled (i.center + i.above) i.exponent t
  let point := digits * den
  if i.closed then low ≤ point && point ≤ high else low < point && point < high

/-- The number of decimal digits of a natural number. -/
def width (n : Nat) : Nat :=
  (Nat.toDigits 10 n).length

/-- The exponent of the leading decimal digit of the positive fraction
`num / den`. -/
def leading (num den : Nat) : Int :=
  if den ≤ num then (width (num / den) : Int) - 1
  else -(width ((den + num - 1) / num - 1) : Int)

/-- The neighbour of the number on the grid of multiples of `10 ^ t` that reads
back, the nearer one if both do, and the even one of two equally near. -/
def onGrid (i : Interval) (t : Int) : Option Nat :=
  let (num, den) := scaled i.center i.exponent t
  let down := num / den
  let rest := num % den
  match i.holds down t && down != 0, i.holds (down + 1) t with
  | true, true =>
    some (if 2 * rest < den || (2 * rest == den && down % 2 == 0) then down else down + 1)
  | true, false => some down
  | false, true => some (down + 1)
  | false, false => none

/-- Try more and more digits, `count` of them at first, `tries` times. -/
def search (i : Interval) (top : Int) : (tries count : Nat) → Option Decimal
  | 0, _ => none
  | tries + 1, count =>
    let t := top - count + 1
    match onGrid i t with
    | some digits => some ⟨digits, t⟩
    | none => search i top tries (count + 1)

/-- The shortest decimal that rounds to `significand * 2 ^ exponent`, for a
positive significand. -/
def decimal (significand : Nat) (exponent : Int) : Decimal :=
  let i := interval significand exponent
  let (num, den) := scaled i.center i.exponent 0
  (search i (leading num den) 17 1).getD ⟨0, 0⟩

end Shortest
end Octet
