import Octet.Number.Shortest

/-!
# Decimal text of numbers

How double-precision numbers are spelled.  The digits are the fewest that read
back; how they are laid out is decided by one record, `Layout.standard`: a number
whose leading digit stands for `10 ^ e` is written positionally for
`-4 ≤ e < 16`, always with a fraction, and otherwise with an exponent that has a
sign and at least two digits.

Reading takes the usual spellings of a number, with or without fraction and
exponent, and the names of the values outside the reals, and rounds to the
nearest number.
-/

namespace Octet

namespace Decimal

/-- The value of a decimal digit. -/
def digitValue (c : Char) : Nat :=
  c.toNat - 48

/-- The number that decimal digits spell. -/
def value (digits : List Char) : Nat :=
  digits.foldl (fun acc c => acc * 10 + digitValue c) 0

@[simp] theorem value_nil : value [] = 0 := rfl

/-- The greatest number of digits that are read as an integer. -/
def maxDigits : Nat := 4300

/-- An optional sign in front of a text, and the rest of the text. -/
def splitSign : List Char → Bool × List Char
  | '-' :: rest => (true, rest)
  | '+' :: rest => (false, rest)
  | text => (false, text)

/-- The number with a fraction that digits before and after the point spell. -/
def fraction (whole part : List Char) : Binary64 :=
  Binary64.ofDecimal false (value (whole ++ part)) (-(part.length : Int))

end Decimal

/-- How the digits of a number are laid out. -/
structure Layout where
  /-- The least exponent of the leading digit that is written positionally. -/
  positionalFrom : Int
  /-- The least exponent above it that is not. -/
  positionalTo : Int
  /-- The least number of digits of a written exponent. -/
  exponentWidth : Nat

namespace Layout

/-- Positional from `10 ^ -4` up to `10 ^ 16`, and exponents of at least two
digits. -/
def standard : Layout := ⟨-4, 16, 2⟩

/-- Digits without trailing zeros. -/
def significant (digits : List Char) : List Char :=
  (digits.reverse.dropWhile (· == '0')).reverse

/-- The exponent part of a number. -/
def exponentText (l : Layout) (e : Int) : List Char :=
  let digits := Nat.toDigits 10 e.natAbs
  'e' :: (if e < 0 then '-' else '+') ::
    (List.replicate (l.exponentWidth - digits.length) '0' ++ digits)

/-- Digits whose first one stands for `10 ^ e`, laid out. -/
def place (l : Layout) (digits : List Char) (e : Int) : List Char :=
  if l.positionalFrom ≤ e ∧ e < l.positionalTo then
    if e < 0 then
      '0' :: '.' :: (List.replicate (-e - 1).toNat '0' ++ digits)
    else
      let n := e.toNat + 1
      let whole := digits.take n ++ List.replicate (n - digits.length) '0'
      let part := digits.drop n
      whole ++ '.' :: (if part.isEmpty then ['0'] else part)
  else
    let part := digits.drop 1
    digits.take 1 ++ (if part.isEmpty then [] else '.' :: part) ++ l.exponentText e

/-- The text of a positive finite number. -/
def magnitude (l : Layout) (significand : Nat) (exponent : Int) : List Char :=
  if significand = 0 then ['0', '.', '0']
  else
    let d := Shortest.decimal significand exponent
    let digits := Nat.toDigits 10 d.digits
    l.place (significant digits) (d.exponent + digits.length - 1)

end Layout

namespace Binary64

/-- The text of a number. -/
def display : Binary64 → String
  | .nan => "nan"
  | .infinite negative => if negative then "-inf" else "inf"
  | .finite negative m e =>
    let text := Layout.standard.magnitude m e
    String.ofList (if negative then '-' :: text else text)

/-- The exponent part of a number: empty, or a mark, an optional sign and
digits. -/
def exponent? : List Char → Option Int
  | [] => some 0
  | mark :: rest =>
    let (negative, digits) := Decimal.splitSign rest
    if (mark = 'e' ∨ mark = 'E') ∧ digits ≠ [] ∧ digits.all Char.isDigit then
      let n : Int := Decimal.value digits
      some (if negative then -n else n)
    else none

/-- The number that a text without sign spells in decimal. -/
def unsigned? (negative : Bool) (text : List Char) : Option Binary64 :=
  let whole := text.takeWhile Char.isDigit
  let rest := text.dropWhile Char.isDigit
  let (part, rest) := match rest with
    | '.' :: tail => (tail.takeWhile Char.isDigit, tail.dropWhile Char.isDigit)
    | tail => ([], tail)
  if whole.isEmpty && part.isEmpty then none
  else (exponent? rest).map fun e =>
    ofDecimal negative (Decimal.value (whole ++ part)) (e - part.length)

/-- The number that a text spells. -/
def ofText? (text : String) : Option Binary64 :=
  let (negative, rest) := Decimal.splitSign text.toList
  match String.ofList (rest.map Char.toLower) with
  | "nan" => some .nan
  | "inf" => some (.infinite negative)
  | "infinity" => some (.infinite negative)
  | _ => unsigned? negative rest

end Binary64
end Octet
