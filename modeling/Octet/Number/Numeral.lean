import Octet.Number.Decimal
import Octet.Text.Digit

/-!
# Integers given by a user

A user may write an integer with blanks around it, with a sign, with leading
zeros, with the digits of any script, and with single underscores between the
digits.  `Numeral.toInt?` reads such a text; it refuses one with too many digits,
leading zeros counted.
-/

namespace Octet
namespace Numeral

/-- The values of digits with single underscores between them; at least one digit
is needed. -/
def digits? : List Char → Option (List Nat)
  | [] => none
  | [c] => (Text.digitValue? c).map ([·])
  | c :: '_' :: rest => do
    let d ← Text.digitValue? c
    let ds ← digits? rest
    return d :: ds
  | c :: rest => do
    let d ← Text.digitValue? c
    let ds ← digits? rest
    return d :: ds

/-- The integer that a text spells. -/
def toInt? (text : String) : Option Int := do
  let (negative, rest) := Decimal.splitSign (Text.strip text.toList)
  let digits ← digits? rest
  if Decimal.maxDigits < digits.length then none
  else
    let n : Nat := digits.foldl (fun acc d => acc * 10 + d) 0
    return if negative then -(n : Int) else n

end Numeral
end Octet
