import Octet.Number.Decimal
import Octet.Text.Quoted

/-!
# Scalars

A scalar is what a literal stands for and what a finished program returns: a
truth value, an integer of any size, a double-precision number or a text.  Where
there may be none, as for most tokens and for a bare `return`, the project writes
`Option Scalar`.

Scalars are compared as values, not as spellings: a truth value counts as zero or
one, an integer equals a double-precision number when they are the same real
number, and a text equals only a text.
-/

namespace Octet

/-- The value of a literal, or the result of a program. -/
inductive Scalar where
  | bool (b : Bool)
  | int (n : Int)
  | real (x : Binary64)
  | text (s : String)
  deriving DecidableEq, Repr

namespace Scalar

/-- The integer that a truth value or an integer counts as. -/
def toInt? : Scalar → Option Int
  | .bool b => some (if b then 1 else 0)
  | .int n => some n
  | _ => none

/-- Whether two scalars are the same value. -/
def same : Scalar → Scalar → Bool
  | .text s, .text t => s == t
  | .real x, .real y => x.eq y
  | .real x, b => b.toInt?.elim false x.eqInt
  | a, .real y => a.toInt?.elim false y.eqInt
  | a, b => match a.toInt?, b.toInt? with
    | some m, some n => m == n
    | _, _ => false

/-- The text of a scalar, a text being shown between quotes. -/
def display : Scalar → String
  | .bool b => if b then "True" else "False"
  | .int n => toString n
  | .real x => x.display
  | .text s => Text.quoted s

/-- The text of a scalar that may be missing. -/
def displayOption (v : Option Scalar) : String :=
  v.elim "None" display

/-- Whether two scalars that may be missing are the same value. -/
def sameOption : Option Scalar → Option Scalar → Bool
  | some a, some b => a.same b
  | none, none => true
  | _, _ => false

end Scalar
end Octet
