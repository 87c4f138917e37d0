import Octet.Number.Word32
import Octet.Opcode

/-!
# Instructions

An instruction is an opcode with its operand read.  Operations that treat their
operands alike are one instruction with a parameter: the five of arithmetic, the
four that order two integers, equality and its negation, and the two of logic.

`Opcode.instr?` reads the operand off the bytes behind an opcode.  It fails
exactly when there are too few of them (`Opcode.isSome_instr?`).
-/

namespace Octet

/-- The operations of arithmetic. -/
inductive ArithOp where
  | add | sub | mul | div | mod
  deriving DecidableEq, Repr

namespace ArithOp

/-- The exact result of an operation; there is none for a zero divisor. -/
def eval? : ArithOp → Int → Int → Option Int
  | add, a, b => some (a + b)
  | sub, a, b => some (a - b)
  | mul, a, b => some (a * b)
  | div, a, b => Word32.quotient? a b
  | mod, a, b => (Word32.quotient? a b).map fun q => a - b * q

end ArithOp

/-- The orders between two integers. -/
inductive OrderOp where
  | lt | gt | le | ge
  deriving DecidableEq, Repr

namespace OrderOp

/-- Whether two integers are in this order. -/
def eval : OrderOp → Int → Int → Bool
  | lt, a, b => a < b
  | gt, a, b => b < a
  | le, a, b => a ≤ b
  | ge, a, b => b ≤ a

end OrderOp

/-- The operations of logic. -/
inductive LogicOp where
  | and | or
  deriving DecidableEq, Repr

namespace LogicOp

/-- The operation on truth values. -/
def evalBool : LogicOp → Bool → Bool → Bool
  | and, a, b => a && b
  | or, a, b => a || b

/-- The operation on the bits of words. -/
def evalInt : LogicOp → Int → Int → Int
  | and, a, b => Word32.and a b
  | or, a, b => Word32.or a b

/-- The opcode of an operation. -/
def opcode : LogicOp → Opcode
  | and => .and
  | or => .or

end LogicOp

/-- An instruction with its operand. -/
inductive Instr where
  /-- Push an integer. -/
  | pushInt (n : Int)
  /-- Push a truth value. -/
  | pushBool (b : Bool)
  /-- Push a text by its number. -/
  | loadConstant (i : UInt8)
  /-- Push the value of a register. -/
  | loadRegister (r : UInt8)
  /-- Pop a value into a register. -/
  | storeRegister (r : UInt8)
  /-- Compute with two integers. -/
  | arith (op : ArithOp)
  /-- Negate an integer. -/
  | neg
  /-- Order two integers. -/
  | order (op : OrderOp)
  /-- Compare two values of one type. -/
  | equality (negated : Bool)
  /-- Negate a truth value, or the bits of an integer. -/
  | not
  /-- Combine two truth values, or the bits of two integers. -/
  | logic (op : LogicOp)
  /-- Pop a truth value and jump if it is false. -/
  | jumpIfFalse (target : UInt8)
  /-- Jump. -/
  | jump (target : UInt8)
  /-- Call a built-in by its number. -/
  | callBuiltin (id : UInt8)
  /-- Stop, with the top of the stack as the result if there is one. -/
  | ret
  deriving DecidableEq, Repr

/-- An instruction of the given opcode whose operand is read off the front of the
given bytes. -/
def Opcode.instr? : Opcode → List UInt8 → Option Instr
  | .pushInt, a :: b :: c :: d :: _ => some (.pushInt (Word32.decode [a, b, c, d]))
  | .pushBool, b :: _ => some (.pushBool (b != 0))
  | .loadConstant, b :: _ => some (.loadConstant b)
  | .loadRegister, b :: _ => some (.loadRegister b)
  | .storeRegister, b :: _ => some (.storeRegister b)
  | .jumpIfFalse, b :: _ => some (.jumpIfFalse b)
  | .jump, b :: _ => some (.jump b)
  | .callBuiltin, b :: _ => some (.callBuiltin b)
  | .add, _ => some (.arith .add)
  | .sub, _ => some (.arith .sub)
  | .mul, _ => some (.arith .mul)
  | .div, _ => some (.arith .div)
  | .mod, _ => some (.arith .mod)
  | .neg, _ => some .neg
  | .ne, _ => some (.equality true)
  | .eq, _ => some (.equality false)
  | .gt, _ => some (.order .gt)
  | .lt, _ => some (.order .lt)
  | .le, _ => some (.order .le)
  | .ge, _ => some (.order .ge)
  | .not, _ => some .not
  | .and, _ => some (.logic .and)
  | .or, _ => some (.logic .or)
  | .ret, _ => some .ret
  | _, _ => none

/-- An operand can be read exactly when enough bytes are there. -/
theorem Opcode.isSome_instr? (op : Opcode) (bytes : List UInt8) :
    (op.instr? bytes).isSome ↔ op.width ≤ bytes.length := by
  rcases bytes with _ | ⟨a, _ | ⟨b, _ | ⟨c, _ | ⟨d, rest⟩⟩⟩⟩ <;> cases op <;>
    simp [instr?, width]

end Octet
