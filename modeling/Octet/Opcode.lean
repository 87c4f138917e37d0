/-!
# Opcodes

An instruction is one byte that says what to do, its *opcode*, followed by an
operand of a fixed number of bytes: four for a word, one for a truth value, a
constant, a register, an address or a built-in, and none otherwise.  The byte of
an opcode determines it (`Opcode.ofByte?_toByte`).
-/

namespace Octet

/-- What an instruction does. -/
inductive Opcode where
  | pushInt | pushBool | loadConstant | loadRegister | storeRegister
  | add | sub | mul | div | mod | neg
  | ne | eq | gt | lt | le | ge
  | not | and | or
  | jumpIfFalse | jump
  | callBuiltin | ret
  deriving DecidableEq, Repr, Inhabited

namespace Opcode

/-- Every opcode, in the order in which tables list them. -/
def all : List Opcode :=
  [pushInt, pushBool, loadConstant, loadRegister, storeRegister,
    add, sub, mul, div, mod, neg, ne, eq, gt, lt, le, ge, not, and, or,
    jumpIfFalse, jump, callBuiltin, ret]

/-- The name of an opcode in diagnostics. -/
def mnemonic : Opcode → String
  | pushInt => "push_i"
  | pushBool => "push_b"
  | loadConstant => "ldc"
  | loadRegister => "load_i"
  | storeRegister => "sto_i"
  | add => "add_i"
  | sub => "sub_i"
  | mul => "mul_i"
  | div => "div_i"
  | mod => "mod_i"
  | neg => "neg"
  | ne => "ne"
  | eq => "eq"
  | gt => "gt"
  | lt => "lt"
  | le => "le"
  | ge => "ge"
  | not => "not"
  | and => "and"
  | or => "or"
  | jumpIfFalse => "if_f"
  | jump => "goto"
  | callBuiltin => "virtual"
  | ret => "ret"

/-- The byte of an opcode. -/
def toByte : Opcode → UInt8
  | pushInt => 0x01
  | pushBool => 0x02
  | loadConstant => 0xfa
  | loadRegister => 0xfb
  | storeRegister => 0xfc
  | add => 0x0c
  | sub => 0x0d
  | mul => 0x0e
  | div => 0x0f
  | mod => 0x10
  | neg => 0x18
  | ne => 0x11
  | eq => 0x12
  | gt => 0x13
  | lt => 0x14
  | le => 0x15
  | ge => 0x16
  | not => 0x17
  | and => 0x19
  | or => 0x1a
  | jumpIfFalse => 0xa1
  | jump => 0xc0
  | callBuiltin => 0xfe
  | ret => 0xff

/-- The opcode of a byte. -/
def ofByte? (b : UInt8) : Option Opcode :=
  all.find? (·.toByte == b)

@[simp] theorem ofByte?_toByte (op : Opcode) : ofByte? op.toByte = some op := by
  cases op <;> rfl

/-- A byte is the byte of the opcode it stands for. -/
theorem toByte_of_ofByte? {b : UInt8} {op : Opcode} (h : ofByte? b = some op) :
    op.toByte = b := by
  simpa using List.find?_some h

/-- The number of operand bytes of an opcode. -/
def width : Opcode → Nat
  | pushInt => 4
  | pushBool | loadConstant | loadRegister | storeRegister => 1
  | jumpIfFalse | jump | callBuiltin => 1
  | _ => 0

/-- Whether the operand of an opcode is an address. -/
def isJump : Opcode → Bool
  | jumpIfFalse | jump => true
  | _ => false

end Opcode

/-- The operators written between their operands, in the order of their
spellings. -/
def binaryOperators : List (String × Opcode) :=
  [("!=", .ne), ("%", .mod), ("&&", .and), ("*", .mul), ("+", .add), ("-", .sub), ("/", .div),
    ("<", .lt), ("<=", .le), ("==", .eq), (">", .gt), (">=", .ge), ("||", .or)]

/-- The operators written in front of their operand, in the order of their
spellings. -/
def unaryOperators : List (String × Opcode) :=
  [("!", .not), ("-", .neg)]

end Octet
