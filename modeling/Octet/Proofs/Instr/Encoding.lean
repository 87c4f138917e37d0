import Octet.Instr
import Octet.Proofs.Number.TwosComplement

/-!
# The bytes of an instruction

`Opcode.instr?` reads an instruction off a string of bytes.  This file goes the
other way: `Instr.bytes` is the spelling of an instruction, its opcode followed by
its operand, and reading a spelling gives the instruction back, whatever stands
behind it (`Instr.instr?_operand`).

Only one kind of instruction has to be looked at twice.  An instruction carries an
integer of any size, while its spelling has room for a word, so the integer comes
back only if it is a word to begin with; that is `Instr.Spellable`.

An instruction that was read need not be spelled the way it was read: any byte but
zero spells the truth.  What is kept is the opcode (`Instr.opcode_of_instr?`), and
with it the number of bytes.
-/

namespace Octet

namespace Instr

/-- The opcode of an instruction. -/
def opcode : Instr → Opcode
  | pushInt _ => .pushInt
  | pushBool _ => .pushBool
  | loadConstant _ => .loadConstant
  | loadRegister _ => .loadRegister
  | storeRegister _ => .storeRegister
  | arith .add => .add
  | arith .sub => .sub
  | arith .mul => .mul
  | arith .div => .div
  | arith .mod => .mod
  | neg => .neg
  | order .lt => .lt
  | order .gt => .gt
  | order .le => .le
  | order .ge => .ge
  | equality true => .ne
  | equality false => .eq
  | not => .not
  | logic op => op.opcode
  | jumpIfFalse _ => .jumpIfFalse
  | jump _ => .jump
  | callBuiltin _ => .callBuiltin
  | ret => .ret

/-- The operand of an instruction. -/
def operand : Instr → List UInt8
  | pushInt n => Word32.bytes n
  | pushBool b => [if b then 1 else 0]
  | loadConstant i => [i]
  | loadRegister r | storeRegister r => [r]
  | jumpIfFalse target | jump target => [target]
  | callBuiltin id => [id]
  | _ => []

/-- The spelling of an instruction. -/
def bytes (i : Instr) : List UInt8 :=
  i.opcode.toByte :: i.operand

/-- The number of bytes of an instruction. -/
def size (i : Instr) : Nat :=
  1 + i.opcode.width

/-- Whether the spelling of an instruction has room for its operand. -/
def Spellable : Instr → Prop
  | pushInt n => Word32.least ≤ n ∧ n ≤ Word32.greatest
  | _ => True

theorem size_pos (i : Instr) : 0 < i.size := by
  rw [size]
  omega

@[simp] theorem length_operand (i : Instr) : i.operand.length = i.opcode.width := by
  cases i with
  | arith op => cases op <;> rfl
  | order op => cases op <;> rfl
  | equality negated => cases negated <;> rfl
  | logic op => cases op <;> rfl
  | _ => rfl

@[simp] theorem length_bytes (i : Instr) : i.bytes.length = i.size := by
  rw [bytes, size, List.length_cons, length_operand, Nat.add_comm]

/-- Reading a spelling gives the instruction back. -/
theorem instr?_operand {i : Instr} (h : i.Spellable) (rest : List UInt8) :
    i.opcode.instr? (i.operand ++ rest) = some i := by
  cases i with
  | pushInt n =>
    have hread : Word32.decode (Word32.bytes n) = n :=
      (Word32.decode_bytes n).trans (Word32.wrap_of_mem h.1 h.2)
    exact congrArg (fun m => some (pushInt m)) hread
  | pushBool b => cases b <;> rfl
  | arith op => cases op <;> rfl
  | order op => cases op <;> rfl
  | equality negated => cases negated <;> rfl
  | logic op => cases op <;> rfl
  | _ => rfl

/-- An instruction has the opcode it was read behind. -/
theorem opcode_of_instr? {op : Opcode} {rest : List UInt8} {i : Instr}
    (h : op.instr? rest = some i) : i.opcode = op := by
  -- four bytes decide what every opcode reads
  rcases rest with _ | ⟨a, _ | ⟨b, _ | ⟨c, _ | ⟨d, rest⟩⟩⟩⟩ <;> cases op <;> cases h <;> rfl

/-- An opcode without an operand is an instruction by itself. -/
theorem exists_instr?_of_width {op : Opcode} (h : op.width = 0) :
    ∃ i, op.instr? [] = some i ∧ i.bytes = [op.toByte] := by
  obtain ⟨i, hi⟩ := Option.isSome_iff_exists.1 ((op.isSome_instr? []).2 (Nat.le_of_eq h))
  have hoperand : i.operand = [] := by
    rw [← List.length_eq_zero_iff, length_operand, opcode_of_instr? hi, h]
  exact ⟨i, hi, by rw [bytes, hoperand, opcode_of_instr? hi]⟩

end Instr
end Octet
