import Octet.Builtin
import Octet.Instr
import Octet.Machine.State

/-!
# Execution

`execute` performs one instruction, and `step` fetches and performs the next one.
A step first moves the instruction pointer behind the instruction and counts it,
and then performs it; an instruction that fails therefore counts, and a later
step goes on behind it.  A byte that starts no instruction, and an instruction
that the code cuts short, are not counted and not passed.

The machine halts at the end of its code and at a `ret`.  A halted machine does
nothing, and one that was asked to stop fails before its next instruction.

Built-ins are effects like any other.  Which ones there are is up to whoever runs
the machine: a `BuiltinTable` gives the effect of each number, and
`BuiltinTable.standard` is the table that programs are compiled for.
-/

namespace Octet

open Effect

/-- The built-ins that a program may call, by their numbers. -/
abbrev BuiltinTable : Type :=
  Nat → Option (Effect Unit)

/-- What a built-in does. -/
def Builtin.perform : Builtin → Effect Unit
  | .printInt => do write (toString (← popInt) ++ "\n")
  | .debug => do write (← get).describe
  | .printStr => do write ((← constant (← popStr)) ++ "\n")
  | .printBool => do write (if ← popBool then "true\n" else "false\n")

/-- The built-ins of the language. -/
def BuiltinTable.standard : BuiltinTable := fun id =>
  (Builtin.ofId? id).map Builtin.perform

namespace Machine

/-- Perform an instruction. -/
def execute (builtins : BuiltinTable) : Instr → Effect Unit
  | .pushInt n => push (.ofInt n)
  | .pushBool b => push (.bool b)
  | .loadConstant i => do
    let _ ← constant i.toNat
    push (.str i.toNat)
  | .loadRegister r => do push (← load r)
  | .storeRegister r => do store r (← pop)
  | .arith op => do
    let b ← popInt
    let a ← popInt
    match op.eval? a b with
    | some n => push (.ofInt n)
    | none => trap .divisionByZero
  | .neg => do
    let a ← popInt
    push (.ofInt (-a))
  | .order op => do
    let b ← popInt
    let a ← popInt
    push (.bool (op.eval a b))
  | .equality negated => do
    let b ← pop
    let a ← pop
    if a.tag = b.tag then push (.bool (decide (a = b) != negated))
    else trap (.incomparable a.tag b.tag)
  | .logic op => do
    let b ← pop
    let a ← pop
    match a, b with
    | .bool x, .bool y => push (.bool (op.evalBool x y))
    | .i32 x, .i32 y => push (.ofInt (op.evalInt x y))
    | a, b => trap (.badLogic op.opcode a.tag b.tag)
  | .not => do
    match ← pop with
    | .bool b => push (.bool !b)
    | .i32 n => push (.ofInt (Word32.complement n))
    | .str _ => trap .notOfText
  | .jumpIfFalse target => do
    if ← popBool then return
    else jump target.toNat
  | .jump target => jump target.toNat
  | .callBuiltin id =>
    match builtins id.toNat with
    | some effect => effect
    | none => trap (.unknownBuiltin id)
  | .ret =>
    modify fun s => { s with stack := s.stack.tail, result := s.stack.head?, halted := true }

/-- Pass an instruction of an opcode and count it. -/
def advance (op : Opcode) : Effect Unit :=
  modify fun s => { s with ip := s.ip + 1 + op.width, steps := s.steps + 1 }

/-- Halt if the code has ended, and tell whether the machine goes on. -/
def settle : Effect Bool := do
  let size := (← read).image.code.length
  modify fun s => if size ≤ s.ip then { s with halted := true } else s
  return !(← get).halted

/-- Perform the next instruction and tell whether the machine goes on. -/
def step (builtins : BuiltinTable) : Effect Bool := do
  let s ← get
  if s.halted then return false
  else match (← read).image.code.drop s.ip with
    | [] => settle
    | byte :: rest =>
      if s.stopRequested then throw .stopped
      else
        set { s with offset := s.ip }
        match Opcode.ofByte? byte with
        | none => trap (.invalidOpcode byte)
        | some op =>
          match op.instr? rest with
          | none => trap (.truncated op)
          | some instr =>
            advance op
            execute builtins instr
            settle

end Machine
end Octet
