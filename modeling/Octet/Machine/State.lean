import Octet.Image
import Octet.Machine.Value
import Octet.Opcode
import Octet.Text.Quoted

/-!
# The state of the machine

The machine has a stack, 256 registers and an instruction pointer.  A register
holds nothing until something is stored in it.  The state also keeps the result
of a finished program, the number of instructions executed, where the last of
them started, whether a stop was requested, and the texts written so far.

## Effects

An `Effect` works on a state, knows the image that is run and how high the stack
may grow, and yields a value or fails.  A failed effect keeps what it changed
before it failed: an operand that was popped stays popped.  A failure is a
`Trap`, which reports where the instruction at fault starts, or the answer to a
request to stop.

The primitive effects here are all that instructions and built-ins are made of.
-/

namespace Octet

/-- How many values the stack may hold unless the host says otherwise. -/
def defaultMaxStack : Int := 1024

/-- What stays the same during a run. -/
structure Setup where
  image : Image
  /-- How many values the stack may hold. -/
  maxStack : Int := defaultMaxStack
  deriving DecidableEq, Repr

/-- Why an instruction fails. -/
inductive Trap where
  /-- The stack is full. -/
  | overflow (limit : Int)
  /-- The stack is empty. -/
  | underflow
  /-- The value on the stack has another type. -/
  | wrongTag (expected found : Tag)
  /-- There is no text of this number. -/
  | badConstant (index size : Nat)
  /-- No instruction starts with this byte. -/
  | invalidOpcode (byte : UInt8)
  /-- The code ends inside an instruction. -/
  | truncated (op : Opcode)
  /-- A jump leads out of the code. -/
  | jumpOutside (target size : Nat)
  /-- A register was read before anything was stored in it. -/
  | unsetRegister (r : UInt8)
  /-- A divisor is zero. -/
  | divisionByZero
  /-- Values of different types are compared. -/
  | incomparable (left right : Tag)
  /-- Values are combined that have no logic in common. -/
  | badLogic (op : Opcode) (left right : Tag)
  /-- A text is negated. -/
  | notOfText
  /-- There is no built-in of this number. -/
  | unknownBuiltin (id : UInt8)
  deriving DecidableEq, Repr

/-- The wording of a trap. -/
def Trap.message : Trap → String
  | overflow limit => "Stack overflow (max " ++ toString limit ++ " values)"
  | underflow => "Stack underflow"
  | wrongTag expected found =>
    "Type mismatch: expected " ++ expected.name ++ ", found " ++ found.name
  | badConstant index size =>
    "Invalid constant index " ++ toString index ++ " (pool has " ++ toString size ++ ")"
  | invalidOpcode byte => "Invalid opcode 0x" ++ String.ofList (Text.hex 2 byte.toNat)
  | truncated op => "Truncated operand for " ++ op.mnemonic
  | jumpOutside target size =>
    "Jump target " ++ toString target ++ " is outside the " ++ toString size ++ "-byte stream"
  | unsetRegister r => "Invalid register r" ++ toString r.toNat ++ ": read before any store"
  | divisionByZero => "Division by zero"
  | incomparable left right =>
    "Type mismatch: cannot compare " ++ left.name ++ " with " ++ right.name
  | badLogic op left right =>
    "Type mismatch: " ++ op.mnemonic ++ " of " ++ left.name ++ " and " ++ right.name
  | notOfText => "Type mismatch: not of str"
  | unknownBuiltin id => "Unknown built-in id " ++ toString id.toNat

/-- How an effect fails. -/
inductive MachineError where
  /-- An instruction that starts at an offset cannot be executed. -/
  | trap (cause : Trap) (offset : Nat)
  /-- A request to stop was obeyed. -/
  | stopped
  deriving DecidableEq, Repr

/-- The wording of a failure. -/
def MachineError.message : MachineError → String
  | trap cause _ => cause.message
  | stopped => "Execution stopped by user"

/-- The state of the machine. -/
structure State where
  /-- The stack, its top first. -/
  stack : List Value := []
  /-- The registers that something was stored in, and the others. -/
  registers : Vector (Option Value) maxRegisters := Vector.replicate maxRegisters none
  /-- Where the next instruction starts. -/
  ip : Nat := 0
  /-- Whether the program has ended. -/
  halted : Bool := false
  /-- The value that the program returned. -/
  result : Option Value := none
  /-- How many instructions were executed. -/
  steps : Nat := 0
  /-- Where the last instruction begun starts. -/
  offset : Nat := 0
  /-- Whether a stop was requested. -/
  stopRequested : Bool := false
  /-- The texts written so far. -/
  output : Array String := #[]
  deriving DecidableEq

namespace State

/-- The registers that something was stored in, with their numbers. -/
def liveRegisters (s : State) : List (Nat × Value) :=
  s.registers.toList.zipIdx.filterMap fun (v, i) => v.map fun v => (i, v)

/-- The state as the debugging built-in shows it. -/
def describe (s : State) : String :=
  "STACK: " ++ Value.displayList s.stack.reverse ++ "\nREGS: " ++
    Value.displayMap s.liveRegisters ++ "\n"

end State

/-- An effect on the machine.  What was changed before a failure is kept. -/
abbrev Effect (α : Type) : Type :=
  ReaderT Setup (ExceptT MachineError (StateM State)) α

namespace Effect

/-- Carry an effect out. -/
def perform {α : Type} (a : Effect α) (setup : Setup) (s : State) :
    Except MachineError α × State :=
  ((a.run setup).run).run s

@[simp] theorem perform_pure {α : Type} (x : α) (setup : Setup) (s : State) :
    (pure x : Effect α).perform setup s = (.ok x, s) := rfl

/-- One effect after another: the second starts where the first ended, and does
not start at all if the first failed. -/
theorem perform_bind {α β : Type} (a : Effect α) (f : α → Effect β) (setup : Setup) (s : State) :
    (a >>= f).perform setup s =
      match a.perform setup s with
      | (.ok x, s') => (f x).perform setup s'
      | (.error e, s') => (.error e, s') := by
  show ((a >>= f).run setup).run.run s = _
  unfold perform
  simp only [ReaderT.run_bind, ExceptT.run_bind, StateT.run_bind]
  rcases (a.run setup).run.run s with ⟨x | x, s'⟩ <;> rfl

/-- Fail because of the instruction begun last. -/
def trap {α : Type} (cause : Trap) : Effect α := do
  throw (.trap cause (← get).offset)

@[simp] theorem perform_trap {α : Type} (cause : Trap) (setup : Setup) (s : State) :
    (trap cause : Effect α).perform setup s = (.error (.trap cause s.offset), s) := rfl

/-- Put a value on the stack. -/
def push (v : Value) : Effect Unit := do
  let limit := (← read).maxStack
  if limit ≤ (← get).stack.length then trap (.overflow limit)
  else modify fun s => { s with stack := v :: s.stack }

/-- Take a value off the stack. -/
def pop : Effect Value := do
  match (← get).stack with
  | [] => trap .underflow
  | v :: rest =>
    modify fun s => { s with stack := rest }
    return v

/-- Take a value of a type off the stack. -/
def popTagged (tag : Tag) : Effect Value := do
  let v ← pop
  if v.tag = tag then return v else trap (.wrongTag tag v.tag)

/-- Take an integer off the stack. -/
def popInt : Effect Int := do
  match ← pop with
  | .i32 n => return n
  | v => trap (.wrongTag .i32 v.tag)

/-- Take a truth value off the stack. -/
def popBool : Effect Bool := do
  match ← pop with
  | .bool b => return b
  | v => trap (.wrongTag .bool v.tag)

/-- Take a text off the stack, by its number. -/
def popStr : Effect Nat := do
  match ← pop with
  | .str i => return i
  | v => trap (.wrongTag .str v.tag)

/-- The text of a number. -/
def constant (index : Nat) : Effect String := do
  let constants := (← read).image.constants
  match constants[index]? with
  | some text => return text
  | none => trap (.badConstant index constants.length)

/-- The value of a register. -/
def load (r : UInt8) : Effect Value := do
  have := r.toNat_lt
  match (← get).registers[r.toNat] with
  | some v => return v
  | none => trap (.unsetRegister r)

/-- Give a register a value. -/
def store (r : UInt8) (v : Value) : Effect Unit :=
  have := r.toNat_lt
  modify fun s => { s with registers := s.registers.set r.toNat (some v) }

/-- Go on at an address, or at the end of the code. -/
def jump (target : Nat) : Effect Unit := do
  let size := (← read).image.code.length
  if size < target then trap (.jumpOutside target size)
  else modify fun s => { s with ip := target }

/-- Write a text. -/
def write (text : String) : Effect Unit :=
  modify fun s => { s with output := s.output.push text }

/-- Ask the machine to stop before its next instruction. -/
def requestStop : Effect Unit :=
  modify fun s => { s with stopRequested := true }

end Effect
end Octet
