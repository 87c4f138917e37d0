import Octet.Image
import Octet.Number.Word32
import Octet.Opcode
import Octet.Scalar
import Octet.Text.Position
import Octet.Tree

/-!
# Drafts

A *draft* is an image under construction.  Instructions are only ever appended to
its code.  A jump to a place that is not laid out yet is appended with a zero in
place of its address, and the draft notes where that byte is and which label it
waits for: a *fixup*.  Marking a label gives it the address that the code has
reached.  Once all labels are marked, `resolve` writes the addresses.

Texts and variables are numbered in the order in which they first occur, so the
pool of texts is a list and the register of a variable is its place in the list
of names.  Both tables grow in the same way (`takeNumber`).

## Actions

`Emit α` is an action on a draft that yields an `α` or fails.  A failed action
keeps what it laid out before it failed, so the state of a draft is known after a
failure too.  Each primitive action checks what the encoding demands of it and
reports what is wrong as a `CompileFault`; where in the source that happened is
up to its caller.
-/

namespace Octet

/-- A place in the source as far as it is known. -/
structure Site where
  line : Option Nat
  col : Option Nat
  deriving DecidableEq, Repr

namespace Site

/-- No place at all. -/
def unknown : Site := ⟨none, none⟩

/-- The place of a position. -/
def ofPos (p : Pos) : Site := ⟨some p.line, some p.col⟩

end Site

/-- What can be wrong with a program that is laid out. -/
inductive CompileFault where
  /-- An instruction was given an operand of the wrong length. -/
  | operandLength (op : Opcode) (length : Nat)
  /-- An operand is no byte. -/
  | operandRange
  /-- An operand is no word. -/
  | wordRange
  /-- A jump waits for a label that was never marked. -/
  | unmarkedLabel (offset : Nat)
  /-- The code is longer than addresses reach. -/
  | codeTooLong (size : Nat)
  /-- A jump leads behind the last address. -/
  | targetTooFar (address : Nat)
  /-- There are too many texts. -/
  | tooManyConstants
  /-- There are too many variables. -/
  | tooManyRegisters (name : String)
  /-- A variable was not bound before. -/
  | undefinedVariable (name : String)
  /-- A `break` stands in no loop. -/
  | breakOutsideLoop
  /-- A function is declared. -/
  | functionDeclared (name : String)
  /-- A node stands where a statement belongs. -/
  | misplacedStatement (kind : NodeKind)
  /-- A node stands where an expression belongs. -/
  | misplacedExpression (kind : NodeKind)
  /-- No such operator is written in front of its operand. -/
  | unknownUnary (op : String)
  /-- No such operator is written between its operands. -/
  | unknownBinary (op : String)
  /-- An integer is no word. -/
  | integerTooWide (n : Int)
  /-- A literal stands for no value of the machine. -/
  | unrepresentable (value : Option Scalar)
  /-- Something is called that is no built-in. -/
  | unknownCall (name : String)
  /-- A built-in is called with the wrong number of arguments. -/
  | wrongArity (name : String) (arity given : Nat)
  deriving DecidableEq, Repr

/-- The kinds of faults of a program that is laid out. -/
inductive FaultKind where
  | unsupported | undefined | limit | arity | internal
  deriving DecidableEq, Repr

/-- The name of a kind of fault. -/
def FaultKind.name : FaultKind → String
  | unsupported => "unsupported"
  | undefined => "undefined"
  | limit => "limit"
  | arity => "arity"
  | internal => "internal"

namespace CompileFault

/-- The kind of a fault; an operand that is no byte, or no word, has none, since it
is no fault of the program. -/
def kind? : CompileFault → Option FaultKind
  | operandRange | wordRange => none
  | operandLength .. | unmarkedLabel .. => some .internal
  | codeTooLong .. | targetTooFar .. | tooManyConstants | tooManyRegisters .. => some .limit
  | integerTooWide .. => some .limit
  | undefinedVariable .. => some .undefined
  | wrongArity .. => some .arity
  | _ => some .unsupported

/-- The wording of a fault. -/
def message : CompileFault → String
  | operandLength op length =>
    op.mnemonic ++ " takes " ++ toString op.width ++ " operand byte(s), got " ++ toString length
  | operandRange => "bytes must be in range(0, 256)"
  | wordRange => "int too big to convert"
  | unmarkedLabel offset => "Jump at offset " ++ toString offset ++ " targets an unmarked label"
  | codeTooLong size =>
    "Compiled unit is " ++ toString size ++ " bytes; at most " ++ toString maxCodeSize ++
      " are addressable"
  | targetTooFar address => "Jump target " ++ toString address ++ " does not fit in one byte"
  | tooManyConstants => "Too many string constants (max " ++ toString maxConstants ++ ")"
  | tooManyRegisters name =>
    "Out of registers binding '" ++ name ++ "' (max " ++ toString maxRegisters ++ ")"
  | undefinedVariable name => "Variable '" ++ name ++ "' is undefined"
  | breakOutsideLoop => "'break' outside of a loop"
  | functionDeclared name =>
    "Code generation for function '" ++ name ++
      "' is not supported; only top-level statements are compiled"
  | misplacedStatement kind => "Cannot compile statement " ++ kind.name
  | misplacedExpression kind => "Cannot compile expression " ++ kind.name
  | unknownUnary op => "Unknown unary operator '" ++ op ++ "'"
  | unknownBinary op => "Unknown binary operator '" ++ op ++ "'"
  | integerTooWide n => "Integer literal " ++ toString n ++ " does not fit in 32 bits"
  | unrepresentable value =>
    "Literal " ++ Scalar.displayOption value ++ " has no runtime representation"
  | unknownCall name =>
    "Call to '" ++ name ++ "' is not supported; only built-in calls are compiled"
  | wrongArity name arity given =>
    "'" ++ name ++ "' takes " ++ toString arity ++ " argument(s), got " ++ toString given

end CompileFault

/-- A fault of a program that is laid out, and its place. -/
structure CompileError where
  fault : CompileFault
  site : Site
  deriving DecidableEq, Repr

/-- The number of an entry of a table: the one it has, or the next one of the table, which grows by
the entry.  A table that has as many entries as it may have does not grow. -/
def takeNumber {σ : Type} (found : Option Nat) (next most : Nat) (grown : σ)
    (refusal : CompileError) : ExceptT CompileError (StateM σ) Nat :=
  match found with
  | some i => return i
  | none =>
    if next < most then do
      set grown
      return next
    else throw refusal

/-- An entry has its number, or is given the next one, or is refused. -/
theorem takeNumber_cases {σ : Type} (found : Option Nat) (next most : Nat) (grown : σ)
    (refusal : CompileError) (s : σ) :
    (∃ i, found = some i ∧
      (takeNumber found next most grown refusal).run.run s = (.ok i, s)) ∨
    found = none ∧
      (next < most ∧ (takeNumber found next most grown refusal).run.run s = (.ok next, grown) ∨
      most ≤ next ∧ (takeNumber found next most grown refusal).run.run s = (.error refusal, s)) := by
  cases found with
  | some i => exact .inl ⟨i, rfl, rfl⟩
  | none =>
    refine .inr ⟨rfl, ?_⟩
    by_cases hroom : next < most
    · exact .inl ⟨hroom, by rw [takeNumber, if_pos hroom]; rfl⟩
    · exact .inr ⟨Nat.le_of_not_lt hroom, by rw [takeNumber, if_neg hroom]; rfl⟩

/-- A label: its place in the list of all labels of a draft. -/
abbrev Label : Type := Nat

/-- A byte that waits for the address of a label. -/
structure Fixup where
  offset : Nat
  target : Label
  deriving DecidableEq, Repr

/-- The labels of an open loop: its beginning, and the place behind it. -/
structure LoopFrame where
  start : Label
  finish : Label
  deriving DecidableEq, Repr

/-- An image under construction. -/
structure Draft where
  /-- The instructions so far. -/
  code : List UInt8 := []
  /-- The texts so far, in the order of their numbers. -/
  constants : List String := []
  /-- The variables so far, in the order of their registers. -/
  registers : List String := []
  /-- The loops opened by the host, the innermost first. -/
  loops : List LoopFrame := []
  /-- The bytes that wait for an address, in the order of the code. -/
  fixups : List Fixup := []
  /-- The address of each label, once it is marked. -/
  labels : List (Option Nat) := []
  deriving DecidableEq, Repr, Inhabited

/-- An action on a draft.  What was laid out before a failure is kept. -/
abbrev Emit (α : Type) : Type :=
  ExceptT CompileError (StateM Draft) α

namespace Emit

/-- Carry an action out. -/
def perform {α : Type} (a : Emit α) (d : Draft) : Except CompileError α × Draft :=
  a.run.run d

@[simp] theorem perform_pure {α : Type} (x : α) (d : Draft) :
    (pure x : Emit α).perform d = (.ok x, d) := rfl

/-- One action after another: the second starts where the first ended, and does
not start at all if the first failed. -/
theorem perform_bind {α β : Type} (a : Emit α) (f : α → Emit β) (d : Draft) :
    (a >>= f).perform d =
      match a.perform d with
      | (.ok x, d') => (f x).perform d'
      | (.error e, d') => (.error e, d') := by
  unfold perform
  simp only [ExceptT.run_bind, StateT.run_bind]
  rcases a.run.run d with ⟨x | x, d'⟩ <;> rfl

end Emit

namespace Draft

/-- The address of a label, if it is marked. -/
def address? (d : Draft) (l : Label) : Option Nat :=
  d.labels.getD l none

/-- The place behind the innermost loop that the host opened. -/
def loopEnd? (d : Draft) : Option Label :=
  d.loops.head?.map LoopFrame.finish

/-- Fail at a place. -/
def fail {α : Type} (fault : CompileFault) (site : Site) : Emit α :=
  throw ⟨fault, site⟩

/-- Begin anew.  Labels keep their addresses, as others may still refer to
them. -/
def reset : Emit Unit :=
  modify fun d => { labels := d.labels }

/-- Open a loop for the statements that the host lays out next. -/
def openLoop (frame : LoopFrame) : Emit Unit :=
  modify fun d => { d with loops := frame :: d.loops }

/-- Close the innermost loop that the host opened. -/
def closeLoop : Emit Unit :=
  modify fun d => { d with loops := d.loops.tail }

/-- A label of its own, not marked yet. -/
def newLabel : Emit Label := do
  let d ← get
  set { d with labels := d.labels ++ [none] }
  return d.labels.length

/-- Give a label the address that the code has reached. -/
def mark (l : Label) : Emit Unit :=
  modify fun d => { d with labels := d.labels.set l (some d.code.length) }

/-- Append an instruction. -/
def emit (op : Opcode) (operand : List UInt8) : Emit Unit :=
  if operand.length = op.width then
    modify fun d => { d with code := d.code ++ op.toByte :: operand }
  else fail (.operandLength op operand.length) .unknown

/-- Append an instruction whose operand is one byte. -/
def emitByte (op : Opcode) (n : Int) : Emit Unit :=
  if 0 ≤ n ∧ n < 256 then emit op [UInt8.ofNat n.toNat]
  else fail .operandRange .unknown

/-- Append an instruction whose operand is a word. -/
def emitWord (op : Opcode) (n : Int) : Emit Unit :=
  match Word32.encode? n with
  | some bytes => emit op bytes
  | none => fail .wordRange .unknown

/-- Append a jump whose address is written later. -/
def emitJump (op : Opcode) (target : Label) : Emit Unit := do
  emitByte op 0
  modify fun d => { d with fixups := d.fixups ++ [⟨d.code.length - 1, target⟩] }

/-- The number of a text, which is given the next one if it is new. -/
def constant (value : String) (site : Site) : Emit Nat := do
  let d ← get
  takeNumber (d.constants.idxOf? value) d.constants.length maxConstants
    { d with constants := d.constants ++ [value] } ⟨.tooManyConstants, site⟩

/-- The register of a variable, which is given the next one if it is new. -/
def allocate (name : String) (site : Site) : Emit Nat := do
  let d ← get
  takeNumber (d.registers.idxOf? name) d.registers.length maxRegisters
    { d with registers := d.registers ++ [name] } ⟨.tooManyRegisters name, site⟩

/-- The register of a variable that was bound before. -/
def lookup (name : String) (site : Site) : Emit Nat := do
  match (← get).registers.idxOf? name with
  | some i => return i
  | none => fail (.undefinedVariable name) site

/-- Write the address of a label over the byte that waits for it. -/
def patch (f : Fixup) : Emit Unit := do
  match (← get).address? f.target with
  | none => fail (.unmarkedLabel f.offset) .unknown
  | some address =>
    if address < 256 then
      modify fun d => { d with code := d.code.set f.offset (UInt8.ofNat address) }
    else fail (.targetTooFar address) .unknown

/-- Write all addresses, unless the code is too long to be addressed. -/
def resolve : Emit Unit := do
  let d ← get
  if maxCodeSize < d.code.length then fail (.codeTooLong d.code.length) .unknown
  else d.fixups.forM patch

end Draft
end Octet
