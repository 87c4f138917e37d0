import Octet.Builtin
import Octet.Draft.Emission
import Octet.Instr
import Octet.Machine.Value

/-!
# What programs mean

This file says what a program does without any reference to code: it walks the
tree.  There are no addresses, no registers and no numbers of texts.  A variable is
a name in a store, a text is its characters, and a loop is a loop.

What it has in common with the machine is the stack.  An expression leaves its value
there, an expression that stands as a statement leaves it there for good, and a
`return` without a value takes whatever is on top, so the stack is part of what
programs mean, and so is how high it may grow.

## Loops

A program need not end, so the meaning takes a number of turns, its *fuel*.  Every
loop may turn that often; if a loop is still turning then, what the program has done
so far is all that is known (`Flow.unfinished`).  All other recursion is along the
tree.

## Trees without a meaning

Not every tree is a program that is laid out.  A name that calls nothing, an operator
that does not exist or a node in the wrong place is `Fault.meaningless`, and so is a
call of the debugging built-in, which shows the registers of the machine.
-/

namespace Octet

/-- A value of a program. -/
inductive Datum where
  | int (n : Int)
  | bool (b : Bool)
  | text (s : String)
  deriving DecidableEq, Repr

namespace Datum

/-- The type of a value. -/
def tag : Datum → Tag
  | int _ => .i32
  | bool _ => .bool
  | text _ => .str

/-- A value as the result of a program. -/
def scalar : Datum → Scalar
  | int n => .int n
  | bool b => .bool b
  | text s => .text s

end Datum

/-- How a program fails. -/
inductive Fault where
  /-- The stack is full. -/
  | overflow (limit : Int)
  /-- The stack is empty. -/
  | underflow
  /-- A value has another type. -/
  | wrongTag (expected found : Tag)
  /-- A variable is read before anything was stored in it. -/
  | unset (name : String)
  /-- A divisor is zero. -/
  | divisionByZero
  /-- Values of different types are compared. -/
  | incomparable (left right : Tag)
  /-- Values are combined that have no logic in common. -/
  | badLogic (op : LogicOp) (left right : Tag)
  /-- A text is negated. -/
  | notOfText
  /-- The tree is no program. -/
  | meaningless
  deriving DecidableEq, Repr

/-- What a program works on. -/
structure World where
  /-- The stack, its top first. -/
  stack : List Datum := []
  /-- The variables that something was stored in. -/
  store : String → Option Datum := fun _ => none
  /-- The texts written so far. -/
  output : Array String := #[]

/-- What a part of a program means: it changes the world, knows how high the stack may
grow, and yields something or fails. -/
abbrev Meaning (α : Type) : Type :=
  ReaderT Int (ExceptT Fault (StateM World)) α

namespace Meaning

/-- Carry a meaning out. -/
def perform {α : Type} (m : Meaning α) (limit : Int) (w : World) : Except Fault α × World :=
  ((m.run limit).run).run w

@[simp] theorem perform_pure {α : Type} (x : α) (limit : Int) (w : World) :
    (pure x : Meaning α).perform limit w = (.ok x, w) := rfl

/-- One part after another. -/
theorem perform_bind {α β : Type} (m : Meaning α) (f : α → Meaning β) (limit : Int)
    (w : World) : (m >>= f).perform limit w =
      match m.perform limit w with
      | (.ok x, w') => (f x).perform limit w'
      | (.error e, w') => (.error e, w') := by
  show ((m >>= f).run limit).run.run w = _
  unfold perform
  simp only [ReaderT.run_bind, ExceptT.run_bind, StateT.run_bind]
  rcases (m.run limit).run.run w with ⟨x | x, w'⟩ <;> rfl

/-- Fail. -/
def fail {α : Type} (f : Fault) : Meaning α :=
  throw f

/-- Put a value on the stack. -/
def push (d : Datum) : Meaning Unit := do
  let limit ← read
  if limit ≤ (← get).stack.length then fail (.overflow limit)
  else modify fun w => { w with stack := d :: w.stack }

/-- Take a value off the stack. -/
def pop : Meaning Datum := do
  match (← get).stack with
  | [] => fail .underflow
  | d :: rest =>
    modify fun w => { w with stack := rest }
    return d

/-- Take an integer off the stack. -/
def popInt : Meaning Int := do
  match ← pop with
  | .int n => return n
  | d => fail (.wrongTag .i32 d.tag)

/-- Take a truth value off the stack. -/
def popBool : Meaning Bool := do
  match ← pop with
  | .bool b => return b
  | d => fail (.wrongTag .bool d.tag)

/-- Take a text off the stack. -/
def popText : Meaning String := do
  match ← pop with
  | .text s => return s
  | d => fail (.wrongTag .str d.tag)

/-- The value of a variable. -/
def valueOf (name : String) : Meaning Datum := do
  match (← get).store name with
  | some d => return d
  | none => fail (.unset name)

/-- Give a variable a value. -/
def assign (name : String) (d : Datum) : Meaning Unit :=
  modify fun w => { w with store := fun x => if x = name then some d else w.store x }

/-- Write a text. -/
def write (text : String) : Meaning Unit :=
  modify fun w => { w with output := w.output.push text }

theorem perform_push (d : Datum) (limit : Int) (w : World) : (push d).perform limit w =
    if limit ≤ w.stack.length then (.error (.overflow limit), w)
    else (.ok (), { w with stack := d :: w.stack }) := by
  have hopen : (push d).perform limit w = (if limit ≤ w.stack.length then
      fail (.overflow limit)
      else modify fun w => { w with stack := d :: w.stack } : Meaning Unit).perform limit w := rfl
  rw [hopen]
  split <;> rfl

theorem perform_pop (limit : Int) (w : World) : pop.perform limit w = (match w.stack with
    | [] => (.error .underflow, w)
    | d :: rest => (.ok d, { w with stack := rest })) := by
  have hopen : pop.perform limit w = (match w.stack with
      | [] => fail .underflow
      | d :: rest => do
        modify fun w => { w with stack := rest }
        return d : Meaning Datum).perform limit w := rfl
  rw [hopen]
  cases w.stack <;> rfl

theorem perform_valueOf (name : String) (limit : Int) (w : World) :
    (valueOf name).perform limit w = (match w.store name with
    | some d => .ok d
    | none => .error (.unset name), w) := by
  have hopen : (valueOf name).perform limit w = (match w.store name with
      | some d => return d
      | none => fail (.unset name) : Meaning Datum).perform limit w := rfl
  rw [hopen]
  cases w.store name <;> rfl

end Meaning

open Meaning

/-! ## Operators and built-ins -/

/-- The operators between two operands. -/
inductive BinaryOp where
  | arith (op : ArithOp)
  | order (op : OrderOp)
  | equality (negated : Bool)
  | logic (op : LogicOp)
  deriving DecidableEq, Repr

namespace BinaryOp

/-- The operator of a spelling. -/
def ofSpelling? (s : String) : Option BinaryOp :=
  [("+", arith .add), ("-", arith .sub), ("*", arith .mul), ("/", arith .div),
    ("%", arith .mod), ("<", order .lt), (">", order .gt), ("<=", order .le),
    (">=", order .ge), ("==", equality false), ("!=", equality true), ("&&", logic .and),
    ("||", logic .or)].lookup s

/-- What an operator does with the two values on top of the stack. -/
def meaning : BinaryOp → Meaning Unit
  | arith op => do
    let b ← popInt
    let a ← popInt
    match op.eval? a b with
    | some n => push (.int (Word32.wrap n))
    | none => fail .divisionByZero
  | order op => do
    let b ← popInt
    let a ← popInt
    push (.bool (op.eval a b))
  | equality negated => do
    let b ← pop
    let a ← pop
    if a.tag = b.tag then push (.bool (decide (a = b) != negated))
    else fail (.incomparable a.tag b.tag)
  | logic op => do
    let b ← pop
    let a ← pop
    match a, b with
    | .bool x, .bool y => push (.bool (op.evalBool x y))
    | .int x, .int y => push (.int (Word32.wrap (op.evalInt x y)))
    | a, b => fail (.badLogic op a.tag b.tag)

end BinaryOp

/-- The operators in front of their operand. -/
inductive UnaryOp where
  | not | neg
  deriving DecidableEq, Repr

namespace UnaryOp

/-- The operator of a spelling. -/
def ofSpelling? (s : String) : Option UnaryOp :=
  [("!", not), ("-", neg)].lookup s

/-- What an operator does with the value on top of the stack. -/
def meaning : UnaryOp → Meaning Unit
  | not => do
    match ← pop with
    | .bool b => push (.bool !b)
    | .int n => push (.int (Word32.wrap (Word32.complement n)))
    | .text _ => fail .notOfText
  | neg => do
    let a ← popInt
    push (.int (Word32.wrap (-a)))

end UnaryOp

/-- What a built-in does. -/
def Builtin.meaning : Builtin → Meaning Unit
  | printInt => do Meaning.write (toString (← popInt) ++ "\n")
  | printStr => do Meaning.write ((← popText) ++ "\n")
  | printBool => do Meaning.write (if ← popBool then "true\n" else "false\n")
  | debug => fail .meaningless

/-! ## Trees -/

mutual

/-- Leave the value of an expression on the stack. -/
def Expr.meaning : Expr → Meaning Unit
  | .literal _ (some (.bool b)) => push (.bool b)
  | .literal _ (some (.int n)) => push (.int n)
  | .literal _ (some (.text s)) => push (.text s)
  | .literal _ _ => fail .meaningless
  | .identifier _ name => do push (← valueOf name)
  | .unary _ op operand =>
    if op = "-" ∧ operand.isLeastMagnitude then push (.int Word32.least)
    else do
      operand.meaning
      (UnaryOp.ofSpelling? op).elim (fail .meaningless) UnaryOp.meaning
  | .binary _ left op right => do
    left.meaning
    right.meaning
    (BinaryOp.ofSpelling? op).elim (fail .meaningless) BinaryOp.meaning
  | .call _ name args => do
    Expr.meaningList args
    (Builtin.ofName? name).elim (fail .meaningless) Builtin.meaning
  | .misplaced _ => fail .meaningless

/-- Leave the values of expressions on the stack, from left to right. -/
def Expr.meaningList : List Expr → Meaning Unit
  | [] => return
  | e :: es => do
    e.meaning
    Expr.meaningList es

end

/-- Where a program goes on. -/
inductive Flow where
  /-- With the next statement. -/
  | next
  /-- Behind the innermost loop. -/
  | left
  /-- Nowhere: it has ended, perhaps with a result. -/
  | ended (value : Option Datum)
  /-- Nobody knows: a loop has turned too often. -/
  | unfinished
  deriving DecidableEq, Repr

/-- Go on with the next part, if that is where the program goes on. -/
def Flow.followedBy (rest : Meaning Flow) : Flow → Meaning Flow
  | next => rest
  | flow => return flow

/-- Take the top of the stack for the result, if there is one. -/
def Meaning.finish : Meaning Flow := do
  let w ← get
  set { w with stack := w.stack.tail }
  return .ended w.stack.head?

/-- Repeat a block until it is left, but only that often. -/
def Meaning.turns (block : Meaning Flow) : Nat → Meaning Flow
  | 0 => return .unfinished
  | n + 1 => do
    match ← block with
    | .next => Meaning.turns block n
    | .left => return .next
    | flow => return flow

mutual

/-- What a statement does. -/
def Stmt.meaning (fuel : Nat) : Stmt → Meaning Flow
  | .exprStmt _ e => do
    e.meaning
    return .next
  | .letDecl _ name value | .assign _ name value => do
    value.meaning
    Meaning.assign name (← pop)
    return .next
  | .returning _ none => Meaning.finish
  | .returning _ (some value) => do
    value.meaning
    Meaning.finish
  | .breaking _ => return .left
  | .conditional _ cond body rest => do
    cond.meaning
    if ← popBool then Stmt.meaningList fuel body
    else rest.meaning fuel
  | .loop _ body => (Stmt.meaningList fuel body).turns fuel
  | .fnDecl .. | .misplaced _ => fail .meaningless

/-- What a block does. -/
def Stmt.meaningList (fuel : Nat) : List Stmt → Meaning Flow
  | [] => return .next
  | s :: ss => do
    let flow ← s.meaning fuel
    flow.followedBy (Stmt.meaningList fuel ss)

/-- What follows a condition that does not hold. -/
def Chain.meaning (fuel : Nat) : Chain → Meaning Flow
  | .done => return .next
  | .otherwise body => Stmt.meaningList fuel body
  | .elseIf cond body rest => do
    cond.meaning
    if ← popBool then Stmt.meaningList fuel body
    else rest.meaning fuel

end

/-- How a program ends. -/
inductive Verdict where
  /-- It ends well, perhaps with a result. -/
  | returned (value : Option Scalar)
  /-- It fails. -/
  | failed (f : Fault)
  deriving DecidableEq, Repr

/-- How a program ends, if it does while its loops turn no more than that often, and the
texts that it writes until then. -/
def Program.meaning (limit : Int) (fuel : Nat) (p : Program) : Option Verdict × Array String :=
  match (Stmt.meaningList fuel p.items).perform limit {} with
  | (.ok .unfinished, w) => (none, w.output)
  | (.ok (.ended value), w) => (some (.returned (value.map Datum.scalar)), w.output)
  | (.ok _, w) => (some (.returned none), w.output)
  | (.error f, w) => (some (.failed f), w.output)

/-! ## Calls of the debugging built-in -/

mutual

/-- Whether an expression calls the debugging built-in. -/
def Expr.callsDebug : Expr → Bool
  | .unary _ _ operand => operand.callsDebug
  | .binary _ left _ right => left.callsDebug || right.callsDebug
  | .call _ name args => name == "debug" || Expr.listCallsDebug args
  | _ => false

/-- Whether one of some expressions calls the debugging built-in. -/
def Expr.listCallsDebug : List Expr → Bool
  | [] => false
  | e :: es => e.callsDebug || Expr.listCallsDebug es

end

mutual

/-- Whether a statement calls the debugging built-in. -/
def Stmt.callsDebug : Stmt → Bool
  | .exprStmt _ e | .letDecl _ _ e | .assign _ _ e | .returning _ (some e) => e.callsDebug
  | .conditional _ cond body rest =>
    cond.callsDebug || Stmt.listCallsDebug body || rest.callsDebug
  | .loop _ body => Stmt.listCallsDebug body
  | _ => false

/-- Whether one of some statements calls the debugging built-in. -/
def Stmt.listCallsDebug : List Stmt → Bool
  | [] => false
  | s :: ss => s.callsDebug || Stmt.listCallsDebug ss

/-- Whether the debugging built-in is called behind a condition. -/
def Chain.callsDebug : Chain → Bool
  | .done => false
  | .otherwise body => Stmt.listCallsDebug body
  | .elseIf cond body rest => cond.callsDebug || Stmt.listCallsDebug body || rest.callsDebug

end

/-- Whether a program calls the debugging built-in. -/
def Program.callsDebug (p : Program) : Bool :=
  Stmt.listCallsDebug p.items

end Octet
