import Octet.Builtin
import Octet.Draft
import Octet.Number.Word32

/-!
# Laying out trees

An expression is laid out as the instructions that push its value: its operands
from left to right, then its operator.  A call lays out its arguments and then
the built-in; an expression that stands as a statement leaves its value on the
stack.

A conditional tests its conditions one after the other.  Each test jumps to the
next clause if it fails, and each block jumps behind the conditional, except a
last block with nothing behind it.  A loop ends in a jump to its beginning, and
`break` is a jump to the label behind the innermost loop, which is handed down to
the statements of the loop.

## The least word

The least word has no literal of its own, since the magnitude of the literal
under its sign is one too great.  So a minus in front of a literal that equals
`2 ^ 31` is laid out as the least word.

## Order of the checks

An assignment looks up its variable before its value is laid out, while a binding
takes a register after its value.  The operator of a binary operation is checked
before its operands, that of a unary one after its operand, and a call checks the
name and the number of its arguments before the arguments.  An integer is checked
before it is encoded, so the encoding itself never refuses one.
-/

namespace Octet

open Draft

/-- Whether an expression is a literal whose negation is the least word. -/
def Expr.isLeastMagnitude : Expr → Bool
  | .literal _ (some (.bool _)) => false
  | .literal _ (some v) => v.same (.int (-Word32.least))
  | _ => false

/-- Lay out a literal. -/
def emitLiteral (pos : Pos) : Option Scalar → Emit Unit
  | some (.bool b) => emitByte .pushBool (if b then 1 else 0)
  | some (.int n) =>
    if Word32.least ≤ n ∧ n ≤ Word32.greatest then emitWord .pushInt n
    else fail (.integerTooWide n) (.ofPos pos)
  | some (.text s) => do emitByte .loadConstant (← constant s (.ofPos pos))
  | value => fail (.unrepresentable value) (.ofPos pos)

mutual

/-- Lay out an expression. -/
def Expr.emit : Expr → Emit Unit
  | .literal pos value => emitLiteral pos value
  | .identifier pos name => do emitByte .loadRegister (← lookup name (.ofPos pos))
  | .unary pos op operand =>
    if op = "-" ∧ operand.isLeastMagnitude then
      emitWord .pushInt Word32.least
    else do
      operand.emit
      match unaryOperators.lookup op with
      | some opcode => Draft.emit opcode []
      | none => fail (.unknownUnary op) (.ofPos pos)
  | .binary pos left op right =>
    match binaryOperators.lookup op with
    | some opcode => do
      left.emit
      right.emit
      Draft.emit opcode []
    | none => fail (.unknownBinary op) (.ofPos pos)
  | .call pos name args =>
    match Builtin.ofName? name with
    | some builtin =>
      if args.length = builtin.arity then do
        Expr.emitList args
        emitByte .callBuiltin builtin.id
      else fail (.wrongArity name builtin.arity args.length) (.ofPos pos)
    | none => fail (.unknownCall name) (.ofPos pos)
  | .misplaced kind => fail (.misplacedExpression kind) .unknown

/-- Lay out expressions one after the other. -/
def Expr.emitList : List Expr → Emit Unit
  | [] => return
  | e :: es => do
    e.emit
    Expr.emitList es

end

mutual

/-- Lay out a statement, given the label behind the innermost loop. -/
def Stmt.emit (loopEnd : Option Label) : Stmt → Emit Unit
  | .exprStmt _ e => e.emit
  | .letDecl pos name value => do
    value.emit
    emitByte .storeRegister (← allocate name (.ofPos pos))
  | .assign pos name value => do
    let register ← lookup name (.ofPos pos)
    value.emit
    emitByte .storeRegister register
  | .returning _ none => Draft.emit .ret []
  | .returning _ (some value) => do
    value.emit
    Draft.emit .ret []
  | .breaking pos =>
    match loopEnd with
    | some l => emitJump .jump l
    | none => fail .breakOutsideLoop (.ofPos pos)
  | .conditional _ cond body rest => do
    let finish ← newLabel
    let next ← newLabel
    cond.emit
    emitJump .jumpIfFalse next
    Stmt.emitList loopEnd body
    rest.emit loopEnd finish next
    mark finish
  | .loop _ body => do
    let start ← newLabel
    let finish ← newLabel
    mark start
    Stmt.emitList (some finish) body
    emitJump .jump start
    mark finish
  | .fnDecl pos name _ _ => fail (.functionDeclared name) (.ofPos pos)
  | .misplaced kind => fail (.misplacedStatement kind) .unknown

/-- Lay out the statements of a block. -/
def Stmt.emitList (loopEnd : Option Label) : List Stmt → Emit Unit
  | [] => return
  | s :: ss => do
    s.emit loopEnd
    Stmt.emitList loopEnd ss

/-- Lay out what follows a block of a conditional, given the label behind the
conditional and the label at which the failed test in front of that block goes
on. -/
def Chain.emit (loopEnd : Option Label) (finish next : Label) : Chain → Emit Unit
  | .done => mark next
  | .otherwise body => do
    emitJump .jump finish
    mark next
    Stmt.emitList loopEnd body
  | .elseIf cond body rest => do
    emitJump .jump finish
    mark next
    let later ← newLabel
    cond.emit
    emitJump .jumpIfFalse later
    Stmt.emitList loopEnd body
    rest.emit loopEnd finish later

end

namespace Draft

/-- Lay out a statement inside the loops that the host has opened. -/
def statement (s : Stmt) : Emit Unit := do
  s.emit (← get).loopEnd?

/-- Lay out a whole program from the beginning and write its addresses. -/
def generate (p : Program) : Emit Image := do
  reset
  Stmt.emitList none p.items
  resolve
  let d ← get
  return ⟨d.code, d.constants⟩

end Draft

namespace Program

/-- Lay out a program; the draft shows how far it got. -/
def layOut (p : Program) : Except CompileError Image × Draft :=
  (Draft.generate p).perform {}

/-- The image of a program. -/
def compile (p : Program) : Except CompileError Image :=
  p.layOut.1

end Program

end Octet
