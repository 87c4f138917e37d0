import Octet.Draft.Emission
import Octet.Proofs.Draft.Actions

/-!
# Drafts with dictionaries

A draft numbers its texts and variables by their places in two lists, and the label behind the
innermost loop is handed down to the statements of the loop.  This file says how a compiler lays a
tree out that has nothing of the kind: all it has is a *ledger*, which it reads and changes as it
goes.

* A text is looked up in a dictionary.  A new one is appended to the pool of texts and entered in
  the dictionary with the number it has there.
* A variable is looked up in a dictionary too, and there is no list beside it.  A new one takes the
  number of entries as its register.
* The loops that are open are on a stack, and `break` takes the innermost one from there.  A loop is
  put on the stack before its block is laid out, and taken off it behind the block whatever happened
  in there.

Nothing here makes the pool and the dictionary agree, and nothing says that a loop that was opened
is closed again.  A ledger may hold anything.  That laying trees out keeps it in order is proved in
`Numbering` and `Appending`, and that it comes to the same as laying them out on a draft in
`Mirroring`.

The code is the same as that of a draft, and so are its labels and the bytes that wait for them, so
these are left to the actions of a draft (`onDraft`).
-/

namespace Octet

/-- An image under construction, by someone who keeps dictionaries. -/
structure Ledger where
  /-- The instructions so far. -/
  code : List UInt8 := []
  /-- The texts so far. -/
  constants : List String := []
  /-- The numbers of texts, in the order in which they were entered. -/
  numbers : List (String × Nat) := []
  /-- The registers of variables, in the order in which they were entered. -/
  registers : List (String × Nat) := []
  /-- The open loops, the innermost first. -/
  loops : List LoopFrame := []
  /-- The bytes that wait for an address. -/
  fixups : List Fixup := []
  /-- The address of each label, once it is marked. -/
  labels : List (Option Nat) := []
  deriving DecidableEq, Repr, Inhabited

/-- An action on a ledger.  What was laid out before a failure is kept. -/
abbrev Entry (α : Type) : Type :=
  ExceptT CompileError (StateM Ledger) α

namespace Entry

variable {α β : Type}

/-- Carry an action out. -/
def perform (a : Entry α) (l : Ledger) : Except CompileError α × Ledger :=
  a.run.run l

@[simp] theorem perform_pure (x : α) (l : Ledger) : (pure x : Entry α).perform l = (.ok x, l) := rfl

theorem perform_bind (a : Entry α) (f : α → Entry β) (l : Ledger) :
    (a >>= f).perform l =
      match a.perform l with
      | (.ok x, l') => (f x).perform l'
      | (.error e, l') => (.error e, l') := by
  unfold perform
  simp only [ExceptT.run_bind, StateT.run_bind]
  rcases a.run.run l with ⟨x | x, l'⟩ <;> rfl

theorem perform_get_bind (f : Ledger → Entry α) (l : Ledger) :
    (get >>= f).perform l = (f l).perform l := rfl

/-- An action that succeeds in two parts succeeds in each of them. -/
theorem bind_ok {a : Entry α} {f : α → Entry β} {l l'' : Ledger} {y : β}
    (h : (a >>= f).perform l = (.ok y, l'')) :
    ∃ x l', a.perform l = (.ok x, l') ∧ (f x).perform l' = (.ok y, l'') := by
  rw [perform_bind] at h
  split at h
  · rename_i x l' ha
    exact ⟨x, l', ha, h⟩
  · cases h

end Entry

namespace Ledger

variable {α : Type}

/-- The variables that have registers. -/
def names (l : Ledger) : List String :=
  l.registers.map Prod.fst

/-- The address of a label, if it is marked. -/
def address? (l : Ledger) (k : Label) : Option Nat :=
  l.labels.getD k none

/-- The place behind the innermost loop. -/
def loopEnd? (l : Ledger) : Option Label :=
  l.loops.head?.map LoopFrame.finish

/-- The draft that a host sees who has opened these loops. -/
def draft (l : Ledger) (loops : List LoopFrame) : Draft :=
  ⟨l.code, l.constants, l.names, loops, l.fixups, l.labels⟩

/-- A draft with its loops. -/
def toDraft (l : Ledger) : Draft :=
  l.draft l.loops

/-- The ledger of a draft: each entry has its place in the dictionary. -/
def ofDraft (d : Draft) : Ledger :=
  ⟨d.code, d.constants, d.constants.zipIdx, d.registers.zipIdx, d.loops, d.fixups, d.labels⟩

/-! ## Actions -/

/-- Fail at a place. -/
def fail (fault : CompileFault) (site : Site) : Entry α :=
  throw ⟨fault, site⟩

/-- Begin anew.  Labels keep their addresses. -/
def reset : Entry Unit :=
  modify fun l => { labels := l.labels }

/-- An action on what a draft has in common with a ledger, its tables and loops apart. -/
def onDraft (a : Emit α) : Entry α :=
  ExceptT.mk fun l =>
    let (outcome, d) := a.perform l.toDraft
    (outcome, { l with code := d.code, fixups := d.fixups, labels := d.labels })

theorem perform_onDraft {a : Emit α} {l : Ledger} {outcome : Except CompileError α} {d : Draft}
    (h : a.perform l.toDraft = (outcome, d)) :
    (onDraft a).perform l =
      (outcome, { l with code := d.code, fixups := d.fixups, labels := d.labels }) := by
  have hperform : (onDraft a).perform l =
      ((a.perform l.toDraft).1, { l with
        code := (a.perform l.toDraft).2.code
        fixups := (a.perform l.toDraft).2.fixups
        labels := (a.perform l.toDraft).2.labels }) := rfl
  rw [hperform, h]

/-- A label of its own, not marked yet. -/
def newLabel : Entry Label := onDraft Draft.newLabel

/-- Give a label the address that the code has reached. -/
def mark (k : Label) : Entry Unit := onDraft (Draft.mark k)

/-- Append an instruction. -/
def emit (op : Opcode) (operand : List UInt8) : Entry Unit := onDraft (Draft.emit op operand)

/-- Append an instruction whose operand is one byte. -/
def emitByte (op : Opcode) (n : Int) : Entry Unit := onDraft (Draft.emitByte op n)

/-- Append an instruction whose operand is a word. -/
def emitWord (op : Opcode) (n : Int) : Entry Unit := onDraft (Draft.emitWord op n)

/-- Append a jump whose address is written later. -/
def emitJump (op : Opcode) (target : Label) : Entry Unit := onDraft (Draft.emitJump op target)

/-- Write all addresses, unless the code is too long to be addressed. -/
def resolve : Entry Unit := onDraft Draft.resolve

/-- The ledger with a new text. -/
def withText (l : Ledger) (value : String) : Ledger :=
  { l with
    constants := l.constants ++ [value]
    numbers := l.numbers ++ [(value, l.constants.length)] }

/-- The ledger with a new variable. -/
def withName (l : Ledger) (name : String) : Ledger :=
  { l with registers := l.registers ++ [(name, l.registers.length)] }

/-- The number of a text, which is given the next one if it is new. -/
def constant (value : String) (site : Site) : Entry Nat := do
  let l ← get
  takeNumber (l.numbers.lookup value) l.constants.length maxConstants (l.withText value)
    ⟨.tooManyConstants, site⟩

/-- The register of a variable, which is given the next one if it is new. -/
def allocate (name : String) (site : Site) : Entry Nat := do
  let l ← get
  takeNumber (l.registers.lookup name) l.registers.length maxRegisters (l.withName name)
    ⟨.tooManyRegisters name, site⟩

/-- The register of a variable that was bound before. -/
def lookup (name : String) (site : Site) : Entry Nat := do
  match (← get).registers.lookup name with
  | some i => return i
  | none => fail (.undefinedVariable name) site

theorem lookup_cases (name : String) (site : Site) (l : Ledger) :
    (∃ r, l.registers.lookup name = some r ∧ (lookup name site).perform l = (.ok r, l)) ∨
    l.registers.lookup name = none ∧ ∃ e, (lookup name site).perform l = (.error e, l) := by
  rw [lookup, Entry.perform_get_bind]
  cases l.registers.lookup name with
  | some r => exact .inl ⟨r, rfl, rfl⟩
  | none => exact .inr ⟨rfl, _, rfl⟩

/-- The ledger with one more loop on the stack. -/
def opened (l : Ledger) (frame : LoopFrame) : Ledger :=
  { l with loops := frame :: l.loops }

/-- The ledger without the innermost loop. -/
def closed (l : Ledger) : Ledger :=
  { l with loops := l.loops.tail }

/-- Do something inside of a loop, and leave the loop whatever comes of it. -/
def inLoop (frame : LoopFrame) (body : Entry α) : Entry α :=
  ExceptT.mk do
    modify (opened · frame)
    let outcome ← body.run
    modify closed
    return outcome

theorem perform_inLoop (frame : LoopFrame) (body : Entry α) (l : Ledger) :
    (inLoop frame body).perform l =
      ((body.perform (l.opened frame)).1, (body.perform (l.opened frame)).2.closed) := rfl

end Ledger

/-! ## Trees -/

open Ledger

/-- Lay out a literal. -/
def enterLiteral (pos : Pos) : Option Scalar → Entry Unit
  | some (.bool b) => emitByte .pushBool (if b then 1 else 0)
  | some (.int n) =>
    if Word32.least ≤ n ∧ n ≤ Word32.greatest then emitWord .pushInt n
    else fail (.integerTooWide n) (.ofPos pos)
  | some (.text s) => do emitByte .loadConstant (← constant s (.ofPos pos))
  | value => fail (.unrepresentable value) (.ofPos pos)

mutual

/-- Lay out an expression. -/
def Expr.enter : Expr → Entry Unit
  | .literal pos value => enterLiteral pos value
  | .identifier pos name => do emitByte .loadRegister (← lookup name (.ofPos pos))
  | .unary pos op operand =>
    if op = "-" ∧ operand.isLeastMagnitude then
      emitWord .pushInt Word32.least
    else do
      operand.enter
      match unaryOperators.lookup op with
      | some opcode => Ledger.emit opcode []
      | none => fail (.unknownUnary op) (.ofPos pos)
  | .binary pos left op right =>
    match binaryOperators.lookup op with
    | some opcode => do
      left.enter
      right.enter
      Ledger.emit opcode []
    | none => fail (.unknownBinary op) (.ofPos pos)
  | .call pos name args =>
    match Builtin.ofName? name with
    | some builtin =>
      if args.length = builtin.arity then do
        Expr.enterList args
        emitByte .callBuiltin builtin.id
      else fail (.wrongArity name builtin.arity args.length) (.ofPos pos)
    | none => fail (.unknownCall name) (.ofPos pos)
  | .misplaced kind => fail (.misplacedExpression kind) .unknown

/-- Lay out expressions one after the other. -/
def Expr.enterList : List Expr → Entry Unit
  | [] => return
  | e :: es => do
    e.enter
    Expr.enterList es

end

mutual

/-- Lay out a statement. -/
def Stmt.enter : Stmt → Entry Unit
  | .exprStmt _ e => e.enter
  | .letDecl pos name value => do
    value.enter
    emitByte .storeRegister (← allocate name (.ofPos pos))
  | .assign pos name value => do
    let register ← lookup name (.ofPos pos)
    value.enter
    emitByte .storeRegister register
  | .returning _ none => Ledger.emit .ret []
  | .returning _ (some value) => do
    value.enter
    Ledger.emit .ret []
  | .breaking pos => do
    match (← get).loopEnd? with
    | some k => emitJump .jump k
    | none => fail .breakOutsideLoop (.ofPos pos)
  | .conditional _ cond body rest => do
    let finish ← newLabel
    let next ← newLabel
    cond.enter
    emitJump .jumpIfFalse next
    Stmt.enterList body
    rest.enter finish next
    mark finish
  | .loop _ body => do
    let start ← newLabel
    let finish ← newLabel
    mark start
    inLoop ⟨start, finish⟩ (Stmt.enterList body)
    emitJump .jump start
    mark finish
  | .fnDecl pos name _ _ => fail (.functionDeclared name) (.ofPos pos)
  | .misplaced kind => fail (.misplacedStatement kind) .unknown

/-- Lay out the statements of a block. -/
def Stmt.enterList : List Stmt → Entry Unit
  | [] => return
  | s :: ss => do
    s.enter
    Stmt.enterList ss

/-- Lay out what follows a block of a conditional, given the label behind the conditional and the
label at which the failed test in front of that block goes on. -/
def Chain.enter (finish next : Label) : Chain → Entry Unit
  | .done => mark next
  | .otherwise body => do
    emitJump .jump finish
    mark next
    Stmt.enterList body
  | .elseIf cond body rest => do
    emitJump .jump finish
    mark next
    let later ← newLabel
    cond.enter
    emitJump .jumpIfFalse later
    Stmt.enterList body
    rest.enter finish later

end

/-- Lay out a whole program from the beginning and write its addresses. -/
def Ledger.generate (p : Program) : Entry Image := do
  reset
  Stmt.enterList p.items
  resolve
  let l ← get
  return ⟨l.code, l.constants⟩

end Octet
