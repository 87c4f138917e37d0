import Octet.Draft.Emission
import Octet.Proofs.Instr.Listing

/-!
# Laying out trees without placeholders

A draft learns its jump targets late: it leaves a byte open and fills it in when
the label is marked.  This file lays a tree out in one go.  How many bytes a tree
takes depends on the tree alone (`Expr.size`, `Stmt.size`, `Chain.size`), so every
address is known before a single byte is written, and a jump is written together
with its target.

The numbers of texts and variables are looked up in finished `Tables`.  A draft
numbers them as it goes, but a number that was given once is never taken back, so
looking them up at the end gives the same numbers.

Like a draft, the direct layout refuses: it yields nothing for a tree that has no
instructions, for a name without a number, and for a target that does not fit into
a byte.

## Addresses

Statements are given the address at which they start, and the address behind the
innermost loop, if there is one.  What follows a block of a conditional starts
with a jump behind the conditional, unless nothing follows; a failed test goes on
behind that jump (`Chain.entry`).
-/

namespace Octet

/-- The texts and the variables of a program, in the order of their numbers. -/
structure Tables where
  constants : List String
  registers : List String

/-- A number as an operand, if it fits into a byte. -/
def byte? (n : Nat) : Option UInt8 :=
  if n < 256 then some (UInt8.ofNat n) else none

theorem toNat_of_byte? {n : Nat} {b : UInt8} (h : byte? n = some b) : b.toNat = n := by
  rw [byte?] at h
  split at h
  · rename_i hn
    cases h
    rw [UInt8.toNat_ofNat', Nat.mod_eq_of_lt hn]
  · cases h

theorem byte?_of_lt {n : Nat} (h : n < 256) : byte? n = some (UInt8.ofNat n) := if_pos h

namespace Tables

/-- The number of a text. -/
def constant? (t : Tables) (text : String) : Option UInt8 :=
  (t.constants.idxOf? text).bind byte?

/-- The register of a variable. -/
def register? (t : Tables) (name : String) : Option UInt8 :=
  (t.registers.idxOf? name).bind byte?

theorem idxOf?_of_constant? {t : Tables} {text : String} {i : UInt8}
    (h : t.constant? text = some i) : t.constants.idxOf? text = some i.toNat := by
  obtain ⟨n, hn, hi⟩ := Option.bind_eq_some_iff.1 h
  rw [hn, toNat_of_byte? hi]

theorem idxOf?_of_register? {t : Tables} {name : String} {r : UInt8}
    (h : t.register? name = some r) : t.registers.idxOf? name = some r.toNat := by
  obtain ⟨n, hn, hr⟩ := Option.bind_eq_some_iff.1 h
  rw [hn, toNat_of_byte? hr]

end Tables

/-- The instruction of an operator, by its spelling. -/
def operator? (operators : List (String × Opcode)) (op : String) : Option Instr :=
  (operators.lookup op).bind fun opcode => opcode.instr? []

/-! ## Expressions -/

mutual

/-- The number of bytes of an expression. -/
def Expr.size : Expr → Nat
  | .literal _ (some (.bool _)) => 2
  | .literal _ (some (.int _)) => 5
  | .literal _ (some (.text _)) => 2
  | .literal _ _ => 0
  | .identifier _ _ => 2
  | .unary _ op operand => if op = "-" ∧ operand.isLeastMagnitude then 5 else operand.size + 1
  | .binary _ left _ right => left.size + right.size + 1
  | .call _ _ args => Expr.sizeList args + 2
  | .misplaced _ => 0

/-- The number of bytes of expressions one after the other. -/
def Expr.sizeList : List Expr → Nat
  | [] => 0
  | e :: es => e.size + Expr.sizeList es

end

/-- The instructions of a literal. -/
def literalInstrs? (t : Tables) : Option Scalar → Option (List Instr)
  | some (.bool b) => some [.pushBool b]
  | some (.int n) =>
    if Word32.least ≤ n ∧ n ≤ Word32.greatest then some [.pushInt n] else none
  | some (.text s) => (t.constant? s).map fun i => [.loadConstant i]
  | _ => none

mutual

/-- The instructions of an expression. -/
def Expr.instrs? (t : Tables) : Expr → Option (List Instr)
  | .literal _ value => literalInstrs? t value
  | .identifier _ name => (t.register? name).map fun r => [.loadRegister r]
  | .unary _ op operand =>
    if op = "-" ∧ operand.isLeastMagnitude then some [.pushInt Word32.least]
    else do
      let is ← operand.instrs? t
      let i ← operator? unaryOperators op
      return is ++ [i]
  | .binary _ left op right => do
    let is ← left.instrs? t
    let js ← right.instrs? t
    let i ← operator? binaryOperators op
    return is ++ js ++ [i]
  | .call _ name args => do
    let builtin ← Builtin.ofName? name
    if args.length = builtin.arity then
      let is ← Expr.instrsList? t args
      return is ++ [.callBuiltin (UInt8.ofNat builtin.id)]
    else none
  | .misplaced _ => none

/-- The instructions of expressions one after the other. -/
def Expr.instrsList? (t : Tables) : List Expr → Option (List Instr)
  | [] => some []
  | e :: es => do
    let is ← e.instrs? t
    let js ← Expr.instrsList? t es
    return is ++ js

end

/-! ## Statements -/

mutual

/-- The number of bytes of a statement. -/
def Stmt.size : Stmt → Nat
  | .exprStmt _ e => e.size
  | .letDecl _ _ value | .assign _ _ value => value.size + 2
  | .returning _ none => 1
  | .returning _ (some value) => value.size + 1
  | .breaking _ => 2
  | .conditional _ cond body rest => cond.size + 2 + Stmt.sizeList body + rest.size
  | .loop _ body => Stmt.sizeList body + 2
  | .fnDecl .. | .misplaced _ => 0

/-- The number of bytes of a block. -/
def Stmt.sizeList : List Stmt → Nat
  | [] => 0
  | s :: ss => s.size + Stmt.sizeList ss

/-- The number of bytes of what follows a block of a conditional. -/
def Chain.size : Chain → Nat
  | .done => 0
  | .otherwise body => 2 + Stmt.sizeList body
  | .elseIf cond body rest => 2 + (cond.size + 2 + Stmt.sizeList body + rest.size)

end

/-- Where the test in front of a block goes on if it fails, counted from the end of
that block. -/
def Chain.entry : Chain → Nat
  | .done => 0
  | _ => 2

/-- A jump to an address. -/
def jumpTo? (address : Nat) : Option Instr :=
  (byte? address).map .jump

/-- A jump to an address that is taken if a test fails. -/
def branchTo? (address : Nat) : Option Instr :=
  (byte? address).map .jumpIfFalse

mutual

/-- The instructions of a statement that starts at an address. -/
def Stmt.instrs? (t : Tables) (loopEnd : Option Nat) (base : Nat) : Stmt → Option (List Instr)
  | .exprStmt _ e => e.instrs? t
  | .letDecl _ name value | .assign _ name value => do
    let is ← value.instrs? t
    let r ← t.register? name
    return is ++ [.storeRegister r]
  | .returning _ none => some [.ret]
  | .returning _ (some value) => do
    let is ← value.instrs? t
    return is ++ [.ret]
  | .breaking _ => do
    let i ← jumpTo? (← loopEnd)
    return [i]
  | .conditional _ cond body rest => do
    let bodyStart := base + cond.size + 2
    let restStart := bodyStart + Stmt.sizeList body
    let test ← cond.instrs? t
    let branch ← branchTo? (restStart + rest.entry)
    let block ← Stmt.instrsList? t loopEnd bodyStart body
    let others ← rest.instrs? t loopEnd (restStart + rest.size) restStart
    return test ++ [branch] ++ block ++ others
  | .loop _ body => do
    let block ← Stmt.instrsList? t (some (base + Stmt.sizeList body + 2)) base body
    let back ← jumpTo? base
    return block ++ [back]
  | .fnDecl .. | .misplaced _ => none

/-- The instructions of a block that starts at an address. -/
def Stmt.instrsList? (t : Tables) (loopEnd : Option Nat) (base : Nat) :
    List Stmt → Option (List Instr)
  | [] => some []
  | s :: ss => do
    let is ← s.instrs? t loopEnd base
    let js ← Stmt.instrsList? t loopEnd (base + s.size) ss
    return is ++ js

/-- The instructions of what follows a block of a conditional that ends at the
first address and is followed by the code at the second. -/
def Chain.instrs? (t : Tables) (loopEnd : Option Nat) (finish base : Nat) :
    Chain → Option (List Instr)
  | .done => some []
  | .otherwise body => do
    let exit ← jumpTo? finish
    let block ← Stmt.instrsList? t loopEnd (base + 2) body
    return [exit] ++ block
  | .elseIf cond body rest => do
    let bodyStart := base + 2 + cond.size + 2
    let restStart := bodyStart + Stmt.sizeList body
    let exit ← jumpTo? finish
    let test ← cond.instrs? t
    let branch ← branchTo? (restStart + rest.entry)
    let block ← Stmt.instrsList? t loopEnd bodyStart body
    let others ← rest.instrs? t loopEnd finish restStart
    return [exit] ++ test ++ [branch] ++ block ++ others

end

/-- The instructions of a program. -/
def Program.instrs? (t : Tables) (p : Program) : Option (List Instr) :=
  Stmt.instrsList? t none 0 p.items

/-! ## What parts consist of -/

section

variable {t : Tables} {loopEnd : Option Nat} {finish base : Nat} {is : List Instr}

theorem Expr.of_binary {pos : Pos} {left right : Expr} {op : String}
    (h : (Expr.binary pos left op right).instrs? t = some is) :
    ∃ js ks i, left.instrs? t = some js ∧ right.instrs? t = some ks ∧
      operator? binaryOperators op = some i ∧ is = js ++ ks ++ [i] := by
  rw [Expr.instrs?] at h
  obtain ⟨js, hjs, h⟩ := Option.bind_eq_some_iff.1 h
  obtain ⟨ks, hks, h⟩ := Option.bind_eq_some_iff.1 h
  obtain ⟨i, hi, h⟩ := Option.bind_eq_some_iff.1 h
  cases h
  exact ⟨js, ks, i, hjs, hks, hi, rfl⟩

theorem Expr.of_cons {e : Expr} {es : List Expr} (h : Expr.instrsList? t (e :: es) = some is) :
    ∃ js ks, e.instrs? t = some js ∧ Expr.instrsList? t es = some ks ∧ is = js ++ ks := by
  rw [Expr.instrsList?] at h
  obtain ⟨js, hjs, h⟩ := Option.bind_eq_some_iff.1 h
  obtain ⟨ks, hks, h⟩ := Option.bind_eq_some_iff.1 h
  cases h
  exact ⟨js, ks, hjs, hks, rfl⟩

/-- A binding and an assignment are laid out alike. -/
theorem Stmt.of_store {value : Expr} {name : String} (h : (do
      let is ← value.instrs? t
      let r ← t.register? name
      return is ++ [.storeRegister r]) = some is) :
    ∃ js r, value.instrs? t = some js ∧ t.register? name = some r ∧
      is = js ++ [.storeRegister r] := by
  obtain ⟨js, hjs, h⟩ := Option.bind_eq_some_iff.1 h
  obtain ⟨r, hr, h⟩ := Option.bind_eq_some_iff.1 h
  cases h
  exact ⟨js, r, hjs, hr, rfl⟩

theorem Stmt.of_breaking {pos : Pos} (h : (Stmt.breaking pos).instrs? t loopEnd base = some is) :
    ∃ a i, loopEnd = some a ∧ jumpTo? a = some i ∧ is = [i] := by
  rw [Stmt.instrs?] at h
  obtain ⟨a, ha, h⟩ := Option.bind_eq_some_iff.1 h
  obtain ⟨i, hi, h⟩ := Option.bind_eq_some_iff.1 h
  cases h
  exact ⟨a, i, ha, hi, rfl⟩

theorem Stmt.of_conditional {pos : Pos} {cond : Expr} {body : List Stmt} {rest : Chain}
    (h : (Stmt.conditional pos cond body rest).instrs? t loopEnd base = some is) :
    ∃ test branch block others, cond.instrs? t = some test ∧
      branchTo? (base + cond.size + 2 + Stmt.sizeList body + rest.entry) = some branch ∧
      Stmt.instrsList? t loopEnd (base + cond.size + 2) body = some block ∧
      rest.instrs? t loopEnd (base + cond.size + 2 + Stmt.sizeList body + rest.size)
        (base + cond.size + 2 + Stmt.sizeList body) = some others ∧
      is = test ++ [branch] ++ block ++ others := by
  rw [Stmt.instrs?] at h
  obtain ⟨test, htest, h⟩ := Option.bind_eq_some_iff.1 h
  obtain ⟨branch, hbranch, h⟩ := Option.bind_eq_some_iff.1 h
  obtain ⟨block, hblock, h⟩ := Option.bind_eq_some_iff.1 h
  obtain ⟨others, hothers, h⟩ := Option.bind_eq_some_iff.1 h
  cases h
  exact ⟨test, branch, block, others, htest, hbranch, hblock, hothers, rfl⟩

theorem Stmt.of_loop {pos : Pos} {body : List Stmt}
    (h : (Stmt.loop pos body).instrs? t loopEnd base = some is) :
    ∃ block back, Stmt.instrsList? t (some (base + Stmt.sizeList body + 2)) base body = some block ∧
      jumpTo? base = some back ∧ is = block ++ [back] := by
  rw [Stmt.instrs?] at h
  obtain ⟨block, hblock, h⟩ := Option.bind_eq_some_iff.1 h
  obtain ⟨back, hback, h⟩ := Option.bind_eq_some_iff.1 h
  cases h
  exact ⟨block, back, hblock, hback, rfl⟩

theorem Stmt.of_cons {s : Stmt} {ss : List Stmt}
    (h : Stmt.instrsList? t loopEnd base (s :: ss) = some is) :
    ∃ js ks, s.instrs? t loopEnd base = some js ∧
      Stmt.instrsList? t loopEnd (base + s.size) ss = some ks ∧ is = js ++ ks := by
  rw [Stmt.instrsList?] at h
  obtain ⟨js, hjs, h⟩ := Option.bind_eq_some_iff.1 h
  obtain ⟨ks, hks, h⟩ := Option.bind_eq_some_iff.1 h
  cases h
  exact ⟨js, ks, hjs, hks, rfl⟩

theorem Chain.of_otherwise {body : List Stmt}
    (h : (Chain.otherwise body).instrs? t loopEnd finish base = some is) :
    ∃ exit block, jumpTo? finish = some exit ∧
      Stmt.instrsList? t loopEnd (base + 2) body = some block ∧ is = [exit] ++ block := by
  rw [Chain.instrs?] at h
  obtain ⟨exit, hexit, h⟩ := Option.bind_eq_some_iff.1 h
  obtain ⟨block, hblock, h⟩ := Option.bind_eq_some_iff.1 h
  cases h
  exact ⟨exit, block, hexit, hblock, rfl⟩

theorem Chain.of_elseIf {cond : Expr} {body : List Stmt} {rest : Chain}
    (h : (Chain.elseIf cond body rest).instrs? t loopEnd finish base = some is) :
    ∃ exit test branch block others, jumpTo? finish = some exit ∧ cond.instrs? t = some test ∧
      branchTo? (base + 2 + cond.size + 2 + Stmt.sizeList body + rest.entry) = some branch ∧
      Stmt.instrsList? t loopEnd (base + 2 + cond.size + 2) body = some block ∧
      rest.instrs? t loopEnd finish (base + 2 + cond.size + 2 + Stmt.sizeList body) = some others ∧
      is = [exit] ++ test ++ [branch] ++ block ++ others := by
  rw [Chain.instrs?] at h
  obtain ⟨exit, hexit, h⟩ := Option.bind_eq_some_iff.1 h
  obtain ⟨test, htest, h⟩ := Option.bind_eq_some_iff.1 h
  obtain ⟨branch, hbranch, h⟩ := Option.bind_eq_some_iff.1 h
  obtain ⟨block, hblock, h⟩ := Option.bind_eq_some_iff.1 h
  obtain ⟨others, hothers, h⟩ := Option.bind_eq_some_iff.1 h
  cases h
  exact ⟨exit, test, branch, block, others, hexit, htest, hbranch, hblock, hothers, rfl⟩

end

end Octet
