import Octet.Proofs.Tree.Ends

/-!
# Where reading gets stuck

A rule that yields nothing has read some tokens and *gets stuck* in front of the others.  This file
says how, by one relation for each rule: `F fault d tokens rest` says that reading `tokens` gets
stuck in front of `rest` because of `fault`, while `d` is open.  What was read before is made of
greedy spellings, and of one unfinished piece in each of the rules that are still at work.  Every
place where a rule can fail is a constructor.

## What is open

Inside an expression the operators in front of their operands and the parentheses, of groups and of
arguments, are counted: the number is 0 where the expression starts.  Around it stand blocks.  A
`Nesting` has both numbers, and there is no second one outside of expressions.

The rules count an expression as one level more than what stands around it (`Nesting.levels`), while
a reader of the program sees the blocks, the parentheses and the operators only
(`Nesting.constructs`).  Both are the same outside of expressions.

* A fault other than `tooDeep` leaves open what was opened in front of `rest` and not closed.  A
  block that lacks its closing brace is not counted any more.
* With `tooDeep` the opening that found no room is counted too.
-/

namespace Octet
namespace Grammar

/-- Reading gets stuck: the fault, what is open, the tokens, and those that are left. -/
abbrev Stuck (δ : Type) : Type :=
  ParseFault → δ → List Token → List Token → Prop

/-- What is open at some point of a program. -/
structure Nesting where
  /-- The number of blocks. -/
  blocks : Nat
  /-- Inside an expression, the number of its parentheses and prefixed operators. -/
  operands : Option Nat
  deriving DecidableEq, Repr

namespace Nesting

/-- Nothing is open. -/
def outside : Nesting :=
  ⟨0, none⟩

/-- An expression is open, and so many parentheses and prefixed operators in it. -/
def inExpression (n : Nat) : Nesting :=
  ⟨0, some n⟩

/-- The same inside one block more. -/
def inBlock (d : Nesting) : Nesting :=
  { d with blocks := d.blocks + 1 }

/-- The number of levels that the rules count. -/
def levels (d : Nesting) : Nat :=
  d.blocks + d.operands.elim 0 (· + 1)

/-- The number of blocks, parentheses and prefixed operators. -/
def constructs (d : Nesting) : Nat :=
  d.blocks + d.operands.getD 0

@[simp] theorem levels_outside : outside.levels = 0 := rfl

@[simp] theorem levels_inExpression (n : Nat) : (inExpression n).levels = n + 1 :=
  Nat.zero_add _

@[simp] theorem levels_inBlock (d : Nesting) : d.inBlock.levels = d.levels + 1 :=
  Nat.succ_add ..

@[simp] theorem constructs_inExpression (n : Nat) : (inExpression n).constructs = n :=
  Nat.zero_add _

@[simp] theorem constructs_inBlock (d : Nesting) : d.inBlock.constructs = d.constructs + 1 :=
  Nat.succ_add ..

/-- The expression is the only level that is no construct. -/
theorem levels_eq (d : Nesting) :
    d.levels = if d.operands.isSome then d.constructs + 1 else d.constructs := by
  obtain ⟨blocks, operands⟩ := d
  cases operands <;> rfl

end Nesting

namespace Stuck

/-- There is no room for what would be opened. -/
inductive Crowded {δ : Type} (here : δ) : Stuck δ
  | intro {tokens : List Token} : Crowded here .tooDeep here tokens tokens

/-- Something is missing that is a single token. -/
inductive Lacks {δ : Type} (kind : TokenKind) (what : Expectation) (here : δ) : Stuck δ
  | intro {tokens : List Token} :
      Avoids [kind] tokens → Lacks kind what here (.expected what) here tokens tokens

/-- One parenthesis or prefixed operator further in. -/
inductive Within (F : Stuck Nat) : Stuck Nat
  | intro {fault : ParseFault} {n : Nat} {tokens rest : List Token} :
      F fault n tokens rest → Within F fault (n + 1) tokens rest

/-! ## Lists -/

section

variable {α : Type} (R : Spelling α) (F : Stuck Nat)

/-- In one of several items with commas between them. -/
inductive Separated : Stuck Nat
  | item {fault : ParseFault} {n : Nat} {tokens rest : List Token} :
      F fault n tokens rest → Separated fault n tokens rest
  | later {a : α} {comma : Token} {fault : ParseFault} {n : Nat} {tokens later rest : List Token} :
      R a tokens (comma :: later) → comma.kind = .comma → Separated fault n later rest →
      Separated fault n tokens rest

/-- In one of the items in front of a closing parenthesis, or in front of the parenthesis. -/
inductive Enclosed (close : Expectation) : Stuck Nat
  | item {fault : ParseFault} {n : Nat} {tokens rest : List Token} :
      Avoids [.rightParen] tokens → Separated R F fault n tokens rest →
      Enclosed close fault n tokens rest
  | close {as : List α} {tokens rest : List Token} :
      Avoids [.rightParen] tokens → Grammar.Separated .greedy R as tokens rest →
      Avoids [.rightParen] rest → Enclosed close (.expected close) 0 tokens rest

end

/-! ## Expressions -/

/-- In one of the further operands of a level. -/
inductive Joined (ops : List TokenKind) (R : Spelling Expr) (F : Stuck Nat) : Stuck Nat
  | operand {op : Token} {fault : ParseFault} {n : Nat} {tokens rest : List Token} :
      op.kind ∈ ops → F fault n tokens rest → Joined ops R F fault n (op :: tokens) rest
  | later {right : Expr} {op : Token} {fault : ParseFault} {n : Nat}
      {tokens later rest : List Token} :
      op.kind ∈ ops → R right tokens later → Joined ops R F fault n later rest →
      Joined ops R F fault n (op :: tokens) rest

/-- In one of the operands of a level. -/
inductive LeftAssoc (ops : List TokenKind) (R : Spelling Expr) (F : Stuck Nat) : Stuck Nat
  | first {fault : ParseFault} {n : Nat} {tokens rest : List Token} :
      F fault n tokens rest → LeftAssoc ops R F fault n tokens rest
  | later {first : Expr} {fault : ParseFault} {n : Nat} {tokens later rest : List Token} :
      R first tokens later → Joined ops R F fault n later rest →
      LeftAssoc ops R F fault n tokens rest

/-- In one of the operands of several levels, from the loosest to the tightest. -/
def Climbing (R : Spelling Expr) (F : Stuck Nat) : List (List TokenKind) → Stuck Nat
  | [] => F
  | ops :: others =>
    LeftAssoc ops (others.foldr (Grammar.LeftAssoc .greedy) R) (Climbing R F others)

/-- In one of the operands of all levels. -/
def Operation (R : Spelling Expr) (F : Stuck Nat) : Stuck Nat :=
  Climbing R F levels

/-- In an operand, given what an expression inside parentheses is, and where one gets stuck in the
operand of a prefixed operator and in such an expression. -/
inductive OperandOf (inner : Spelling Expr) (F G : Stuck Nat) : Stuck Nat
  | prefixed {t : Token} {fault : ParseFault} {n : Nat} {tokens rest : List Token} :
      t.kind = .bang ∨ t.kind = .minus → Within F fault n tokens rest →
      OperandOf inner F G fault n (t :: tokens) rest
  | argument {t paren : Token} {fault : ParseFault} {n : Nat} {tokens rest : List Token} :
      t.kind = .identifier → paren.kind = .leftParen →
      Enclosed inner (Within G) .argumentsClose fault n tokens rest →
      OperandOf inner F G fault n (t :: paren :: tokens) rest
  | group {paren : Token} {fault : ParseFault} {n : Nat} {tokens rest : List Token} :
      paren.kind = .leftParen → Within G fault n tokens rest →
      OperandOf inner F G fault n (paren :: tokens) rest
  | groupClose {paren : Token} {e : Expr} {tokens rest : List Token} :
      paren.kind = .leftParen → inner e tokens rest → Avoids [.rightParen] rest →
      OperandOf inner F G (.expected .groupClose) 0 (paren :: tokens) rest
  | expression {tokens : List Token} :
      Avoids expressionStarts tokens → OperandOf inner F G (.expected .expression) 0 tokens tokens

/-- In an operand, with room for this many further openings. -/
def Operand : (room : Nat) → Stuck Nat
  | 0 => OperandOf Nowhere (Crowded 0) (Crowded 0)
  | room + 1 =>
    OperandOf (Grammar.Operation .greedy (Grammar.Operand .greedy room)) (Operand room)
      (Operation (Grammar.Operand .greedy room) (Operand room))

/-- In an expression, with room for this many openings. -/
def Expression : (room : Nat) → Stuck Nat
  | 0 => Crowded 0
  | room + 1 => Operation (Grammar.Operand .greedy room) (Operand room)

/-! ## Statements -/

/-- In front of the brace that opens a block, behind it, or at the end of the tokens, where the
brace that closes the block is missing. -/
inductive Braced (unclosed : List Token → Prop) (F : Stuck Nesting) : Stuck Nesting
  | brace {tokens : List Token} :
      Avoids [.leftBrace] tokens →
      Braced unclosed F (.expected .blockOpen) .outside tokens tokens
  | inside {brace : Token} {fault : ParseFault} {d : Nesting} {tokens rest : List Token} :
      brace.kind = .leftBrace → F fault d tokens rest →
      Braced unclosed F fault d.inBlock (brace :: tokens) rest
  | close {brace : Token} {tokens : List Token} :
      brace.kind = .leftBrace → unclosed tokens →
      Braced unclosed F (.expected .blockClose) .outside (brace :: tokens) []

/-- Statements up to the end of the tokens. -/
inductive Unclosed (R : Spelling Stmt) : List Token → Prop
  | done : Unclosed R []
  | skip {sep : Token} {tokens : List Token} :
      sep.kind = .semicolon → Unclosed R tokens → Unclosed R (sep :: tokens)
  | more {s : Stmt} {tokens later : List Token} :
      Avoids [.semicolon, .rightBrace] tokens → R s tokens later → Unclosed R later →
      Unclosed R tokens

/-- In one of the statements of a block. -/
inductive Statements (R : Spelling Stmt) (F : Stuck Nesting) : Stuck Nesting
  | statement {t : Token} {fault : ParseFault} {d : Nesting} {tokens rest : List Token} :
      t.kind ∉ [.semicolon, .rightBrace] → F fault d (t :: tokens) rest →
      Statements R F fault d (t :: tokens) rest
  | skip {sep : Token} {fault : ParseFault} {d : Nesting} {tokens rest : List Token} :
      sep.kind = .semicolon → Statements R F fault d tokens rest →
      Statements R F fault d (sep :: tokens) rest
  | later {s : Stmt} {fault : ParseFault} {d : Nesting} {tokens later rest : List Token} :
      Avoids [.semicolon, .rightBrace] tokens → R s tokens later →
      Statements R F fault d later rest → Statements R F fault d tokens rest

section

variable (E : Spelling Expr) (B : Spelling (List Stmt)) (F : Stuck Nat) (G : Stuck Nesting)

/-- Behind the first block of a conditional. -/
inductive ChainOf : Stuck Nesting
  | otherwise {word : Token} {fault : ParseFault} {d : Nesting} {tokens rest : List Token} :
      word.kind = .elseWord → Avoids [.ifWord] tokens → G fault d tokens rest →
      ChainOf fault d (word :: tokens) rest
  | condition {word word' : Token} {fault : ParseFault} {n : Nat} {tokens rest : List Token} :
      word.kind = .elseWord → word'.kind = .ifWord → F fault n tokens rest →
      ChainOf fault (.inExpression n) (word :: word' :: tokens) rest
  | body {word word' : Token} {cond : Expr} {fault : ParseFault} {d : Nesting}
      {tokens later rest : List Token} :
      word.kind = .elseWord → word'.kind = .ifWord → E cond tokens later →
      G fault d later rest → ChainOf fault d (word :: word' :: tokens) rest
  | later {word word' : Token} {cond : Expr} {body : List Stmt} {fault : ParseFault} {d : Nesting}
      {tokens later later' rest : List Token} :
      word.kind = .elseWord → word'.kind = .ifWord → E cond tokens later → B body later later' →
      ChainOf fault d later' rest → ChainOf fault d (word :: word' :: tokens) rest

/-- In a statement, given what expressions and blocks are and where one gets stuck in them. -/
inductive StatementOf : Stuck Nesting
  | name {word : Token} {tokens : List Token} :
      word.kind = .letWord → Avoids [.identifier] tokens →
      StatementOf (.expected .variableName) .outside (word :: tokens) tokens
  | sign {word name : Token} {tokens : List Token} :
      word.kind = .letWord → name.kind = .identifier → Avoids [.equal] tokens →
      StatementOf (.expected .bindingEqual) .outside (word :: name :: tokens) tokens
  | binding {word name sign : Token} {fault : ParseFault} {n : Nat} {tokens rest : List Token} :
      word.kind = .letWord → name.kind = .identifier → sign.kind = .equal →
      F fault n tokens rest →
      StatementOf fault (.inExpression n) (word :: name :: sign :: tokens) rest
  | loop {word : Token} {fault : ParseFault} {d : Nesting} {tokens rest : List Token} :
      word.kind = .loopWord → G fault d tokens rest → StatementOf fault d (word :: tokens) rest
  | condition {word : Token} {fault : ParseFault} {n : Nat} {tokens rest : List Token} :
      word.kind = .ifWord → F fault n tokens rest →
      StatementOf fault (.inExpression n) (word :: tokens) rest
  | body {word : Token} {cond : Expr} {fault : ParseFault} {d : Nesting}
      {tokens later rest : List Token} :
      word.kind = .ifWord → E cond tokens later → G fault d later rest →
      StatementOf fault d (word :: tokens) rest
  | chain {word : Token} {cond : Expr} {body : List Stmt} {fault : ParseFault} {d : Nesting}
      {tokens later later' rest : List Token} :
      word.kind = .ifWord → E cond tokens later → B body later later' →
      ChainOf E B F G fault d later' rest → StatementOf fault d (word :: tokens) rest
  | returned {word : Token} {fault : ParseFault} {n : Nat} {tokens rest : List Token} :
      word.kind = .returnWord → returnsValue word tokens = true → F fault n tokens rest →
      StatementOf fault (.inExpression n) (word :: tokens) rest
  | function {word : Token} {tokens : List Token} :
      word.kind = .fnWord → StatementOf .nestedFunction .outside (word :: tokens) (word :: tokens)
  | assignment {name sign : Token} {fault : ParseFault} {n : Nat} {tokens rest : List Token} :
      name.kind = .identifier → sign.kind = .equal → F fault n tokens rest →
      StatementOf fault (.inExpression n) (name :: sign :: tokens) rest
  | plain {t : Token} {fault : ParseFault} {n : Nat} {tokens rest : List Token} :
      t.kind ∉ statementWords → (t.kind = .identifier → Avoids [.equal] tokens) →
      F fault n (t :: tokens) rest → StatementOf fault (.inExpression n) (t :: tokens) rest

end

/-- In a statement, with room for this many openings. -/
def Statement : (room : Nat) → Stuck Nesting
  | 0 =>
    StatementOf (Grammar.Expression .greedy 0) (Grammar.Block .greedy 0) (Expression 0)
      (Braced (fun _ => False) (Crowded .outside))
  | room + 1 =>
    StatementOf (Grammar.Expression .greedy (room + 1)) (Grammar.Block .greedy (room + 1))
      (Expression (room + 1))
      (Braced (Unclosed (Grammar.Statement .greedy room))
        (Statements (Grammar.Statement .greedy room) (Statement room)))

/-- In a block, with room for this many openings. -/
def Block : (room : Nat) → Stuck Nesting
  | 0 => Braced (fun _ => False) (Crowded .outside)
  | room + 1 =>
    Braced (Unclosed (Grammar.Statement .greedy room))
      (Statements (Grammar.Statement .greedy room) (Statement room))

/-! ## Programs -/

/-- In a function, behind the word that opens it. -/
inductive Declaration (room : Nat) : Stuck Nesting
  | name {tokens : List Token} :
      Avoids [.identifier] tokens →
      Declaration room (.expected .functionName) .outside tokens tokens
  | paren {name : Token} {tokens : List Token} :
      name.kind = .identifier → Avoids [.leftParen] tokens →
      Declaration room (.expected .parametersOpen) .outside (name :: tokens) tokens
  | parameter {name paren : Token} {fault : ParseFault} {n : Nat} {tokens rest : List Token} :
      name.kind = .identifier → paren.kind = .leftParen →
      Enclosed (OfKind .identifier) (Lacks .identifier .parameterName 0) .parametersClose fault n
        tokens rest →
      Declaration room fault .outside (name :: paren :: tokens) rest
  | body {name paren : Token} {params : List Token} {fault : ParseFault} {d : Nesting}
      {tokens later rest : List Token} :
      name.kind = .identifier → paren.kind = .leftParen →
      Grammar.Enclosed .greedy (OfKind .identifier) params tokens later →
      Block room fault d later rest →
      Declaration room fault d (name :: paren :: tokens) rest

/-- In one of the statements and functions of a program. -/
inductive Items (room : Nat) : Stuck Nesting
  | statement {t : Token} {fault : ParseFault} {d : Nesting} {tokens rest : List Token} :
      t.kind ∉ [.semicolon, .fnWord] → Statement room fault d (t :: tokens) rest →
      Items room fault d (t :: tokens) rest
  | function {word : Token} {fault : ParseFault} {d : Nesting} {tokens rest : List Token} :
      word.kind = .fnWord → Declaration room fault d tokens rest →
      Items room fault d (word :: tokens) rest
  | skip {sep : Token} {fault : ParseFault} {d : Nesting} {tokens rest : List Token} :
      sep.kind = .semicolon → Items room fault d tokens rest →
      Items room fault d (sep :: tokens) rest
  | laterStatement {s : Stmt} {fault : ParseFault} {d : Nesting} {tokens later rest : List Token} :
      Avoids [.semicolon, .fnWord] tokens → Grammar.Statement .greedy room s tokens later →
      Items room fault d later rest → Items room fault d tokens rest
  | laterFunction {word : Token} {f : Stmt} {fault : ParseFault} {d : Nesting}
      {tokens later rest : List Token} :
      word.kind = .fnWord → Grammar.Declaration .greedy room word.pos f tokens later →
      Items room fault d later rest → Items room fault d (word :: tokens) rest

end Stuck
end Grammar
end Octet
