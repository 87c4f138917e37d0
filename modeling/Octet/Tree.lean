import Octet.Scalar
import Octet.Text.Position

/-!
# Program trees

A program is a list of statements.  Every node carries the position that
diagnostics about it name: the operator of a binary operation, and the first
token of everything else.

## Shape

Operators are kept by their spelling, since the tree is wider than the language:
a tree may be built by hand, and whoever lays it out decides which operators
exist.  For the same reason a tree may hold a *misplaced* node, one that is no
expression where an expression belongs or no statement where a statement belongs.
All that is known of such a node is its kind, and it cannot be laid out.  The
grammar makes no misplaced nodes.

What follows the first block of a conditional is a `Chain`: nothing, a final
block, or a further condition with its own block and chain.  A chain keeps the
difference between `else if` and an `else` block that holds a conditional.

Positions are for diagnostics alone, and `Tree.Same` compares trees without them.
-/

namespace Octet

/-- The kinds of nodes. -/
inductive NodeKind where
  | literal | identifier | unary | binary | call | expr
  | block | exprStmt | letDecl | assign | returning | breaking | elseIf | conditional | loop
  | fnDecl | stmt
  deriving DecidableEq, Repr

namespace NodeKind

/-- Every kind of node. -/
def all : List NodeKind :=
  [literal, identifier, unary, binary, call, expr, block, exprStmt, letDecl, assign, returning,
    breaking, elseIf, conditional, loop, fnDecl, stmt]

/-- The name under which a kind of node is displayed. -/
def name : NodeKind → String
  | literal => "Literal"
  | identifier => "Identifier"
  | unary => "Unary"
  | binary => "Binary"
  | call => "Call"
  | expr => "Expr"
  | block => "Block"
  | exprStmt => "ExprStmt"
  | letDecl => "LetDecl"
  | assign => "Assign"
  | returning => "Return"
  | breaking => "Break"
  | elseIf => "ElseIf"
  | conditional => "If"
  | loop => "Loop"
  | fnDecl => "FnDecl"
  | stmt => "Stmt"

/-- The kind of node displayed under a name. -/
def ofName? (s : String) : Option NodeKind :=
  all.find? (·.name == s)

end NodeKind

/-- An expression. -/
inductive Expr where
  /-- A literal; a hand-made one may have no value. -/
  | literal (pos : Pos) (value : Option Scalar)
  /-- A variable. -/
  | identifier (pos : Pos) (name : String)
  /-- An operator in front of its operand. -/
  | unary (pos : Pos) (op : String) (operand : Expr)
  /-- An operator between its operands. -/
  | binary (pos : Pos) (left : Expr) (op : String) (right : Expr)
  /-- A call by name. -/
  | call (pos : Pos) (name : String) (args : List Expr)
  /-- A node that is no expression. -/
  | misplaced (kind : NodeKind)
  deriving Repr, Inhabited

mutual

/-- A statement. -/
inductive Stmt where
  /-- An expression evaluated for what it leaves behind. -/
  | exprStmt (pos : Pos) (expr : Expr)
  /-- A variable bound to a value. -/
  | letDecl (pos : Pos) (name : String) (value : Expr)
  /-- A bound variable given a new value. -/
  | assign (pos : Pos) (name : String) (value : Expr)
  /-- The end of the program, with or without a result. -/
  | returning (pos : Pos) (value : Option Expr)
  /-- The end of the innermost loop. -/
  | breaking (pos : Pos)
  /-- A condition, the block it guards, and what follows if it fails. -/
  | conditional (pos : Pos) (cond : Expr) (body : List Stmt) (rest : Chain)
  /-- A block repeated until it is left. -/
  | loop (pos : Pos) (body : List Stmt)
  /-- A function declaration. -/
  | fnDecl (pos : Pos) (name : String) (params : List String) (body : List Stmt)
  /-- A node that is no statement. -/
  | misplaced (kind : NodeKind)

/-- What follows the first block of a conditional. -/
inductive Chain where
  /-- Nothing. -/
  | done
  /-- A final block. -/
  | otherwise (body : List Stmt)
  /-- A further condition, its block, and what follows that. -/
  | elseIf (cond : Expr) (body : List Stmt) (rest : Chain)

end

instance : Inhabited Stmt := ⟨.misplaced .stmt⟩

instance : Inhabited Chain := ⟨.done⟩

/-- A program: the statements at its top level, function declarations among
them. -/
structure Program where
  items : List Stmt

namespace Program

/-- The names of the functions that a program declares, in order. -/
def functions (p : Program) : List String :=
  p.items.filterMap fun
    | .fnDecl _ name _ _ => some name
    | _ => none

end Program

namespace Chain

/-- The further conditions of a chain with their blocks. -/
def clauses : Chain → List (Expr × List Stmt)
  | .done => []
  | .otherwise _ => []
  | .elseIf cond body rest => (cond, body) :: rest.clauses

/-- The final block of a chain. -/
def final? : Chain → Option (List Stmt)
  | .done => none
  | .otherwise body => some body
  | .elseIf _ _ rest => rest.final?

/-- The chain with the given conditions and the given final block. -/
def ofClauses (clauses : List (Expr × List Stmt)) (final : Option (List Stmt)) : Chain :=
  clauses.foldr (fun clause rest => .elseIf clause.1 clause.2 rest)
    (final.elim .done .otherwise)

@[simp] theorem clauses_ofClauses (cs : List (Expr × List Stmt)) (f : Option (List Stmt)) :
    (ofClauses cs f).clauses = cs := by
  induction cs with
  | nil => cases f <;> rfl
  | cons c cs ih => exact congrArg (c :: ·) ih

@[simp] theorem final?_ofClauses (cs : List (Expr × List Stmt)) (f : Option (List Stmt)) :
    (ofClauses cs f).final? = f := by
  induction cs with
  | nil => cases f <;> rfl
  | cons c cs ih => exact ih

end Chain
end Octet
