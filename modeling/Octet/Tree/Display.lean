import Octet.Tree

/-!
# The text of a tree

A tree is displayed as its nodes, each by its name and its parts in a fixed
order, without positions: `Binary(left=…, op='+', right=…)`.  Lists stand between
brackets, names and operators between quotes, and a missing part is `None`.
-/

namespace Octet
namespace Display

/-- A node with its parts, each under its name. -/
def node (kind : String) (parts : List (String × String)) : String :=
  kind ++ "(" ++ String.intercalate ", " (parts.map fun p => p.1 ++ "=" ++ p.2) ++ ")"

/-- A list of displayed parts. -/
def list (parts : List String) : String :=
  "[" ++ String.intercalate ", " parts ++ "]"

/-- A block of displayed statements. -/
def block (statements : List String) : String :=
  node NodeKind.block.name [("statements", list statements)]

end Display

open Display

mutual

/-- The text of an expression. -/
def Expr.display : Expr → String
  | .literal _ v => node NodeKind.literal.name [("value", Scalar.displayOption v)]
  | .identifier _ x => node NodeKind.identifier.name [("name", Text.quoted x)]
  | .unary _ o a => node NodeKind.unary.name [("op", Text.quoted o), ("operand", a.display)]
  | .binary _ a o b =>
    node NodeKind.binary.name [("left", a.display), ("op", Text.quoted o), ("right", b.display)]
  | .call _ f as =>
    node NodeKind.call.name [("name", Text.quoted f), ("args", list (Expr.displayList as))]
  | .misplaced k => node k.name []

/-- The texts of several expressions. -/
def Expr.displayList : List Expr → List String
  | [] => []
  | a :: as => a.display :: Expr.displayList as

end

mutual

/-- The text of a statement. -/
def Stmt.display : Stmt → String
  | .exprStmt _ a => node NodeKind.exprStmt.name [("expr", a.display)]
  | .letDecl _ x a =>
    node NodeKind.letDecl.name [("name", Text.quoted x), ("value", a.display)]
  | .assign _ x a => node NodeKind.assign.name [("name", Text.quoted x), ("value", a.display)]
  | .returning _ v => node NodeKind.returning.name [("value", v.elim "None" Expr.display)]
  | .breaking _ => node NodeKind.breaking.name []
  | .conditional _ a s c =>
    node NodeKind.conditional.name [("cond", a.display), ("then_block", block (Stmt.displayList s)),
      ("elifs", list c.displayClauses), ("else_block", c.displayFinal)]
  | .loop _ s => node NodeKind.loop.name [("body", block (Stmt.displayList s))]
  | .fnDecl _ f ps s =>
    node NodeKind.fnDecl.name [("name", Text.quoted f), ("params", list (ps.map Text.quoted)),
      ("body", block (Stmt.displayList s))]
  | .misplaced k => node k.name []

/-- The texts of the statements of a block. -/
def Stmt.displayList : List Stmt → List String
  | [] => []
  | s :: ss => s.display :: Stmt.displayList ss

/-- The texts of the further conditions of a chain. -/
def Chain.displayClauses : Chain → List String
  | .done => []
  | .otherwise _ => []
  | .elseIf a s c =>
    node NodeKind.elseIf.name [("cond", a.display), ("block", block (Stmt.displayList s))] ::
      c.displayClauses

/-- The text of the final block of a chain. -/
def Chain.displayFinal : Chain → String
  | .done => "None"
  | .otherwise s => block (Stmt.displayList s)
  | .elseIf _ _ c => c.displayFinal

end

/-- The text of a program. -/
def Program.display (p : Program) : String :=
  node "Program" [("items", list (Stmt.displayList p.items))]

end Octet
