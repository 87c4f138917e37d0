import Octet.Tree

/-!
# Equality of trees up to position

Two trees are the same when they differ at most in the positions of their nodes.
Literals are compared by value, so that `1`, `1.0` and `true` are the same
literal; nodes of different kinds are never the same.
-/

namespace Octet

mutual

/-- Whether two expressions differ at most in positions. -/
def Expr.same : Expr → Expr → Bool
  | .literal _ v, .literal _ w => Scalar.sameOption v w
  | .identifier _ x, .identifier _ y => x == y
  | .unary _ o a, .unary _ p b => o == p && a.same b
  | .binary _ a o b, .binary _ c p d => a.same c && o == p && b.same d
  | .call _ f as, .call _ g bs => f == g && Expr.sameList as bs
  | .misplaced k, .misplaced l => k == l
  | _, _ => false

/-- Whether two lists of expressions differ at most in positions. -/
def Expr.sameList : List Expr → List Expr → Bool
  | [], [] => true
  | a :: as, b :: bs => a.same b && Expr.sameList as bs
  | _, _ => false

end

/-- Whether two expressions that may be missing differ at most in positions. -/
def Expr.sameOption : Option Expr → Option Expr → Bool
  | some a, some b => a.same b
  | none, none => true
  | _, _ => false

mutual

/-- Whether two statements differ at most in positions. -/
def Stmt.same : Stmt → Stmt → Bool
  | .exprStmt _ a, .exprStmt _ b => a.same b
  | .letDecl _ x a, .letDecl _ y b => x == y && a.same b
  | .assign _ x a, .assign _ y b => x == y && a.same b
  | .returning _ a, .returning _ b => Expr.sameOption a b
  | .breaking _, .breaking _ => true
  | .conditional _ a s c, .conditional _ b t d =>
    a.same b && Stmt.sameList s t && c.same d
  | .loop _ s, .loop _ t => Stmt.sameList s t
  | .fnDecl _ f ps s, .fnDecl _ g qs t => f == g && ps == qs && Stmt.sameList s t
  | .misplaced k, .misplaced l => k == l
  | _, _ => false

/-- Whether two blocks differ at most in positions. -/
def Stmt.sameList : List Stmt → List Stmt → Bool
  | [], [] => true
  | a :: as, b :: bs => a.same b && Stmt.sameList as bs
  | _, _ => false

/-- Whether two chains differ at most in positions. -/
def Chain.same : Chain → Chain → Bool
  | .done, .done => true
  | .otherwise s, .otherwise t => Stmt.sameList s t
  | .elseIf a s c, .elseIf b t d => a.same b && Stmt.sameList s t && c.same d
  | _, _ => false

end

/-- Whether two programs differ at most in positions. -/
def Program.same (p q : Program) : Bool :=
  Stmt.sameList p.items q.items

end Octet
