import Octet.Tree
import Octet.Tree.Rule

/-!
# The grammar

Programs are read by recursive descent.  Binary operators bind at six levels, all
of them to the left (`levels`, from the loosest to the tightest); an operator in
front of its operand binds tighter than any of them.

## Nesting

Blocks, expressions and prefixed operators nest, and at most `maxNesting` of them
may be open at a time.  Each rule is given the *room* it has left, the number of
further ones that may be opened, and recurs on it: opening one with no room left
is the rule `tooDeep`, which fails in front of the next token.

* A block opens behind its brace, so an empty block without room fails too.
* An expression opens where it starts.  Conditions, values, arguments and groups
  are expressions; the operands of a binary operator are not, being part of the
  expression around them.
* A prefixed operator opens behind the operator.

## Where a bare `return` ends

A `return` has a value when one can start on the same line: the next token is no
closing brace, no separator and no statement of its own, and stands on the line
of the `return`.
-/

namespace Octet
namespace Grammar

/-! ## Expressions -/

/-- The binary operators, from the loosest to the tightest. -/
def levels : List (List TokenKind) :=
  [[.orOr], [.andAnd], [.equalEqual, .bangEqual],
    [.greater, .greaterEqual, .less, .lessEqual], [.plus, .minus], [.star, .slash, .percent]]

/-- Further operands of one level behind a first one, grouped to the left. -/
def joined (ops : List TokenKind) (next : Rule Expr) (left : Expr) (tokens : List Token) :
    Except Failure (Parsed Expr (tokens.length + 1)) :=
  match tokens with
  | op :: rest =>
    if op.kind ∈ ops then do
      let right ← next rest
      have hlt := Nat.lt_succ_of_lt right.lt
      let whole ← joined ops next (.binary op.pos left op.lexeme right.value) right.rest
      return whole.weaken (Nat.le_succ_of_le hlt)
    else .ok ⟨left, op :: rest, Nat.lt_succ_self _⟩
  | [] => .ok ⟨left, [], Nat.lt_succ_self _⟩
termination_by tokens.length
decreasing_by exact hlt

/-- One level of binary operators over the next tighter one. -/
def level (ops : List TokenKind) (next : Rule Expr) : Rule Expr := fun tokens => do
  let first ← next tokens
  let whole ← joined ops next first.value first.rest
  return whole.weaken first.lt

/-- All levels of binary operators over their operands. -/
def operation (operand : Rule Expr) : Rule Expr :=
  levels.foldr level operand

/-- An operand, given how to read what a prefixed operator applies to and how to
read an expression inside parentheses. -/
def operandOf (nested inner : Rule Expr) : Rule Expr
  | [] => .error ⟨.expected .expression, []⟩
  | t :: rest =>
    match t.kind with
    | .bang | .minus => do
      let a ← nested rest
      return ⟨.unary t.pos t.lexeme a.value, a.rest, Nat.lt_succ_of_lt a.lt⟩
    | .falseWord => .ok ⟨.literal t.pos (some (.bool false)), rest, length_lt_cons t rest⟩
    | .trueWord => .ok ⟨.literal t.pos (some (.bool true)), rest, length_lt_cons t rest⟩
    | .number | .string => .ok ⟨.literal t.pos t.value, rest, length_lt_cons t rest⟩
    | .identifier =>
      match rest with
      | paren :: rest' =>
        if paren.kind = .leftParen then do
          let args ← enclosed inner .argumentsClose rest'
          return ⟨.call t.pos t.lexeme args.value, args.rest,
            Nat.lt_succ_of_lt (Nat.lt_succ_of_lt args.lt)⟩
        else .ok ⟨.identifier t.pos t.lexeme, paren :: rest', length_lt_cons t (paren :: rest')⟩
      | [] => .ok ⟨.identifier t.pos t.lexeme, [], length_lt_cons t []⟩
    | .leftParen => do
      let e ← inner rest
      let paren ← expect .rightParen .groupClose e.rest
      return ⟨e.value, paren.rest, Nat.lt_succ_of_lt (Nat.lt_trans paren.lt e.lt)⟩
    | _ => .error ⟨.expected .expression, t :: rest⟩

/-- An operand, with room for this many further openings. -/
def operand : (room : Nat) → Rule Expr
  | 0 => operandOf tooDeep tooDeep
  | room + 1 => operandOf (operand room) (operation (operand room))

/-- An expression, with room for this many openings. -/
def expression : (room : Nat) → Rule Expr
  | 0 => tooDeep
  | room + 1 => operation (operand room)

/-! ## Statements -/

/-- A block: a brace, and what is read behind it. -/
def braced (inside : Rule (List Stmt)) : Rule (List Stmt) := fun tokens => do
  let brace ← expect .leftBrace .blockOpen tokens
  let body ← inside brace.rest
  return body.weaken (Nat.le_of_lt brace.lt)

/-- The statements of a block and its closing brace. -/
def statements (statement : Rule Stmt) (tokens : List Token) :
    Except Failure (Parsed (List Stmt) tokens.length) :=
  match tokens with
  | [] => .error ⟨.expected .blockClose, []⟩
  | t :: rest =>
    if t.kind = .semicolon then do
      let later ← statements statement rest
      return later.weaken (Nat.le_succ _)
    else if t.kind = .rightBrace then .ok ⟨[], rest, length_lt_cons t rest⟩
    else do
      let first ← statement (t :: rest)
      have hlt := first.lt
      let later ← statements statement first.rest
      return ⟨first.value :: later.value, later.rest, Nat.lt_trans later.lt hlt⟩
termination_by tokens.length
decreasing_by
  · exact Nat.lt_succ_self _
  · exact hlt

/-- Whether a `return` is followed by its value. -/
def returnsValue (word : Token) : List Token → Bool
  | [] => false
  | t :: _ =>
    t.kind != .rightBrace && t.kind != .semicolon && !t.kind.startsStatement &&
      t.pos.line == word.pos.line

/-- What follows the first block of a conditional. -/
def chain (expression : Rule Expr) (block : Rule (List Stmt)) (tokens : List Token) :
    Except Failure (Parsed Chain (tokens.length + 1)) :=
  match tokens with
  | word :: rest =>
    if word.kind = .elseWord then
      match rest with
      | next :: rest' =>
        if next.kind = .ifWord then do
          let cond ← expression rest'
          let body ← block cond.rest
          have hlt := Nat.lt_succ_of_lt (Nat.lt_succ_of_lt (Nat.lt_trans body.lt cond.lt))
          let later ← chain expression block body.rest
          return ⟨.elseIf cond.value body.value later.value, later.rest,
            Nat.lt_of_lt_of_le later.lt (Nat.le_succ_of_le hlt)⟩
        else final (next :: rest') (Nat.lt_succ_of_lt (Nat.lt_succ_self _))
      | [] => final [] (Nat.succ_pos _)
    else .ok ⟨.done, word :: rest, Nat.lt_succ_self _⟩
  | [] => .ok ⟨.done, [], Nat.lt_succ_self _⟩
termination_by tokens.length
decreasing_by exact hlt
where
  /-- The final block of a conditional. -/
  final {bound : Nat} (tokens : List Token) (h : tokens.length < bound) :
      Except Failure (Parsed Chain bound) := do
    let body ← block tokens
    return ⟨.otherwise body.value, body.rest, Nat.lt_trans body.lt h⟩

/-- A statement that is an expression. -/
def bareExpression (expression : Rule Expr) (pos : Pos) : Rule Stmt := fun tokens => do
  let e ← expression tokens
  return e.map (.exprStmt pos)

/-- A statement, given how to read its expressions and its blocks. -/
def statementOf (expression : Rule Expr) (block : Rule (List Stmt)) : Rule Stmt
  | [] => .error ⟨.expected .expression, []⟩
  | t :: rest =>
    match t.kind with
    | .letWord => do
      let name ← expect .identifier .variableName rest
      let sign ← expect .equal .bindingEqual name.rest
      let value ← expression sign.rest
      return ⟨.letDecl t.pos name.value.lexeme value.value, value.rest,
        Nat.lt_succ_of_lt (Nat.lt_trans value.lt (Nat.lt_trans sign.lt name.lt))⟩
    | .loopWord => do
      let body ← block rest
      return ⟨.loop t.pos body.value, body.rest, Nat.lt_succ_of_lt body.lt⟩
    | .ifWord => do
      let cond ← expression rest
      let body ← block cond.rest
      let later ← chain expression block body.rest
      return ⟨.conditional t.pos cond.value body.value later.value, later.rest,
        Nat.lt_succ_of_lt (Nat.lt_of_lt_of_le later.lt (Nat.lt_trans body.lt cond.lt))⟩
    | .returnWord =>
      if returnsValue t rest then do
        let value ← expression rest
        return ⟨.returning t.pos (some value.value), value.rest, Nat.lt_succ_of_lt value.lt⟩
      else .ok ⟨.returning t.pos none, rest, length_lt_cons t rest⟩
    | .breakWord => .ok ⟨.breaking t.pos, rest, length_lt_cons t rest⟩
    | .fnWord => .error ⟨.nestedFunction, t :: rest⟩
    | .identifier =>
      match rest with
      | sign :: rest' =>
        if sign.kind = .equal then do
          let value ← expression rest'
          return ⟨.assign t.pos t.lexeme value.value, value.rest,
            Nat.lt_succ_of_lt (Nat.lt_succ_of_lt value.lt)⟩
        else bareExpression expression t.pos (t :: sign :: rest')
      | [] => bareExpression expression t.pos [t]
    | _ => bareExpression expression t.pos (t :: rest)

/-- A statement, with room for this many openings. -/
def statement : (room : Nat) → Rule Stmt
  | 0 => statementOf (expression 0) (braced tooDeep)
  | room + 1 => statementOf (expression (room + 1)) (braced (statements (statement room)))

/-- A block, with room for this many openings. -/
def block : (room : Nat) → Rule (List Stmt)
  | 0 => braced tooDeep
  | room + 1 => braced (statements (statement room))

/-! ## Programs -/

/-- A function declaration behind the word that opens it. -/
def function (room : Nat) (word : Token) : Rule Stmt := fun tokens => do
  let name ← expect .identifier .functionName tokens
  let paren ← expect .leftParen .parametersOpen name.rest
  let params ← enclosed (expect .identifier .parameterName) .parametersClose paren.rest
  let body ← block room params.rest
  return ⟨.fnDecl word.pos name.value.lexeme (params.value.map Token.lexeme) body.value, body.rest,
    Nat.lt_trans body.lt (Nat.lt_trans params.lt (Nat.lt_trans paren.lt name.lt))⟩

/-- The statements and functions of a program, up to its end. -/
def program (room : Nat) (tokens : List Token) : Except Failure (List Stmt) :=
  match tokens with
  | [] => .ok []
  | t :: rest =>
    if t.kind = .semicolon then program room rest
    else if t.kind = .fnWord then do
      let first ← function room t rest
      have := Nat.lt_succ_of_lt first.lt
      let later ← program room first.rest
      return first.value :: later
    else do
      let first ← statement room (t :: rest)
      have := first.lt
      let later ← program room first.rest
      return first.value :: later
termination_by tokens.length
decreasing_by
  · exact Nat.lt_succ_self _
  · exact this
  · exact this

end Grammar
end Octet
