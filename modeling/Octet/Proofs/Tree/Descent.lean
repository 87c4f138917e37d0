import Octet.Tree.Reader

/-!
# Recursive descent, one token at a time

`Reader.parse` yields a program and says where the reader stands afterwards.  This file says how a
reader gets there that looks at one token at a time: it has nothing but its place among the tokens
and its depth, moves on by one token at most (`advance`), and knows no bound for its loops.  It may
look at any place, and only finds out there whether there is a token.

The functions are the ones that read the grammar top down, and each of them may call any other, or
itself, any number of times.  That they come to an end is not part of their definition.  They are
given *fuel*, which bounds how deeply calls are nested, a repetition being a call; and a descent
*ends* in something if it does with any amount of fuel from some amount on (`Descent.Ends`).
Without enough fuel there is no outcome, and neither is there one if the descent looks for a token
behind the last one.  `Descent.parse_ends` proves that neither happens.

## Openings

`nested` opens what stands inside, and closes it again whatever happens there: the depth that a
fault leaves behind is the depth that was there before.  The exception is the opening that found no
room, since it comes first and nothing closes it.
-/

namespace Octet

/-- Something that is read by moving through the tokens. -/
abbrev Descent (α : Type) : Type :=
  ExceptT ParseError (StateT Reader Option) α

namespace Descent

variable {α : Type}

/-- What is read by a reader, and the reader afterwards. -/
def on (d : Descent α) (r : Reader) : Option (Except ParseError α × Reader) :=
  d.run.run r

/-- This is what comes of it with any amount of fuel that is enough, and some amount is. -/
def Ends (d : Nat → Descent α) (r : Reader) (outcome : Except ParseError α × Reader) : Prop :=
  ∃ enough, ∀ fuel ≥ enough, (d fuel).on r = some outcome

/-- There is no fuel left. -/
def exhausted : Descent α :=
  liftM (none : Option α)

/-! ## Tokens -/

/-- The next token. -/
def peek : Descent Token := do
  let r ← get
  r.tokens[r.current]?

/-- The token in front of the next one. -/
def previous : Descent Token := do
  let r ← get
  match r.current with
  | 0 => return r.final
  | n + 1 => r.tokens[n]?

/-- Whether the next token is of a kind. -/
def check (kind : TokenKind) : Descent Bool := do
  return (← peek).kind == kind

/-- Whether there is a token behind the next one, and it is of a kind. -/
def checkNext (kind : TokenKind) : Descent Bool := do
  let r ← get
  return r.tokens[r.current + 1]?.any (·.kind == kind)

/-- Take the next token, unless it is an end token. -/
def advance : Descent Token := do
  unless ← check .eof do
    modify fun r => { r with current := r.current + 1 }
  previous

/-- Take the next token if it is of one of these kinds. -/
def accept (kinds : List TokenKind) : Descent Bool := do
  if (← peek).kind ∈ kinds then
    let _ ← advance
    return true
  else return false

/-- A fault at the next token. -/
def fail (fault : ParseFault) : Descent α := do
  throw ⟨fault, ← peek⟩

/-- Take a token of a kind. -/
def consume (kind : TokenKind) (what : Expectation) : Descent Token := do
  if ← check kind then advance
  else fail (.expected what)

/-- Take all separators that come next. -/
def skipSeparators : Nat → Descent Unit
  | 0 => exhausted
  | fuel + 1 => do
    if ← accept [.semicolon] then skipSeparators fuel

/-! ## Depth -/

/-- Go one level deeper, if there is room. -/
def enter : Descent Unit := do
  modify fun r => { r with depth := r.depth + 1 }
  if maxNesting < (← get).depth then fail .tooDeep

/-- Go back to the level around, whatever came of what stands inside. -/
def closing (inside : Descent α) : Descent α :=
  ExceptT.mk do
    let outcome ← inside.run
    modify fun r => { r with depth := r.depth - 1 }
    return outcome

/-- Read something one level deeper. -/
def nested (inside : Descent α) : Descent α := do
  enter
  closing inside

/-- What stands in parentheses, behind the one that opens them: nothing, or these items. -/
def enclosed (items : Descent (List α)) (close : Expectation) : Descent (List α) := do
  let read ← (do if ← check .rightParen then return [] else items)
  let _ ← consume .rightParen close
  return read

/-! ## Expressions -/

mutual

/-- An expression. -/
def expression : Nat → Descent Expr
  | 0 => exhausted
  | fuel + 1 => nested (operation fuel Grammar.levels)

/-- Operands of these levels, from the loosest to the tightest. -/
def operation : Nat → (levels : List (List TokenKind)) → Descent Expr
  | 0, _ => exhausted
  | fuel + 1, [] => unary fuel
  | fuel + 1, ops :: tighter => do
    let first ← operation fuel tighter
    operands fuel ops tighter first

/-- Further operands of a level behind a first one. -/
def operands : Nat → (ops : List TokenKind) → (tighter : List (List TokenKind)) → (left : Expr) →
    Descent Expr
  | 0, _, _, _ => exhausted
  | fuel + 1, ops, tighter, left => do
    if ← accept ops then
      let op ← previous
      let right ← operation fuel tighter
      operands fuel ops tighter (.binary op.pos left op.lexeme right)
    else return left

/-- An operand, with any number of operators in front of it. -/
def unary : Nat → Descent Expr
  | 0 => exhausted
  | fuel + 1 => do
    if ← accept [.bang, .minus] then
      let op ← previous
      let e ← nested (unary fuel)
      return .unary op.pos op.lexeme e
    else primary fuel

/-- One or more arguments. -/
def arguments : Nat → Descent (List Expr)
  | 0 => exhausted
  | fuel + 1 => do
    let e ← expression fuel
    if ← accept [.comma] then return e :: (← arguments fuel)
    else return [e]

/-- The arguments of a call, behind the parenthesis that opens them. -/
def call : Nat → (name : Token) → Descent Expr
  | 0, _ => exhausted
  | fuel + 1, name => do
    let args ← enclosed (arguments fuel) .argumentsClose
    return .call name.pos name.lexeme args

/-- An operand. -/
def primary : Nat → Descent Expr
  | 0 => exhausted
  | fuel + 1 => do
    let t ← peek
    if ← accept [.falseWord] then return .literal t.pos (some (.bool false))
    else if ← accept [.trueWord] then return .literal t.pos (some (.bool true))
    else if ← accept [.number, .string] then return .literal t.pos t.value
    else if ← accept [.identifier] then
      if ← accept [.leftParen] then call fuel t
      else return .identifier t.pos t.lexeme
    else if ← accept [.leftParen] then
      let e ← expression fuel
      let _ ← consume .rightParen .groupClose
      return e
    else fail (.expected .expression)

end

/-! ## Statements -/

/-- Whether a value follows the word `return`. -/
def startsReturnValue (word : Token) : Descent Bool := do
  let next ← peek
  if next.kind ∈ [.rightBrace, .semicolon, .eof] then return false
  else if next.kind.startsStatement then return false
  else return next.pos.line == word.pos.line

mutual

/-- A block. -/
def block : Nat → Descent (List Stmt)
  | 0 => exhausted
  | fuel + 1 => do
    let _ ← consume .leftBrace .blockOpen
    let body ← nested (statements fuel)
    let _ ← consume .rightBrace .blockClose
    return body

/-- The statements of a block, up to its closing brace or an end token. -/
def statements : Nat → Descent (List Stmt)
  | 0 => exhausted
  | fuel + 1 => do
    skipSeparators fuel
    if ← check .rightBrace then return []
    else if ← check .eof then return []
    else
      let first ← statement fuel
      return first :: (← statements fuel)

/-- A statement. -/
def statement : Nat → Descent Stmt
  | 0 => exhausted
  | fuel + 1 => do
    let t ← peek
    if ← accept [.letWord] then
      let name ← consume .identifier .variableName
      let _ ← consume .equal .bindingEqual
      return .letDecl t.pos name.lexeme (← expression fuel)
    else if ← accept [.loopWord] then return .loop t.pos (← block fuel)
    else if ← accept [.ifWord] then
      let cond ← expression fuel
      let body ← block fuel
      return .conditional t.pos cond body (← chain fuel)
    else if ← accept [.returnWord] then
      if ← startsReturnValue t then return .returning t.pos (some (← expression fuel))
      else return .returning t.pos none
    else if ← accept [.breakWord] then return .breaking t.pos
    else if ← check .fnWord then fail .nestedFunction
    else if (← check .identifier) && (← checkNext .equal) then
      let name ← advance
      let _ ← advance
      return .assign t.pos name.lexeme (← expression fuel)
    else return .exprStmt t.pos (← expression fuel)

/-- What follows the first block of a conditional. -/
def chain : Nat → Descent Chain
  | 0 => exhausted
  | fuel + 1 => do
    if ← accept [.elseWord] then
      if ← accept [.ifWord] then
        let cond ← expression fuel
        let body ← block fuel
        return .elseIf cond body (← chain fuel)
      else return .otherwise (← block fuel)
    else return .done

end

/-! ## Programs -/

/-- One or more parameters. -/
def parameters : Nat → Descent (List Token)
  | 0 => exhausted
  | fuel + 1 => do
    let name ← consume .identifier .parameterName
    if ← accept [.comma] then return name :: (← parameters fuel)
    else return [name]

/-- A function, in front of the word that opens it. -/
def function (fuel : Nat) : Descent Stmt := do
  let word ← advance
  let name ← consume .identifier .functionName
  let _ ← consume .leftParen .parametersOpen
  let params ← enclosed (parameters fuel) .parametersClose
  return .fnDecl word.pos name.lexeme (params.map Token.lexeme) (← block fuel)

/-- The statements and functions of a program, up to an end token. -/
def items : Nat → Descent (List Stmt)
  | 0 => exhausted
  | fuel + 1 => do
    skipSeparators fuel
    if ← check .eof then return []
    else
      let first ← (do if ← check .fnWord then function fuel else statement fuel)
      return first :: (← items fuel)

/-- A program. -/
def parse (fuel : Nat) : Descent Program := do
  return ⟨← items fuel⟩

end Descent
end Octet
