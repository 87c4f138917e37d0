import Octet.Token

/-!
# Grammar rules

A *rule* reads something off the front of a list of tokens.  It either fails, or
yields what it read together with the tokens it left over, and these are fewer
than it was given: `Parsed α n` carries the proof that fewer than `n` tokens are
left.  Every repetition in the grammar ends because of this proof, and no rule
needs a bound on how long it may run.

The list that a rule is given holds no end token; where the list ends, the
program ends.

A failure says what was wrong and which tokens were left at that point.  The
first of them is the token that the diagnostic is about.
-/

namespace Octet

/-- What the grammar asks for. -/
inductive Expectation where
  | functionName | parametersOpen | parameterName | parametersClose
  | blockOpen | blockClose
  | variableName | bindingEqual
  | argumentsClose | groupClose | expression
  deriving DecidableEq, Repr

/-- How a diagnostic words what was asked for. -/
def Expectation.text : Expectation → String
  | functionName => "Expected function name after 'fn'"
  | parametersOpen => "Expected '(' after function name"
  | parameterName => "Expected parameter name"
  | parametersClose => "Expected ')' after parameters"
  | blockOpen => "Expected '\x7b' to start block"
  | blockClose => "Expected '\x7d' after block"
  | variableName => "Expected variable name after 'let'"
  | bindingEqual => "Expected '=' after variable name"
  | argumentsClose => "Expected ')' after arguments"
  | groupClose => "Expected ')' after expression"
  | expression => "Expected expression"

/-- Why tokens are no program. -/
inductive ParseFault where
  /-- Something else stands where this was asked for. -/
  | expected (what : Expectation)
  /-- A function is declared inside a block. -/
  | nestedFunction
  /-- Blocks, groups and operators are nested too deeply. -/
  | tooDeep
  deriving DecidableEq, Repr

/-- The greatest number of blocks, expressions and prefixed operators that may be
open at a time. -/
def maxNesting : Nat := 48

namespace Grammar

/-- A fault, and the tokens that were left when it was found. -/
structure Failure where
  fault : ParseFault
  rest : List Token
  deriving DecidableEq, Repr

/-- Taking one token leaves fewer. -/
theorem length_lt_cons (t : Token) (rest : List Token) : rest.length < (t :: rest).length :=
  Nat.lt_succ_self _

/-- Something read, and the tokens left over: fewer than `bound`. -/
structure Parsed (α : Type) (bound : Nat) where
  value : α
  rest : List Token
  lt : rest.length < bound

namespace Parsed

/-- The same result against a greater bound. -/
def weaken {α : Type} {m n : Nat} (p : Parsed α m) (h : m ≤ n) : Parsed α n :=
  ⟨p.value, p.rest, Nat.lt_of_lt_of_le p.lt h⟩

@[simp] theorem value_weaken {α : Type} {m n : Nat} (p : Parsed α m) (h : m ≤ n) :
    (p.weaken h).value = p.value := rfl

@[simp] theorem rest_weaken {α : Type} {m n : Nat} (p : Parsed α m) (h : m ≤ n) :
    (p.weaken h).rest = p.rest := rfl

/-- The same tokens read as something else. -/
def map {α β : Type} {n : Nat} (f : α → β) (p : Parsed α n) : Parsed β n :=
  ⟨f p.value, p.rest, p.lt⟩

end Parsed

/-- A rule takes at least one token. -/
abbrev Rule (α : Type) : Type :=
  (tokens : List Token) → Except Failure (Parsed α tokens.length)

/-- A continuation may take none. -/
abbrev Continuation (α : Type) : Type :=
  (tokens : List Token) → Except Failure (Parsed α (tokens.length + 1))

/-- A token of a kind. -/
def expect (kind : TokenKind) (what : Expectation) : Rule Token
  | t :: rest =>
    if t.kind = kind then .ok ⟨t, rest, length_lt_cons t rest⟩
    else .error ⟨.expected what, t :: rest⟩
  | [] => .error ⟨.expected what, []⟩

/-- The rule in place of one that would nest too deeply. -/
def tooDeep {α : Type} : Rule α := fun tokens =>
  .error ⟨.tooDeep, tokens⟩

/-- One or more items with commas between them. -/
def separated {α : Type} (item : Rule α) (tokens : List Token) :
    Except Failure (Parsed (List α) tokens.length) := do
  let first ← item tokens
  match h : first.rest with
  | t :: rest =>
    have hlt : rest.length < tokens.length :=
      Nat.lt_of_succ_lt (by simpa [h] using first.lt)
    if t.kind = .comma then do
      let later ← separated item rest
      return ⟨first.value :: later.value, later.rest, Nat.lt_trans later.lt hlt⟩
    else return first.map ([·])
  | [] => return first.map ([·])
termination_by tokens.length
decreasing_by exact hlt

/-- Items with commas between them up to a closing parenthesis, which may come at
once. -/
def enclosed {α : Type} (item : Rule α) (close : Expectation) : Rule (List α) := fun tokens =>
  match tokens with
  | t :: rest =>
    if t.kind = .rightParen then .ok ⟨[], rest, length_lt_cons t rest⟩
    else go (t :: rest)
  | [] => go []
where
  /-- At least one item, and the parenthesis. -/
  go (tokens : List Token) : Except Failure (Parsed (List α) tokens.length) := do
    let items ← separated item tokens
    let paren ← expect .rightParen close items.rest
    return ⟨items.value, paren.rest, Nat.lt_trans paren.lt items.lt⟩

end Grammar
end Octet
