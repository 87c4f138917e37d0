import Octet.Tree.Grammar

/-!
# The grammar, as relations

A *spelling* relates something to the tokens that spell it: `R a tokens rest` says that `tokens`
start with a spelling of `a`, behind which `rest` is left.  This file states the grammar by one
relation for each rule, without saying how a tree is found.  Every node has the position of its
operator if it is binary, and of its first token otherwise.

The relations are built up like the rules: `OperandOf`, `ChainOf` and `StatementOf` do not recur but
are given the spellings of their parts, and recursion is on the *room*, the number of further blocks,
expressions and prefixed operators that may be opened.  With no room nothing may be opened, so there
is no spelling (`Nowhere`).  Which rule a statement follows is decided by what it starts with, and
the ways in which it may start are the cases of `Front`.

## Styles

The same tree can be spelled in many ways, and the same tokens can be looked at in several.  What
differs is what has to be known of the tokens around a spelling; a `Style` says what that is.

* In the *free* style nothing has to be known, but for what decides whether a `return` has a value.
  This is the grammar of the language.
* In the *terminated* style a semicolon stands behind every statement and every function.
* In the *greedy* style nothing stands behind a spelling that could continue it, and of two rules
  that could apply the first one does.  These are the spellings that the rules find.
-/

namespace Octet
namespace Grammar

/-- Tokens that start with a spelling of something, and what is left behind it. -/
abbrev Spelling (α : Type) : Type := α → List Token → List Token → Prop

/-- Nothing is spelled. -/
def Nowhere {α : Type} : Spelling α := fun _ _ _ => False

/-- None of these kinds is next. -/
def Avoids (kinds : List TokenKind) : List Token → Prop
  | [] => True
  | t :: _ => t.kind ∉ kinds

/-- One of these kinds is next. -/
def Meets (kinds : List TokenKind) : List Token → Prop
  | [] => False
  | t :: _ => t.kind ∈ kinds

@[simp] theorem avoids_nil (kinds : List TokenKind) : Avoids kinds [] := trivial

@[simp] theorem avoids_cons {kinds : List TokenKind} {t : Token} {rest : List Token} :
    Avoids kinds (t :: rest) ↔ t.kind ∉ kinds := Iff.rfl

theorem avoids_append {kinds others : List TokenKind} {tokens : List Token} :
    Avoids (kinds ++ others) tokens ↔ Avoids kinds tokens ∧ Avoids others tokens := by
  cases tokens with
  | nil => simp
  | cons t tokens => simp [not_or]

/-- A token of none of these kinds is not of any one of them. -/
theorem kind_ne {kinds : List TokenKind} {kind : TokenKind} {t : Token} (h : t.kind ∉ kinds)
    (hkind : kind ∈ kinds) : t.kind ≠ kind :=
  fun heq => h (heq ▸ hkind)

@[simp] theorem not_meets_nil (kinds : List TokenKind) : ¬ Meets kinds [] := id

@[simp] theorem meets_cons {kinds : List TokenKind} {t : Token} {rest : List Token} :
    Meets kinds (t :: rest) ↔ t.kind ∈ kinds := Iff.rfl

/-! ## Styles -/

/-- What has to be known of the tokens around a spelling. -/
structure Style where
  /-- What to know of tokens that would be read differently if one of these kinds were next. -/
  avoids : List TokenKind → List Token → Prop
  /-- What stands behind a statement or a function. -/
  behind : List Token → Prop
  /-- What stands behind a `return` without a value. -/
  bare : Token → List Token → Prop
  /-- What stands behind a `return` with a value: the value, and what is behind that. -/
  valued : Token → List Token → Prop

/-- A `return` ends in front of the end, a closing brace, a separator, a word that starts a
statement, and a token on another line. -/
def EndsReturn (word : Token) : List Token → Prop
  | [] => True
  | t :: _ => t.kind = .rightBrace ∨ t.kind = .semicolon ∨ t.kind.startsStatement ∨
      t.pos.line ≠ word.pos.line

namespace Style

/-- The style of the language. -/
def free : Style where
  avoids _ _ := True
  behind _ := True
  bare := EndsReturn
  valued word tokens := ¬ EndsReturn word tokens

/-- The style with a semicolon behind every statement and every function. -/
def terminated : Style where
  avoids _ _ := True
  behind := Meets [.semicolon]
  bare _ _ := True
  valued _ _ := True

/-- The style of what the rules find. -/
def greedy : Style where
  avoids := Avoids
  behind _ := True
  bare word tokens := returnsValue word tokens = false
  valued word tokens := returnsValue word tokens = true

@[simp] theorem greedy_avoids : greedy.avoids = Avoids := rfl

@[simp] theorem terminated_behind : terminated.behind = Meets [.semicolon] := rfl

end Style

/-! ## Parts -/

/-- A token of a kind. -/
inductive OfKind (kind : TokenKind) : Spelling Token
  | intro {t : Token} {rest : List Token} : t.kind = kind → OfKind kind t (t :: rest) rest

section

variable {α : Type} (S : Style) (R : Spelling α)

/-- One or more items with commas between them. -/
inductive Separated : Spelling (List α)
  | one {a : α} {tokens rest : List Token} :
      R a tokens rest → S.avoids [.comma] rest → Separated [a] tokens rest
  | more {a : α} {as : List α} {comma : Token} {tokens later rest : List Token} :
      R a tokens (comma :: later) → comma.kind = .comma → Separated as later rest →
      Separated (a :: as) tokens rest

/-- Items with commas between them, and a closing parenthesis. -/
inductive Enclosed : Spelling (List α)
  | none {paren : Token} {rest : List Token} :
      paren.kind = .rightParen → Enclosed [] (paren :: rest) rest
  | some {as : List α} {paren : Token} {tokens rest : List Token} :
      S.avoids [.rightParen] tokens → Separated S R as tokens (paren :: rest) →
      paren.kind = .rightParen → Enclosed as tokens rest

end

/-! ## Expressions -/

section

variable (S : Style)

/-- Further operands behind a first one, grouped to the left. -/
inductive Joined (ops : List TokenKind) (R : Spelling Expr) : Expr → Spelling Expr
  | done {left : Expr} {rest : List Token} : S.avoids ops rest → Joined ops R left left rest rest
  | more {left right whole : Expr} {op : Token} {tokens later rest : List Token} :
      op.kind ∈ ops → R right tokens later →
      Joined ops R (.binary op.pos left op.lexeme right) whole later rest →
      Joined ops R left whole (op :: tokens) rest

/-- One level of binary operators, all of them grouping to the left. -/
inductive LeftAssoc (ops : List TokenKind) (R : Spelling Expr) : Spelling Expr
  | intro {first whole : Expr} {tokens later rest : List Token} :
      R first tokens later → Joined S ops R first whole later rest →
      LeftAssoc ops R whole tokens rest

/-- All levels of binary operators over their operands. -/
def Operation (R : Spelling Expr) : Spelling Expr :=
  levels.foldr (LeftAssoc S) R

/-- An operand, given the spellings of what a prefixed operator applies to and of an expression
inside parentheses. -/
inductive OperandOf (nested inner : Spelling Expr) : Spelling Expr
  | prefixed {t : Token} {e : Expr} {tokens rest : List Token} :
      t.kind = .bang ∨ t.kind = .minus → nested e tokens rest →
      OperandOf nested inner (.unary t.pos t.lexeme e) (t :: tokens) rest
  | falseWord {t : Token} {rest : List Token} :
      t.kind = .falseWord →
      OperandOf nested inner (.literal t.pos (some (.bool false))) (t :: rest) rest
  | trueWord {t : Token} {rest : List Token} :
      t.kind = .trueWord →
      OperandOf nested inner (.literal t.pos (some (.bool true))) (t :: rest) rest
  | value {t : Token} {rest : List Token} :
      t.kind = .number ∨ t.kind = .string →
      OperandOf nested inner (.literal t.pos t.value) (t :: rest) rest
  | identifier {t : Token} {rest : List Token} :
      t.kind = .identifier → S.avoids [.leftParen] rest →
      OperandOf nested inner (.identifier t.pos t.lexeme) (t :: rest) rest
  | call {t paren : Token} {args : List Expr} {tokens rest : List Token} :
      t.kind = .identifier → paren.kind = .leftParen → Enclosed S inner args tokens rest →
      OperandOf nested inner (.call t.pos t.lexeme args) (t :: paren :: tokens) rest
  | group {paren paren' : Token} {e : Expr} {tokens rest : List Token} :
      paren.kind = .leftParen → inner e tokens (paren' :: rest) → paren'.kind = .rightParen →
      OperandOf nested inner e (paren :: tokens) rest

/-- An operand, with room for this many further openings. -/
def Operand : (room : Nat) → Spelling Expr
  | 0 => OperandOf S Nowhere Nowhere
  | room + 1 => OperandOf S (Operand room) (Operation S (Operand room))

/-- An expression, with room for this many openings. -/
def Expression : (room : Nat) → Spelling Expr
  | 0 => Nowhere
  | room + 1 => Operation S (Operand S room)

/-! ## Statements -/

/-- A brace, and what is spelled behind it. -/
inductive Braced (inside : Spelling (List Stmt)) : Spelling (List Stmt)
  | intro {brace : Token} {body : List Stmt} {tokens rest : List Token} :
      brace.kind = .leftBrace → inside body tokens rest → Braced inside body (brace :: tokens) rest

/-- Statements with any number of semicolons between them, and a closing brace. -/
inductive Statements (R : Spelling Stmt) : Spelling (List Stmt)
  | close {brace : Token} {rest : List Token} :
      brace.kind = .rightBrace → Statements R [] (brace :: rest) rest
  | skip {sep : Token} {ss : List Stmt} {tokens rest : List Token} :
      sep.kind = .semicolon → Statements R ss tokens rest → Statements R ss (sep :: tokens) rest
  | more {s : Stmt} {ss : List Stmt} {tokens later rest : List Token} :
      S.avoids [.semicolon, .rightBrace] tokens → R s tokens later → S.behind later →
      Statements R ss later rest → Statements R (s :: ss) tokens rest

/-- What follows the first block of a conditional. -/
inductive ChainOf (expression : Spelling Expr) (block : Spelling (List Stmt)) : Spelling Chain
  | done {rest : List Token} : S.avoids [.elseWord] rest → ChainOf expression block .done rest rest
  | otherwise {word : Token} {body : List Stmt} {tokens rest : List Token} :
      word.kind = .elseWord → S.avoids [.ifWord] tokens → block body tokens rest →
      ChainOf expression block (.otherwise body) (word :: tokens) rest
  | elseIf {word word' : Token} {cond : Expr} {body : List Stmt} {chain : Chain}
      {tokens later later' rest : List Token} :
      word.kind = .elseWord → word'.kind = .ifWord → expression cond tokens later →
      block body later later' → ChainOf expression block chain later' rest →
      ChainOf expression block (.elseIf cond body chain) (word :: word' :: tokens) rest

/-- The words that start a statement inside a block, and the one that starts a function. -/
def statementWords : List TokenKind :=
  [.letWord, .loopWord, .ifWord, .returnWord, .breakWord, .fnWord]

/-- What a statement starts with.  This decides how it is read: by the word in front, as an
assignment, or else as an expression. -/
inductive Front : Token → List Token → Prop
  | letWord {t : Token} {tokens : List Token} (hkind : t.kind = .letWord) : Front t tokens
  | loopWord {t : Token} {tokens : List Token} (hkind : t.kind = .loopWord) : Front t tokens
  | ifWord {t : Token} {tokens : List Token} (hkind : t.kind = .ifWord) : Front t tokens
  | returnWord {t : Token} {tokens : List Token} (hkind : t.kind = .returnWord) : Front t tokens
  | breakWord {t : Token} {tokens : List Token} (hkind : t.kind = .breakWord) : Front t tokens
  | fnWord {t : Token} {tokens : List Token} (hkind : t.kind = .fnWord) : Front t tokens
  | assignment {t sign : Token} {tokens : List Token} (hkind : t.kind = .identifier)
      (hsign : sign.kind = .equal) : Front t (sign :: tokens)
  | plain {t : Token} {tokens : List Token} (hfront : t.kind ∉ statementWords)
      (hsign : t.kind = .identifier → Avoids [.equal] tokens) : Front t tokens

theorem front (t : Token) (tokens : List Token) : Front t tokens := by
  by_cases hword : t.kind ∈ statementWords
  · simp only [statementWords, List.mem_cons, List.not_mem_nil, or_false] at hword
    rcases hword with hkind | hkind | hkind | hkind | hkind | hkind
    · exact .letWord hkind
    · exact .loopWord hkind
    · exact .ifWord hkind
    · exact .returnWord hkind
    · exact .breakWord hkind
    · exact .fnWord hkind
  · by_cases hsign : t.kind = .identifier → Avoids [.equal] tokens
    · exact .plain hword hsign
    · obtain ⟨hkind, hequal⟩ := Classical.not_imp.1 hsign
      cases tokens with
      | nil => exact absurd trivial hequal
      | cons sign tokens => exact .assignment hkind (by simpa using hequal)

/-- Where no statement of its own starts, and no assignment, the statement is an expression. -/
theorem statementOf_of_plain {expression : Rule Expr} {block : Rule (List Stmt)} {t : Token}
    {tokens : List Token} (hfront : t.kind ∉ statementWords)
    (hsign : t.kind = .identifier → Avoids [.equal] tokens) :
    statementOf expression block (t :: tokens) =
      bareExpression expression t.pos (t :: tokens) := by
  unfold statementOf
  dsimp only
  split
  · exact absurd ‹_› (kind_ne hfront (by decide))
  · exact absurd ‹_› (kind_ne hfront (by decide))
  · exact absurd ‹_› (kind_ne hfront (by decide))
  · exact absurd ‹_› (kind_ne hfront (by decide))
  · exact absurd ‹_› (kind_ne hfront (by decide))
  · exact absurd ‹_› (kind_ne hfront (by decide))
  · rename_i hkind
    cases tokens with
    | nil => rfl
    | cons sign tokens => exact if_neg (kind_ne (hsign hkind) (by decide))
  · rfl

/-- A statement, given the spellings of expressions and blocks. -/
inductive StatementOf (expression : Spelling Expr) (block : Spelling (List Stmt)) : Spelling Stmt
  | binding {word name sign : Token} {value : Expr} {tokens rest : List Token} :
      word.kind = .letWord → name.kind = .identifier → sign.kind = .equal →
      expression value tokens rest →
      StatementOf expression block (.letDecl word.pos name.lexeme value)
        (word :: name :: sign :: tokens) rest
  | loop {word : Token} {body : List Stmt} {tokens rest : List Token} :
      word.kind = .loopWord → block body tokens rest →
      StatementOf expression block (.loop word.pos body) (word :: tokens) rest
  | conditional {word : Token} {cond : Expr} {body : List Stmt} {chain : Chain}
      {tokens later later' rest : List Token} :
      word.kind = .ifWord → expression cond tokens later → block body later later' →
      ChainOf S expression block chain later' rest →
      StatementOf expression block (.conditional word.pos cond body chain) (word :: tokens) rest
  | bare {word : Token} {rest : List Token} :
      word.kind = .returnWord → S.bare word rest →
      StatementOf expression block (.returning word.pos none) (word :: rest) rest
  | valued {word : Token} {value : Expr} {tokens rest : List Token} :
      word.kind = .returnWord → S.valued word tokens → expression value tokens rest →
      StatementOf expression block (.returning word.pos (some value)) (word :: tokens) rest
  | leave {word : Token} {rest : List Token} :
      word.kind = .breakWord →
      StatementOf expression block (.breaking word.pos) (word :: rest) rest
  | assignment {name sign : Token} {value : Expr} {tokens rest : List Token} :
      name.kind = .identifier → sign.kind = .equal → expression value tokens rest →
      StatementOf expression block (.assign name.pos name.lexeme value) (name :: sign :: tokens) rest
  | plain {t : Token} {e : Expr} {tokens rest : List Token} :
      S.avoids statementWords (t :: tokens) →
      (t.kind = .identifier → S.avoids [.equal] tokens) → expression e (t :: tokens) rest →
      StatementOf expression block (.exprStmt t.pos e) (t :: tokens) rest

/-- A statement, with room for this many openings. -/
def Statement : (room : Nat) → Spelling Stmt
  | 0 => StatementOf S (Expression S 0) (Braced Nowhere)
  | room + 1 =>
    StatementOf S (Expression S (room + 1)) (Braced (Statements S (Statement room)))

/-- A block, with room for this many openings. -/
def Block : (room : Nat) → Spelling (List Stmt)
  | 0 => Braced Nowhere
  | room + 1 => Braced (Statements S (Statement S room))

/-! ## Programs -/

/-- A function behind the word that opens it, which has the given position. -/
inductive Declaration (room : Nat) (pos : Pos) : Spelling Stmt
  | intro {name paren : Token} {params : List Token} {body : List Stmt}
      {tokens later rest : List Token} :
      name.kind = .identifier → paren.kind = .leftParen →
      Enclosed S (OfKind .identifier) params tokens later → Block S room body later rest →
      Declaration room pos (.fnDecl pos name.lexeme (params.map Token.lexeme) body)
        (name :: paren :: tokens) rest

/-- The statements and functions of a program, up to the end of the tokens. -/
inductive Items (room : Nat) : List Stmt → List Token → Prop
  | done : Items room [] []
  | skip {sep : Token} {items : List Stmt} {tokens : List Token} :
      sep.kind = .semicolon → Items room items tokens → Items room items (sep :: tokens)
  | statement {s : Stmt} {items : List Stmt} {tokens later : List Token} :
      S.avoids [.semicolon, .fnWord] tokens → Statement S room s tokens later → S.behind later →
      Items room items later → Items room (s :: items) tokens
  | function {word : Token} {f : Stmt} {items : List Stmt} {tokens later : List Token} :
      word.kind = .fnWord → Declaration S room word.pos f tokens later → S.behind later →
      Items room items later → Items room (f :: items) (word :: tokens)

end

end Grammar
end Octet
