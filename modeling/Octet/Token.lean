import Octet.Scalar
import Octet.Text.Position

/-!
# Tokens

A token is the smallest unit of a program: its kind, the text it was spelled
with, where that text starts, and, for numbers and texts, the value it stands
for.  The last token of a program is its end, which is spelled with no text at
all.

Keywords are the words of `keywords`; every other word is an identifier.  Six of
them start a statement of their own (`TokenKind.startsStatement`), which is what
tells a bare `return` from one that returns a value.
-/

namespace Octet

/-- The kinds of tokens. -/
inductive TokenKind where
  | leftParen | rightParen | leftBrace | rightBrace
  | comma | dot | minus | plus | semicolon | slash | star | percent | colon | equal
  | bang | bangEqual | equalEqual | greater | greaterEqual | less | lessEqual | andAnd | orOr
  | identifier | string | number
  | fnWord | letWord | loopWord | ifWord | elseWord | returnWord | breakWord | trueWord | falseWord
  | eof
  deriving DecidableEq, Repr, Inhabited

namespace TokenKind

/-- Every kind, in the order in which tables list them. -/
def all : List TokenKind :=
  [leftParen, rightParen, leftBrace, rightBrace,
    comma, dot, minus, plus, semicolon, slash, star, percent, colon, equal,
    bang, bangEqual, equalEqual, greater, greaterEqual, less, lessEqual, andAnd, orOr,
    identifier, string, number,
    fnWord, letWord, loopWord, ifWord, elseWord, returnWord, breakWord, trueWord, falseWord,
    eof]

/-- The name under which a kind is displayed. -/
def name : TokenKind → String
  | leftParen => "LEFT_PAREN"
  | rightParen => "RIGHT_PAREN"
  | leftBrace => "LEFT_BRACE"
  | rightBrace => "RIGHT_BRACE"
  | comma => "COMMA"
  | dot => "DOT"
  | minus => "MINUS"
  | plus => "PLUS"
  | semicolon => "SEMICOLON"
  | slash => "SLASH"
  | star => "STAR"
  | percent => "PERCENT"
  | colon => "COLON"
  | equal => "EQUAL"
  | bang => "BANG"
  | bangEqual => "BANG_EQUAL"
  | equalEqual => "EQUAL_EQUAL"
  | greater => "GREATER"
  | greaterEqual => "GREATER_EQUAL"
  | less => "LESS"
  | lessEqual => "LESS_EQUAL"
  | andAnd => "AND_AND"
  | orOr => "OR_OR"
  | identifier => "IDENTIFIER"
  | string => "STRING"
  | number => "NUMBER"
  | fnWord => "FN"
  | letWord => "LET"
  | loopWord => "LOOP"
  | ifWord => "IF"
  | elseWord => "ELSE"
  | returnWord => "RETURN"
  | breakWord => "BREAK"
  | trueWord => "TRUE"
  | falseWord => "FALSE"
  | eof => "EOF"

/-- The kind displayed under a name. -/
def ofName? (s : String) : Option TokenKind :=
  all.find? (·.name == s)

/-- Whether a statement of its own starts with this token. -/
def startsStatement : TokenKind → Bool
  | letWord | loopWord | ifWord | returnWord | breakWord | fnWord => true
  | _ => false

end TokenKind

/-- The keywords, in alphabetical order. -/
def keywords : List (String × TokenKind) :=
  [("break", .breakWord), ("else", .elseWord), ("false", .falseWord), ("fn", .fnWord),
    ("if", .ifWord), ("let", .letWord), ("loop", .loopWord), ("return", .returnWord),
    ("true", .trueWord)]

/-- The kind of a word: its keyword, or an identifier. -/
def TokenKind.ofWord (word : String) : TokenKind :=
  (keywords.lookup word).getD .identifier

/-- A token: its kind, its spelling, where it starts and what it stands for. -/
structure Token where
  kind : TokenKind
  lexeme : String
  pos : Pos
  value : Option Scalar := none
  deriving DecidableEq, Repr

namespace Token

/-- The end of a program at a position. -/
def eof (pos : Pos) : Token :=
  ⟨.eof, "", pos, none⟩

/-- The text of a token: kind, spelling, value if it has one, and position. -/
def display (t : Token) : String :=
  let value := t.value.elim "" fun v => " " ++ v.display
  t.kind.name ++ " '" ++ t.lexeme ++ "'" ++ value ++
    " (@" ++ toString t.pos.line ++ ":" ++ toString t.pos.col ++ ")"

/-- How a diagnostic names a token it did not expect. -/
def describe (t : Token) : String :=
  if t.kind = .eof then "end of input" else "'" ++ t.lexeme ++ "'"

end Token
end Octet
