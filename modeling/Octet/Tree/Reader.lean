import Octet.Tree.Grammar
import Octet.Token.Cursor

/-!
# Reading programs from tokens

A `Reader` holds a list of tokens that ends in an end token, and stands in front
of one of them.  `Reader.parse` reads a program up to the next end token, which
need not be the last: an end token in the middle of the list is never passed, so
reading again yields the empty program.

After a fault the reader stands in front of the token that the fault is about,
and may be asked to read on from there.  It also remembers its depth, the number
of openings that were never closed: the one that found no room is not undone, so
each such fault leaves less room for the next attempt.
-/

namespace Octet

/-- A fault of the grammar, and the token it was found at. -/
structure ParseError where
  fault : ParseFault
  found : Token
  deriving DecidableEq, Repr

namespace ParseError

/-- The position of a fault. -/
def pos (e : ParseError) : Pos :=
  e.found.pos

/-- The wording of a fault. -/
def message (e : ParseError) : String :=
  match e.fault with
  | .expected what => what.text ++ " (found " ++ e.found.describe ++ ")"
  | .nestedFunction => "Function declarations are only allowed at the top level"
  | .tooDeep => "Nesting deeper than " ++ toString maxNesting ++ " levels"

end ParseError

/-- A list of tokens being read. -/
structure Reader where
  /-- The tokens in front of the last. -/
  body : List Token
  /-- The last token. -/
  final : Token
  /-- How many tokens were read. -/
  current : Nat := 0
  /-- How many openings were never closed. -/
  depth : Nat := 0
  deriving DecidableEq, Repr

namespace Reader

/-- The position behind the last token of a list. -/
def endOf (tokens : List Token) : Pos :=
  tokens.getLast?.elim Pos.start fun t => ⟨t.pos.line, t.pos.col + t.lexeme.length⟩

/-- A reader in front of a list of tokens, which is given an end token behind its
last token if it has none. -/
def ofTokens (tokens : List Token) : Reader :=
  match tokens.getLast? with
  | some t =>
    if t.kind = .eof then ⟨tokens.dropLast, t, 0, 0⟩
    else ⟨tokens, .eof (endOf tokens), 0, 0⟩
  | none => ⟨[], .eof (endOf []), 0, 0⟩

/-- All tokens of a reader. -/
def tokens (r : Reader) : List Token :=
  r.body ++ [r.final]

/-- The tokens up to the next end token. -/
def ahead (r : Reader) : List Token :=
  (r.tokens.drop r.current).takeWhile (·.kind != .eof)

/-- Read a program, or find out why there is none. -/
def parse (r : Reader) : Except ParseError Program × Reader :=
  match Grammar.program (maxNesting - r.depth) r.ahead with
  | .ok items => (.ok ⟨items⟩, { r with current := r.current + r.ahead.length })
  | .error failure =>
    let current := r.current + (r.ahead.length - failure.rest.length)
    let depth := if failure.fault = .tooDeep then r.depth + 1 else r.depth
    (.error ⟨failure.fault, r.tokens.getD current r.final⟩,
      { r with current := current, depth := depth })

end Reader

/-- The program that a list of tokens spells. -/
def Program.ofTokens (tokens : List Token) : Except ParseError Program :=
  (Reader.ofTokens tokens).parse.1

end Octet
