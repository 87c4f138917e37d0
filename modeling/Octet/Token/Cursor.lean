import Octet.Token.Scan

/-!
# Reading tokens from a text

A `Cursor` stands somewhere in a text.  `Cursor.next` moves it over a gap and a
lexeme and puts the position of the lexeme on the token it yields; at the end of
the text it yields the end token and is used up, and a fault uses it up as well.
Cursors are values, so any number of them may read one text independently.

`Cursor.tokens` reads on to the end.  It keeps the tokens in front of a fault,
which a caller that reads token by token has already seen; `tokenize` reads a
whole text and keeps only the fault.
-/

namespace Octet

/-- A text still to be read, and the position of its first character. -/
structure Cursor where
  pos : Pos
  text : List Char
  deriving DecidableEq, Repr

namespace Cursor

/-- A cursor at the beginning of a text. -/
def ofText (source : String) : Cursor :=
  ⟨Pos.start, source.toList⟩

/-- The next token, and the cursor behind it unless the text has ended. -/
def next (c : Cursor) : Except LexError (Token × Option Cursor) :=
  let gap := Scan.splitGap c.text
  let pos := c.pos.after gap.1
  match gap.2 with
  | [] => .ok (.eof pos, none)
  | first :: rest =>
    match Scan.scanLexeme first rest with
    | .error fault => .error ⟨fault, pos⟩
    | .ok (l, rest') =>
      .ok (⟨l.kind, String.ofList l.chars, pos, l.value⟩, some ⟨pos.after l.chars, rest'⟩)

/-- A token leaves less text than there was. -/
theorem length_next {c c' : Cursor} {t : Token} (h : c.next = .ok (t, some c')) :
    c'.text.length < c.text.length := by
  have hgap := Scan.length_splitGap c.text
  simp only [next] at h
  split at h
  · cases h
  · rename_i first rest heq
    split at h
    · cases h
    · rename_i l rest' hscan
      cases h
      have := Scan.length_scanLexeme hscan
      rw [heq] at hgap
      exact Nat.lt_of_lt_of_le this hgap

/-- All tokens from here on, and the fault that stopped them, if one did. -/
def tokens (c : Cursor) : List Token × Option LexError :=
  match h : c.next with
  | .error e => ([], some e)
  | .ok (t, none) => ([t], none)
  | .ok (t, some c') =>
    have := length_next h
    let later := tokens c'
    (t :: later.1, later.2)
termination_by c.text.length
decreasing_by exact this

end Cursor

/-- The tokens of a text, its end included. -/
def tokenize (source : String) : Except LexError (List Token) :=
  match (Cursor.ofText source).tokens with
  | (tokens, none) => .ok tokens
  | (_, some e) => .error e

end Octet
