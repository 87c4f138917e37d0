/-!
# Positions in a text

Diagnostics name a place in the source by its line and its column, both counted
from one.  A column counts code points, so a character outside the basic plane is
one column wide, and only a line feed starts a new line: a carriage return is a
character like any other.

`Pos.after` is the position reached by reading a stretch of text.  It is a fold,
so reading two stretches one after the other is reading their concatenation
(`Pos.after_append`), which is all that the scanner needs to know about it.
-/

namespace Octet

/-- A place in a text: line and column, both counted from one. -/
structure Pos where
  line : Nat
  col : Nat
  deriving DecidableEq, Repr, Inhabited

namespace Pos

/-- The position of the first character of a text. -/
def start : Pos := ⟨1, 1⟩

/-- The position behind one character. -/
def step (p : Pos) (c : Char) : Pos :=
  if c = '\n' then ⟨p.line + 1, 1⟩ else ⟨p.line, p.col + 1⟩

/-- The position behind a stretch of text. -/
def after (p : Pos) (text : List Char) : Pos :=
  text.foldl step p

@[simp] theorem after_nil (p : Pos) : p.after [] = p := rfl

@[simp] theorem after_cons (p : Pos) (c : Char) (text : List Char) :
    p.after (c :: text) = (p.step c).after text := rfl

/-- Reading a concatenation is reading its two parts one after the other. -/
theorem after_append (p : Pos) (s t : List Char) :
    p.after (s ++ t) = (p.after s).after t := by
  simp [after, List.foldl_append]

end Pos

end Octet
