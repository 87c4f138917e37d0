import Octet.Number.Word32

/-!
# Machine values

The machine computes with words, truth values and texts.  A text is held by its
number in the image, so that a value never depends on how long the text is.
-/

namespace Octet

/-- The types of values. -/
inductive Tag where
  | i32 | bool | str
  deriving DecidableEq, Repr

/-- The name of a type in diagnostics. -/
def Tag.name : Tag → String
  | i32 => "i32"
  | bool => "bool"
  | str => "str"

/-- A value of the machine. -/
inductive Value where
  /-- A word. -/
  | i32 (n : Int)
  /-- A truth value. -/
  | bool (b : Bool)
  /-- A text by its number. -/
  | str (index : Nat)
  deriving DecidableEq, Repr

namespace Value

/-- The word congruent to an integer. -/
def ofInt (n : Int) : Value :=
  .i32 (Word32.wrap n)

/-- The type of a value. -/
def tag : Value → Tag
  | .i32 _ => .i32
  | .bool _ => .bool
  | .str _ => .str

/-- The text of a value; a text is shown by its number. -/
def display : Value → String
  | .i32 n => toString n
  | .bool b => if b then "true" else "false"
  | .str i => "str#" ++ toString i

/-- Values between brackets. -/
def displayList (values : List Value) : String :=
  "[" ++ String.intercalate ", " (values.map display) ++ "]"

/-- Numbered values between braces. -/
def displayMap (entries : List (Nat × Value)) : String :=
  let entry := fun (p : Nat × Value) => toString p.1 ++ ": " ++ p.2.display
  "\x7b" ++ String.intercalate ", " (entries.map entry) ++ "\x7d"

end Value
end Octet
