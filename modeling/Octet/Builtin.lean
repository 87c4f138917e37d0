/-!
# Built-in operations

A program prints by calling a built-in by its name.  In the byte stream a
built-in is a number, and each takes a fixed number of arguments from the stack.
-/

namespace Octet

/-- The built-in operations. -/
inductive Builtin where
  /-- Print an integer. -/
  | printInt
  /-- Print the stack and the registers. -/
  | debug
  /-- Print a text. -/
  | printStr
  /-- Print a truth value. -/
  | printBool
  deriving DecidableEq, Repr

namespace Builtin

/-- Every built-in, in the order of their names. -/
def all : List Builtin :=
  [debug, printBool, printInt, printStr]

/-- The name by which a program calls a built-in. -/
def name : Builtin → String
  | printInt => "print_int"
  | debug => "debug"
  | printStr => "print_str"
  | printBool => "print_bool"

/-- The number of a built-in in the byte stream. -/
def id : Builtin → Nat
  | printInt => 0
  | debug => 1
  | printStr => 2
  | printBool => 3

/-- How many arguments a built-in takes. -/
def arity : Builtin → Nat
  | debug => 0
  | _ => 1

/-- The built-in of a name. -/
def ofName? (s : String) : Option Builtin :=
  all.find? (·.name == s)

/-- The built-in of a number. -/
def ofId? (n : Nat) : Option Builtin :=
  all.find? (·.id == n)

@[simp] theorem ofId?_id (b : Builtin) : ofId? b.id = some b := by
  cases b <;> rfl

end Builtin
end Octet
