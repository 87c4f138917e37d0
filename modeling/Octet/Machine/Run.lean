import Octet.Machine.Step
import Octet.Scalar

/-!
# Runs

A run steps until the machine halts or a budget of steps is used up.  The two are
told apart by the `Outcome`, and a run whose budget is used up can be taken up
where it stopped: that is how a run without any budget is carried out, one
stretch after the other.

The result of a halted machine is the value that it returned, a text being given
by its characters.
-/

namespace Octet

/-- How a run ends that does not fail. -/
inductive Outcome where
  /-- The budget is used up and the machine has not halted. -/
  | exhausted
  /-- The machine has halted, with this result. -/
  | finished (value : Option Scalar)
  deriving DecidableEq, Repr

/-- The result of a run, if there is one. -/
def Outcome.value : Outcome → Option Scalar
  | exhausted => none
  | finished v => v

namespace Machine

/-- The result of a halted machine. -/
def resultValue : Effect (Option Scalar) := do
  match (← get).result with
  | none => return none
  | some (.i32 n) => return some (.int n)
  | some (.bool b) => return some (.bool b)
  | some (.str i) => return some (.text (← Effect.constant i))

/-- Run for at most this many steps. -/
def runFor (builtins : BuiltinTable) : Nat → Effect Outcome
  | 0 => do
    if (← get).halted then return .finished (← resultValue)
    else return .exhausted
  | n + 1 => do
    if (← get).halted then return .finished (← resultValue)
    else
      let _ ← step builtins
      runFor builtins n

/-- Run for at most this many steps; a negative budget is none at all. -/
def run (builtins : BuiltinTable) (budget : Int) : Effect Outcome :=
  runFor builtins budget.toNat

end Machine
end Octet
