import Octet.Proofs.Machine.Ensures

/-!
# Work on the stack

Most instructions and all built-ins of the language are put together from the same few effects: they
take operands off the stack, look at them, and push a value, fail or write.  What is true of these
effects and of one effect after another is then true of the instructions, and this file goes through
them once for all such statements (`Effect.StackWork`).

The other instructions look at a register, write one, move the pointer or halt the machine.  They
are few, and what is said of them differs from statement to statement.
-/

namespace Octet

namespace Effect

/-- A property that the effects which work on the stack have, one after the other.  None of them
fails for want of a register. -/
structure StackWork (M : ∀ {α : Type}, Effect α → Prop) : Prop where
  pure : ∀ {α : Type} (x : α), M (Pure.pure x : Effect α)
  bind : ∀ {α β : Type} {a : Effect α} {f : α → Effect β}, M a → (∀ x, M (f x)) → M (a >>= f)
  trap : ∀ {α : Type} {cause : Trap}, (∀ r, cause ≠ .unsetRegister r) →
    M (Effect.trap cause : Effect α)
  state : M (get : Effect State)
  push : ∀ v, M (Effect.push v)
  pop : M Effect.pop
  constant : ∀ i, M (Effect.constant i)

namespace StackWork

variable {M : ∀ {α : Type}, Effect α → Prop} (h : StackWork M)
include h

theorem popInt : M popInt := by
  refine h.bind h.pop fun v => ?_
  cases v with
  | i32 n => exact h.pure n
  | bool | str => exact h.trap (by simp)

theorem popBool : M popBool := by
  refine h.bind h.pop fun v => ?_
  cases v with
  | bool b => exact h.pure b
  | i32 | str => exact h.trap (by simp)

theorem popStr : M popStr := by
  refine h.bind h.pop fun v => ?_
  cases v with
  | str i => exact h.pure i
  | i32 | bool => exact h.trap (by simp)

/-- A built-in of the language works on the stack and writes. -/
theorem builtin (hwrite : ∀ text, M (write text)) (b : Builtin) : M b.perform := by
  cases b with
  | printInt => exact h.bind h.popInt fun _ => hwrite _
  | printBool => exact h.bind h.popBool fun _ => hwrite _
  | printStr => exact h.bind h.popStr fun i => h.bind (h.constant i) fun _ => hwrite _
  | debug => exact h.bind h.state fun _ => hwrite _

end StackWork

end Effect

namespace Machine

open Effect

/-- An instruction that neither looks at a register nor writes one, jumps or halts. -/
def Plain : Instr → Prop
  | .loadRegister _ | .storeRegister _ | .jump _ | .jumpIfFalse _ | .ret => False
  | _ => True

/-- A plain instruction works on the stack, unless it calls a built-in, which may do anything. -/
theorem execute_plain {M : ∀ {α : Type}, Effect α → Prop} (h : StackWork M)
    {builtins : BuiltinTable} {i : Instr} (hplain : Plain i)
    (hcall : ∀ id, M (execute builtins (.callBuiltin id))) : M (execute builtins i) := by
  cases i with
  | pushInt n => exact h.push _
  | pushBool b => exact h.push _
  | loadConstant k => exact h.bind (h.constant _) fun _ => h.push _
  | arith op =>
    refine h.bind h.popInt fun b => h.bind h.popInt fun a => ?_
    cases op.eval? a b with
    | some n => exact h.push _
    | none => exact h.trap (by simp)
  | neg => exact h.bind h.popInt fun a => h.push _
  | order op => exact h.bind h.popInt fun b => h.bind h.popInt fun a => h.push _
  | equality negated =>
    refine h.bind h.pop fun b => h.bind h.pop fun a => ?_
    by_cases htag : a.tag = b.tag
    · rw [if_pos htag]
      exact h.push _
    · rw [if_neg htag]
      exact h.trap (by simp)
  | not =>
    refine h.bind h.pop fun v => ?_
    cases v with
    | bool | i32 => exact h.push _
    | str => exact h.trap (by simp)
  | logic op =>
    refine h.bind h.pop fun b => h.bind h.pop fun a => ?_
    -- the two types decide what happens
    cases a with
    | bool x =>
      cases b with
      | bool y => exact h.push _
      | i32 | str => exact h.trap (by simp)
    | i32 x =>
      cases b with
      | i32 y => exact h.push _
      | bool | str => exact h.trap (by simp)
    | str => exact h.trap (by simp)
  | callBuiltin id => exact hcall id
  | loadRegister | storeRegister | jump | jumpIfFalse | ret => exact hplain.elim

end Machine
end Octet
