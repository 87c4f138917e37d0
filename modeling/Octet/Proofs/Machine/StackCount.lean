import Octet.Proofs.Machine.Heights
import Octet.Proofs.Machine.StackWork

/-!
# How many values an instruction takes and puts

An instruction says how many operands it takes off the stack and whether it puts a value there
(`Instr.pops`, `Instr.pushes`).  The effects that it is made of have such numbers too, and they add
up: an instruction first takes all that it takes, and puts a value at the very end.  This file goes
through the instructions once for everything that is said about effects by their numbers
(`Effect.CountedWork`).  A `ret` takes what it finds, and stands apart.

If the operands are there, the numbers tell the exact height of the stack.  A bound needs no
operands to be there, and no success: the stack behind an instruction is no higher than it is said
to be, even if the instruction fails half-way (`execute_stack_le`).  This is so because an effect
that may still fail has no more values to take than to put.
-/

namespace Octet

open Code

/-- The stack is too high or too low. -/
def Trap.OfHeight : Trap → Prop
  | .overflow _ | .underflow => True
  | _ => False

namespace Effect

/-- A property that effects have with the number of values that they take off the stack and the
number of those that they put there. -/
structure CountedWork (M : ∀ {α : Type}, Nat → Nat → Effect α → Prop) : Prop where
  pure : ∀ {α : Type} (x : α), M 0 0 (Pure.pure x : Effect α)
  bind : ∀ {α β : Type} {m n k : Nat} {a : Effect α} {f : α → Effect β}, n ≤ k → M m 0 a →
    (∀ x, M n k (f x)) → M (m + n) k (a >>= f)
  trap : ∀ {α : Type} {n k : Nat} {cause : Trap}, n ≤ k → ¬ cause.OfHeight →
    M n k (Effect.trap cause : Effect α)
  state : M 0 0 (get : Effect State)
  modify : ∀ {f : State → State}, (∀ s, (f s).stack = s.stack ∧ (f s).ip = s.ip) →
    M 0 0 (modify f : Effect Unit)
  push : ∀ v, M 0 1 (Effect.push v)
  pop : M 1 0 Effect.pop
  constant : ∀ i, M 0 0 (Effect.constant i)
  load : ∀ r, M 0 0 (Effect.load r)

namespace CountedWork

variable {M : ∀ {α : Type}, Nat → Nat → Effect α → Prop} (h : CountedWork M)
include h

theorem write (text : String) : M 0 0 (write text) :=
  h.modify fun _ => ⟨rfl, rfl⟩

theorem popInt : M 1 0 popInt := by
  refine h.bind (n := 0) (Nat.le_refl 0) h.pop fun v => ?_
  cases v with
  | i32 n => exact h.pure n
  | bool | str => exact h.trap (Nat.le_refl 0) not_false

theorem popBool : M 1 0 popBool := by
  refine h.bind (n := 0) (Nat.le_refl 0) h.pop fun v => ?_
  cases v with
  | bool b => exact h.pure b
  | i32 | str => exact h.trap (Nat.le_refl 0) not_false

theorem popStr : M 1 0 popStr := by
  refine h.bind (n := 0) (Nat.le_refl 0) h.pop fun v => ?_
  cases v with
  | str i => exact h.pure i
  | i32 | bool => exact h.trap (Nat.le_refl 0) not_false

/-- A built-in takes its arguments and puts nothing. -/
theorem builtin (b : Builtin) : M b.arity 0 b.perform := by
  cases b with
  | printInt => exact h.bind (n := 0) (Nat.le_refl 0) h.popInt fun _ => h.write _
  | printBool => exact h.bind (n := 0) (Nat.le_refl 0) h.popBool fun _ => h.write _
  | printStr =>
    refine h.bind (n := 0) (Nat.le_refl 0) h.popStr fun i => ?_
    exact h.bind (Nat.le_refl 0) (h.constant i) fun _ => h.write _
  | debug => exact h.bind (n := 0) (Nat.le_refl 0) h.state fun _ => h.write _

end CountedWork

end Effect

namespace Machine

open Effect

/-- **An instruction other than `ret` takes its operands and puts its value.**  What is said of
jumps may depend on where they lead. -/
theorem execute_counted {M : ∀ {α : Type}, Nat → Nat → Effect α → Prop} (h : CountedWork M)
    {i : Instr} (hret : i ≠ .ret) (hjump : ∀ t, i.target? = some t → M 0 0 (jump t)) :
    M i.pops i.pushes.toNat (execute BuiltinTable.standard i) := by
  cases i with
  | pushInt n => exact h.push _
  | pushBool b => exact h.push _
  | loadConstant k => exact h.bind (n := 0) (Nat.zero_le 1) (h.constant _) fun _ => h.push _
  | loadRegister r => exact h.bind (n := 0) (Nat.zero_le 1) (h.load r) fun v => h.push v
  | storeRegister r =>
    exact h.bind (n := 0) (Nat.le_refl 0) h.pop fun v => h.modify fun _ => ⟨rfl, rfl⟩
  | arith op =>
    refine h.bind (n := 1) (Nat.le_refl 1) h.popInt fun b => ?_
    refine h.bind (n := 0) (Nat.zero_le 1) h.popInt fun a => ?_
    cases op.eval? a b with
    | some n => exact h.push _
    | none => exact h.trap (Nat.zero_le 1) not_false
  | neg => exact h.bind (n := 0) (Nat.zero_le 1) h.popInt fun a => h.push _
  | order op =>
    refine h.bind (n := 1) (Nat.le_refl 1) h.popInt fun b => ?_
    exact h.bind (n := 0) (Nat.zero_le 1) h.popInt fun a => h.push _
  | equality negated =>
    refine h.bind (n := 1) (Nat.le_refl 1) h.pop fun b => ?_
    refine h.bind (n := 0) (Nat.zero_le 1) h.pop fun a => ?_
    by_cases htag : a.tag = b.tag
    · rw [if_pos htag]
      exact h.push _
    · rw [if_neg htag]
      exact h.trap (Nat.zero_le 1) not_false
  | not =>
    refine h.bind (n := 0) (Nat.zero_le 1) h.pop fun v => ?_
    cases v with
    | bool | i32 => exact h.push _
    | str => exact h.trap (Nat.zero_le 1) not_false
  | logic op =>
    refine h.bind (n := 1) (Nat.le_refl 1) h.pop fun b => ?_
    refine h.bind (n := 0) (Nat.zero_le 1) h.pop fun a => ?_
    -- the two types decide what happens
    cases a with
    | bool x =>
      cases b with
      | bool y => exact h.push _
      | i32 | str => exact h.trap (Nat.zero_le 1) not_false
    | i32 x =>
      cases b with
      | i32 y => exact h.push _
      | bool | str => exact h.trap (Nat.zero_le 1) not_false
    | str => exact h.trap (Nat.zero_le 1) not_false
  | jumpIfFalse target =>
    refine h.bind (n := 0) (Nat.le_refl 0) h.popBool fun b => ?_
    cases b with
    | true => exact h.pure ()
    | false => exact hjump target.toNat rfl
  | jump target => exact hjump target.toNat rfl
  | callBuiltin id =>
    rw [execute, BuiltinTable.standard, Instr.pops]
    cases Builtin.ofId? id.toNat with
    | some b => exact h.builtin b
    | none => exact h.trap (Nat.le_refl 0) not_false
  | ret => exact absurd rfl hret

end Machine

/-! ## A bound on the height -/

namespace Effect

variable {setup : Setup} {α β : Type} {m n k : Nat}

/-- Whether the effect succeeds or fails, the stack is no higher afterwards than if all that it
takes was there and all that it puts is there. -/
def Bounds (setup : Setup) (pops pushes : Nat) (a : Effect α) : Prop :=
  ∀ s, Ensures setup (s = ·) a
    (fun _ s' => s'.stack.length ≤ s.stack.length - pops + pushes)
    fun _ s' => s'.stack.length ≤ s.stack.length - pops + pushes

/-- An effect that does not touch the stack. -/
theorem bounds_of_eq {a : Effect α} (hle : n ≤ k)
    (h : ∀ s, (a.perform setup s).2.stack = s.stack) : Bounds setup n k a := by
  rintro s _ rfl
  have hsame := h s
  generalize a.perform setup s = ended at hsame
  rcases ended with ⟨e | x, s'⟩ <;>
  · dsimp only at hsame ⊢
    rw [hsame]
    omega

theorem Bounds.bind {a : Effect α} {f : α → Effect β} (hle : n ≤ k) (ha : Bounds setup m 0 a)
    (hf : ∀ x, Bounds setup n k (f x)) : Bounds setup (m + n) k (a >>= f) := by
  intro s
  refine Ensures.bind ((ha s).mono (fun _ h => h) (fun _ _ h => h) fun _ _ h => ?_)
    fun x s₁ hs₁ => ?_
  · -- what the second effect would have taken and put is no loss
    omega
  · have hadd : s₁.stack.length - n + k ≤ s.stack.length - (m + n) + k := by omega
    exact (hf x s₁).mono (fun _ h => h) (fun _ _ h => Nat.le_trans h hadd)
      (fun _ _ h => Nat.le_trans h hadd) s₁ rfl

theorem bounds_push (v : Value) : Bounds setup 0 1 (push v) := by
  rintro s _ rfl
  by_cases hfull : setup.maxStack ≤ s.stack.length
  · rw [perform_push_of_full hfull]
    exact Nat.le_succ _
  · rw [perform_push_of_room hfull]
    exact Nat.le_refl _

theorem bounds_pop : Bounds setup 1 0 pop := by
  rintro s _ rfl
  rw [perform_pop]
  cases hstack : s.stack with
  | nil =>
    show s.stack.length ≤ _
    rw [hstack]
    exact Nat.zero_le _
  | cons v rest => exact Nat.le_refl _

theorem bounds_jump (target : Nat) : Bounds setup 0 0 (jump target) := by
  refine bounds_of_eq (Nat.le_refl 0) fun s => ?_
  rw [perform_jump]
  split <;> rfl

/-- The bounds of effects add up. -/
theorem bounds_counted (setup : Setup) : CountedWork fun m n a => Bounds setup m n a where
  pure x := bounds_of_eq (Nat.le_refl 0) fun _ => rfl
  bind := Bounds.bind
  trap hle _ := bounds_of_eq hle fun _ => rfl
  state := bounds_of_eq (Nat.le_refl 0) fun _ => rfl
  modify hf := bounds_of_eq (Nat.le_refl 0) fun s => (hf s).1
  push := bounds_push
  pop := bounds_pop
  constant i := by
    refine bounds_of_eq (Nat.le_refl 0) fun s => ?_
    rw [perform_constant]
  load r := by
    refine bounds_of_eq (Nat.le_refl 0) fun s => ?_
    rw [perform_load]

end Effect

namespace Machine

open Effect

/-- **The stack behind an instruction is no higher than the instruction says**, whatever it found
there and whether it succeeds or fails. -/
theorem execute_stack_le (setup : Setup) (i : Instr) (s : State) :
    Ensures setup (s = ·) (execute BuiltinTable.standard i)
      (fun _ s' => s'.stack.length ≤ i.heightAfter s.stack.length)
      fun _ s' => s'.stack.length ≤ i.heightAfter s.stack.length := by
  by_cases hret : i = .ret
  · rintro _ rfl
    subst hret
    exact Nat.le_of_eq List.length_tail
  · rw [Instr.heightAfter_of_ne_ret _ hret]
    exact execute_counted (bounds_counted setup) hret (fun t _ => bounds_jump t) s

end Machine
end Octet
