import Octet.Proofs.Machine.Host
import Octet.Proofs.Machine.StackCount

/-!
# The height of the stack during a run

If the instructions in front of the pointer and behind it carry from zero to zero, the machine
keeps to the heights that they are said to lead to.  This is the invariant `State.Levelled`: the
code is cut in two where the pointer is, and the second piece carries from the actual height of the
stack to zero.  For exact heights the first piece carries from zero to it as well.

An instruction that is performed behind the first piece moves to the second one, and a jump cuts
the code in two at another place, which is an opening (`step_levelled`).  So the operands of an
instruction are always there, and the stack cannot be higher than there are instructions left to
empty it.

## A run without failures

A failed instruction has lost its operands and is passed nevertheless, so nothing is said about
what follows.  A state is `Unharmed` if calls lead to it of which none has failed, except that it
was stopped on request.
-/

namespace Octet

open Code Effect

/-- The failure is an instruction's, does not show that the stack is too low, and shows that it is
too high only if it may be. -/
def MachineError.Fits (full : Prop) : MachineError → Prop
  | .stopped | .trap .underflow _ => False
  | .trap (.overflow _) _ => full
  | .trap _ _ => True

theorem MachineError.Fits.mono {full full' : Prop} {e : MachineError} (h : e.Fits full)
    (himp : full → full') : e.Fits full' := by
  cases e with
  | stopped => exact h
  | trap cause a =>
    cases cause with
    | overflow limit => exact himp h
    | underflow => exact h
    | _ => trivial

namespace Machine

variable {setup : Setup} {α β : Type}

/-! ## Instructions -/

/-- With enough values on the stack, an effect takes some of them off and puts others there.  It may
go on at the target. -/
def Shifts (setup : Setup) (target : Option Nat) (pops pushes : Nat) (a : Effect α) : Prop :=
  ∀ s : State, pops ≤ s.stack.length → Ensures setup (s = ·) a
    (fun _ s' => s'.stack.length = s.stack.length - pops + pushes ∧
      (s'.ip = s.ip ∨ target = some s'.ip))
    fun e _ => e.Fits (0 < pushes ∧ setup.maxStack ≤ s.stack.length - pops)

namespace Shifts

variable {target : Option Nat} {m n k : Nat}

/-- Values taken first, and then something done with them. -/
theorem bind {a : Effect α} {f : α → Effect β} (ha : Shifts setup target m 0 a)
    (hf : ∀ x, Shifts setup target n k (f x)) : Shifts setup target (m + n) k (a >>= f) := by
  intro s hs
  have hfirst := ha s (by omega)
  refine Ensures.bind (hfirst.mono (fun _ h => h) (fun _ _ h => h) fun e _ he =>
    he.mono fun hfull => absurd hfull.1 (Nat.lt_irrefl 0)) fun x s₁ hs₁ => ?_
  obtain ⟨hheight, hip⟩ := hs₁
  refine (hf x s₁ (by omega)).mono (fun _ h => h) (fun y s' hs' => ?_) (fun e s' he => ?_) s₁ rfl
  · obtain ⟨hheight', hip'⟩ := hs'
    refine ⟨by omega, hip'.elim (fun hsame => ?_) .inr⟩
    rwa [hsame]
  · exact he.mono fun hfull => ⟨hfull.1, by omega⟩

theorem pure (x : α) : Shifts setup target 0 0 (pure x) := by
  rintro s - _ rfl
  exact ⟨rfl, .inl rfl⟩

/-- A failure that has nothing to do with the height of the stack. -/
theorem trap {cause : Trap} (h : ¬ cause.OfHeight) :
    Shifts setup target n k (trap cause : Effect α) := by
  rintro s - _ rfl
  cases cause with
  | overflow | underflow => exact absurd trivial h
  | _ => exact trivial

/-- A change that does not affect the stack. -/
theorem modify {f : State → State} (h : ∀ s, (f s).stack = s.stack ∧ (f s).ip = s.ip) :
    Shifts setup target 0 0 (modify f) := by
  rintro s - _ rfl
  exact ⟨congrArg List.length (h s).1, .inl (h s).2⟩

end Shifts

theorem push_shifts (target : Option Nat) (v : Value) : Shifts setup target 0 1 (push v) := by
  rintro s - _ rfl
  by_cases hfull : setup.maxStack ≤ s.stack.length
  · rw [perform_push_of_full hfull]
    exact ⟨Nat.zero_lt_one, hfull⟩
  · rw [perform_push_of_room hfull]
    exact ⟨rfl, .inl rfl⟩

theorem pop_shifts (target : Option Nat) : Shifts setup target 1 0 pop := by
  rintro s hs _ rfl
  rw [perform_pop]
  cases hstack : s.stack with
  | nil =>
    rw [hstack] at hs
    exact absurd hs (Nat.not_succ_le_zero 0)
  | cons v rest => exact ⟨rfl, .inl rfl⟩

theorem constant_shifts (target : Option Nat) (i : Nat) :
    Shifts setup target 0 0 (constant i) := by
  rintro s - _ rfl
  rw [perform_constant]
  cases setup.image.constants[i]? with
  | none => exact trivial
  | some text => exact ⟨rfl, .inl rfl⟩

theorem load_shifts (target : Option Nat) (r : UInt8) : Shifts setup target 0 0 (load r) := by
  rintro s - _ rfl
  rw [perform_load]
  cases s.register r with
  | none => exact trivial
  | some v => exact ⟨rfl, .inl rfl⟩

theorem jump_shifts (target : Nat) : Shifts setup (some target) 0 0 (jump target) := by
  rintro s - _ rfl
  rw [perform_jump]
  by_cases htarget : setup.image.code.length < target
  · rw [if_pos htarget]
    exact trivial
  · rw [if_neg htarget]
    exact ⟨rfl, .inr rfl⟩

/-- The values that effects take off the stack and put there add up. -/
theorem shifts_counted (setup : Setup) (target : Option Nat) :
    CountedWork fun m n a => Shifts setup target m n a where
  pure := Shifts.pure
  bind _ := Shifts.bind
  trap _ := Shifts.trap
  state := by
    rintro s - _ rfl
    exact ⟨rfl, .inl rfl⟩
  modify := Shifts.modify
  push := push_shifts target
  pop := pop_shifts target
  constant := constant_shifts target
  load := load_shifts target

/-- An instruction other than `ret` takes its operands off the stack and puts its value there. -/
theorem execute_shifts {i : Instr} (hret : i ≠ .ret) :
    Shifts setup i.target? i.pops i.pushes.toNat (execute BuiltinTable.standard i) := by
  refine execute_counted (shifts_counted setup i.target?) hret fun target htarget => ?_
  rw [htarget]
  exact jump_shifts target

/-- **An instruction that finds its operands leads to the height it is said to lead to**, and goes
on behind itself or at its target. -/
theorem execute_height (i : Instr) (s : State) (hs : i.pops ≤ s.stack.length) :
    Ensures setup (s = ·) (execute BuiltinTable.standard i)
      (fun _ s' => s'.stack.length = i.heightAfter s.stack.length ∧
        (s'.ip = s.ip ∨ i.target? = some s'.ip))
      fun e _ => e.Fits (setup.maxStack ≤ s.stack.length) := by
  by_cases hret : i = .ret
  · rintro _ rfl
    subst hret
    exact ⟨List.length_tail, .inl rfl⟩
  · refine (execute_shifts hret s hs).mono (fun _ h => h) (fun _ s' hs' => ⟨?_, hs'.2⟩)
      fun e _ he => he.mono fun hfull => ?_
    · rw [hs'.1, Instr.heightAfter_of_ne_ret _ hret]
    · have hroom := hfull.2
      omega

end Machine

/-! ## States -/

/-- The code is cut in two where the pointer is, and the second piece carries from the height of the
stack to zero.  If it is `tight`, the first piece carries from zero to this height. -/
def State.Levelled (tight : Bool) (is : List Instr) (s : State) : Prop :=
  ∃ front back, is = front ++ back ∧ s.ip = Code.size front ∧
    Carries tight s.stack.length back 0 ∧ (tight = true → Carries tight 0 front s.stack.length)

namespace State.Levelled

variable {tight : Bool} {is : List Instr} {s s' : State}

theorem start (h : Carries tight 0 is 0) : ({} : State).Levelled tight is :=
  ⟨[], is, rfl, rfl, h, fun _ => carries_nil tight 0⟩

/-- What matters is where the pointer is and how high the stack is. -/
theorem congr (h : s.Levelled tight is) (hstack : s'.stack = s.stack) (hip : s'.ip = s.ip) :
    s'.Levelled tight is := by
  rw [Levelled, hstack, hip]
  exact h

theorem of_opens (h : Opens tight 0 is s.ip) (hempty : tight = true → s.stack.length = 0) :
    s.Levelled tight is := by
  obtain ⟨front, back, his, hip, hfront, hback⟩ := h
  refine ⟨front, back, his, by rw [hip, Nat.zero_add], ?_, fun htight => ?_⟩
  · cases tight with
    | true => rwa [hempty rfl]
    | false => exact hback.more (Nat.zero_le _) (Nat.le_refl 0)
  · rwa [hempty htight]

/-- Exact heights leave no more on the stack than there are instructions left. -/
theorem length_le (h : s.Levelled true is) : s.stack.length ≤ is.length := by
  obtain ⟨front, back, rfl, -, hback, -⟩ := h
  have hleft := hback.le_length
  rw [List.length_append]
  omega

/-- Behind an instruction the state is levelled again, and so it is at the target of a jump. -/
theorem next {i : Instr} {front back : List Instr} (his : is = front ++ i :: back)
    (hip : s.ip = Code.size front) (hback : Carries tight s.stack.length (i :: back) 0)
    (hfront : tight = true → Carries tight 0 front s.stack.length)
    (hjump : ∀ a, i.target? = some a → Opens tight 0 is a)
    (hheight : s'.stack.length = i.heightAfter s.stack.length)
    (hnext : s'.ip = s.ip + i.size ∨ i.target? = some s'.ip) : s'.Levelled tight is := by
  obtain ⟨hpops, hlands, hrest⟩ := hback
  rcases hnext with hnext | htarget
  · refine ⟨front ++ [i], back, by rw [his, List.append_assoc]; rfl, ?_, hheight ▸ hrest,
      fun htight => ?_⟩
    · rw [hnext, hip, size_append, size_cons, size_nil, Nat.add_zero]
    · rw [hheight]
      exact (hfront htight).append (carries_single hpops rfl (hlands htight))
  · refine of_opens (hjump _ htarget) fun htight => ?_
    rw [hheight, hlands htight (by rw [htarget]; rfl)]

/-- Where the code may be opened, exact heights leave nothing on the stack. -/
theorem stack_eq_nil (h : s.Levelled true is) (hopen : Opens true 0 is s.ip) : s.stack = [] := by
  obtain ⟨front, back, his, hip, -, hfront⟩ := h
  obtain ⟨front', back', his', hip', hfront', -⟩ := hopen
  have hsame : front = front' :=
    front_eq_of_size (his.symm.trans his') (by rw [← hip, hip', Nat.zero_add])
  subst hsame
  exact List.eq_nil_of_length_eq_zero ((hfront rfl).unique hfront')

end State.Levelled

namespace Machine

variable {setup : Setup} {α β : Type}

/-! ## Steps -/

/-- An effect keeps the state levelled unless it fails in an instruction.  Then the stack is not too
low, and exact heights make it too high only for very many instructions. -/
def KeepsLevel (setup : Setup) (tight : Bool) (is : List Instr) (a : Effect α) : Prop :=
  Ensures setup (State.Levelled tight is) a (fun _ s => s.Levelled tight is) fun e s =>
    e.Fits (tight = true → setup.maxStack ≤ is.length) ∨ e = .stopped ∧ s.Levelled tight is

/-- Calls lead from a fresh machine to this state, and none of them has failed in an instruction. -/
inductive Unharmed (setup : Setup) : State → Prop
  | start : Unharmed setup {}
  | call {c : Call} {s s' : State} {r : Except MachineError Answer} (h : Unharmed setup s)
      (hends : c.Ends setup s r s') (htrap : ∀ cause a, r ≠ .error (.trap cause a)) :
      Unharmed setup s'

section

variable {tight : Bool} {is : List Instr} {inside : List Nat}

theorem settle_keepsLevel : KeepsLevel setup tight is settle := by
  intro s hs
  rw [perform_settle, settled]
  by_cases hend : setup.image.code.length ≤ s.ip
  · rw [if_pos hend]
    exact hs.congr rfl rfl
  · rw [if_neg hend]
    exact hs

variable (hcode : setup.image.code = assemble is) (hspell : ∀ i ∈ is, i.Spellable)
  (hlevel : Level tight (fun _ => False) 0 is inside)

include hcode hspell hlevel

/-- **A step keeps the state levelled**, and the instruction that it performs finds its operands. -/
theorem step_levelled : KeepsLevel setup tight is (step BuiltinTable.standard) := by
  intro s hs
  by_cases hhalted : s.halted = true
  · rw [step_of_halted hhalted]
    exact hs
  have hrunning : s.halted = false := Bool.eq_false_iff.2 hhalted
  obtain ⟨front, back, his, hip, hback, hfront⟩ := id hs
  cases back with
  | nil =>
    have hend : setup.image.code.length = s.ip := by
      rw [hcode, length_assemble, his, List.append_nil, hip]
    rw [step_of_end hrunning (Nat.le_of_eq hend)]
    exact hs.congr rfl rfl
  | cons i back =>
    have hplaced : Placed setup.image.code s.ip (i :: back) := by
      have hall := placed_assemble hspell
      rw [← hcode, his] at hall
      rw [hip, ← Nat.zero_add (Code.size front)]
      exact (placed_append hall).2
    have hfetch := fetch?_of_placed hplaced
    by_cases hstop : s.stopRequested = true
    · rw [step_of_stop hrunning (lt_of_fetch? hfetch) hstop]
      exact .inr ⟨rfl, hs⟩
    rw [step_of_fetch hrunning (Bool.eq_false_iff.2 hstop) hfetch]
    have hjump : ∀ a, i.target? = some a → Opens tight 0 is a := fun a ha =>
      (hlevel.targets i (his ▸ List.mem_append_right _ (List.mem_cons_self ..)) a ha).elim
        False.elim id
    have hexecute : Ensures setup (begun i s = ·) (execute BuiltinTable.standard i)
        (fun _ s => s.Levelled tight is) fun e s =>
          e.Fits (tight = true → setup.maxStack ≤ is.length) ∨
            e = .stopped ∧ s.Levelled tight is := by
      refine (execute_height i (begun i s) hback.1).mono (fun _ h => h) (fun _ s' hs' => ?_)
        fun e _ he => .inl (he.mono fun hfull htight => ?_)
      · exact State.Levelled.next his hip hback hfront hjump hs'.1 hs'.2
      · subst htight
        exact Int.le_trans hfull (Int.ofNat_le.2 hs.length_le)
    exact (hexecute.bind fun _ => settle_keepsLevel) (begun i s) rfl

/-! ## Calls -/

/-- **A call that does not fail in an instruction keeps the state levelled**, and none fails because
the stack is too low. -/
theorem Call.Ends.levelled {c : Call} {s s' : State} {r : Except MachineError Answer}
    (hs : s.Levelled tight is) (hends : c.Ends setup s r s') :
    (∀ e, r = .error e → e.Fits (tight = true → setup.maxStack ≤ is.length) ∨ e = .stopped) ∧
      ((∀ cause a, r ≠ .error (.trap cause a)) → s'.Levelled tight is) := by
  obtain ⟨hok, herror⟩ := hends.ensures (step_levelled hcode hspell hlevel)
    (resultValue_ensures fun _ _ _ _ _ => .inl trivial) (fun _ hs => hs.congr rfl rfl) hs
  refine ⟨fun e he => (herror e he).imp_right And.left, fun htrap => ?_⟩
  cases r with
  | ok x => exact hok x rfl
  | error e =>
    cases e with
    | trap cause a => exact absurd rfl (htrap cause a)
    | stopped => exact ((herror _ rfl).resolve_left id).2

theorem Unharmed.levelled {s : State} (hs : Unharmed setup s) : s.Levelled tight is := by
  induction hs with
  | start => exact .start hlevel.carries
  | call _ hends htrap ih => exact (hends.levelled hcode hspell hlevel ih).2 htrap

end

end Machine
end Octet
