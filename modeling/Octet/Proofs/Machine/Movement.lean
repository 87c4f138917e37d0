import Octet.Proofs.Machine.Heights
import Octet.Proofs.Machine.StackWork

/-!
# Where an instruction goes

Most instructions work on the stack, and whatever they do there, they leave the rest of the machine
alone: the pointer, which is behind the instruction already, the registers and the count.  This is
so whether they succeed or fail, and whatever is on the stack, so that the statements here need no
state that makes sense (`Effect.Quiet`).

Only five instructions do more.  A load looks at a register, and is the one instruction that fails
for want of it; a store writes one; the two jumps move the pointer; and a `ret` halts the machine.
`Instr.Leads` says what a success comes to for any of them and `Instr.Gives` what a failure does
(`execute_leads`).  The other half of a step, which passes and counts the instruction, comes before:
`step_stepped` puts the two together.
-/

namespace Octet

open Code Effect

/-- The state has changed on the stack and in the output at most. -/
structure State.Still (s s' : State) : Prop where
  ip : s'.ip = s.ip
  halted : s'.halted = s.halted
  steps : s'.steps = s.steps
  registers : s'.registers = s.registers

theorem State.Still.refl (s : State) : s.Still s :=
  ⟨rfl, rfl, rfl, rfl⟩

theorem State.Still.trans {s s₁ s₂ : State} (h : s.Still s₁) (h' : s₁.Still s₂) : s.Still s₂ where
  ip := h'.ip.trans h.ip
  halted := h'.halted.trans h.halted
  steps := h'.steps.trans h.steps
  registers := h'.registers.trans h.registers

theorem State.Still.register {s s' : State} (h : s.Still s') (r : UInt8) :
    s'.register r = s.register r := by
  rw [State.register, h.registers]
  rfl

/-- What an instruction that succeeds comes to, apart from the stack. -/
structure Instr.Leads (i : Instr) (s s' : State) : Prop where
  ip : s'.ip = s.ip ∨ i.target? = some s'.ip
  jump : ∀ t, i = .jump t → s'.ip = t.toNat
  halted : i ≠ .ret → s'.halted = s.halted
  steps : s'.steps = s.steps
  registers : ∀ r, (s.register r).isSome ∨ r ∈ i.stores → (s'.register r).isSome

/-- What an instruction that fails comes to, apart from the stack: nothing.  It gives a reason, which
is the want of a register or a target for the instructions that need one only. -/
structure Instr.Gives (setup : Setup) (i : Instr) (s : State) (e : MachineError) (s' : State) :
    Prop where
  still : s.Still s'
  trap : e ≠ .stopped
  jump : ∀ t, i = .jump t → setup.image.code.length < t.toNat
  unset : ∀ r a, e = .trap (.unsetRegister r) a → i = .loadRegister r ∧ s.register r = none

/-- The failure is an instruction's, and not for want of a register. -/
def MachineError.Ordinary : MachineError → Prop
  | .stopped | .trap (.unsetRegister _) _ => False
  | .trap _ _ => True

/-! ## Quiet effects -/

namespace Effect

variable {setup : Setup} {α β : Type}

/-- The effect leaves everything but the stack and the output alone, and does not fail for want of a
register. -/
def Quiet (setup : Setup) (a : Effect α) : Prop :=
  ∀ s, Ensures setup (s = ·) a (fun _ s' => s.Still s') fun e s' => s.Still s' ∧ e.Ordinary

namespace Quiet

theorem pure (x : α) : Quiet setup (pure x) := by
  rintro s _ rfl
  exact .refl s

theorem bind {a : Effect α} {f : α → Effect β} (ha : Quiet setup a)
    (hf : ∀ x, Quiet setup (f x)) : Quiet setup (a >>= f) := by
  intro s
  refine (ha s).bind fun x s₁ hs₁ => ?_
  exact (hf x s₁).mono (fun _ h => h) (fun _ _ h => hs₁.trans h)
    (fun _ _ h => ⟨hs₁.trans h.1, h.2⟩) s₁ rfl

theorem trap {cause : Trap} (h : ∀ a, (MachineError.trap cause a).Ordinary) :
    Quiet setup (trap cause : Effect α) := by
  rintro s _ rfl
  exact ⟨.refl s, h s.offset⟩

theorem modify {f : State → State} (h : ∀ s : State, s.Still (f s)) :
    Quiet setup (modify f) := by
  rintro s _ rfl
  exact h s

end Quiet

theorem push_quiet (v : Value) : Quiet setup (push v) := by
  rintro s _ rfl
  by_cases hfull : setup.maxStack ≤ s.stack.length
  · rw [perform_push_of_full hfull]
    exact ⟨.refl s, trivial⟩
  · rw [perform_push_of_room hfull]
    exact ⟨rfl, rfl, rfl, rfl⟩

theorem pop_quiet : Quiet setup pop := by
  rintro s _ rfl
  rw [perform_pop]
  cases s.stack with
  | nil => exact ⟨.refl s, trivial⟩
  | cons v rest => exact ⟨rfl, rfl, rfl, rfl⟩

theorem constant_quiet (i : Nat) : Quiet setup (constant i) := by
  rintro s _ rfl
  rw [perform_constant]
  cases setup.image.constants[i]? with
  | none => exact ⟨.refl s, trivial⟩
  | some text => exact .refl s

theorem write_quiet (text : String) : Quiet setup (write text) :=
  .modify fun _ => ⟨rfl, rfl, rfl, rfl⟩

/-- Work on the stack is quiet. -/
theorem quiet_stackWork (setup : Setup) : StackWork fun a => Quiet setup a where
  pure x := .pure x
  bind ha hf := ha.bind hf
  trap {_ cause} hcause := by
    refine .trap fun a => ?_
    cases cause with
    | unsetRegister r => exact absurd rfl (hcause r)
    | _ => exact trivial
  state := by
    rintro s _ rfl
    exact .refl s
  push := push_quiet
  pop := pop_quiet
  constant := constant_quiet

end Effect

namespace Machine

variable {setup : Setup} {s : State}

/-! ## Instructions -/

theorem execute_quiet {i : Instr} (h : Plain i) :
    Quiet setup (execute BuiltinTable.standard i) := by
  refine execute_plain (quiet_stackWork setup) h fun id => ?_
  rw [execute, BuiltinTable.standard]
  cases Builtin.ofId? id.toNat with
  | some b => exact (quiet_stackWork setup).builtin write_quiet b
  | none => exact .trap fun _ => trivial

/-- To leave everything alone is to lead somewhere, for an instruction that need not do more. -/
theorem leads_of_still {i : Instr} {s' : State} (hjump : ∀ t, i ≠ .jump t) (hstores : i.stores = [])
    (h : s.Still s') : i.Leads s s' where
  ip := .inl h.ip
  jump t ht := absurd ht (hjump t)
  halted _ := h.halted
  steps := h.steps
  registers r hr := by
    rw [h.register]
    simpa [hstores] using hr

theorem gives_of_still {i : Instr} {s' : State} {e : MachineError} (hjump : ∀ t, i ≠ .jump t)
    (h : s.Still s') (he : e.Ordinary) : i.Gives setup s e s' where
  still := h
  trap := by
    rintro rfl
    exact he
  jump t ht := absurd ht (hjump t)
  unset r a hcause := by
    subst hcause
    exact he.elim

theorem loadRegister_leads (r : UInt8) :
    Ensures setup (s = ·) (execute BuiltinTable.standard (.loadRegister r))
      (fun _ s' => (Instr.loadRegister r).Leads s s') ((Instr.loadRegister r).Gives setup s) := by
  rintro _ rfl
  rw [execute, perform_bind, perform_load]
  cases hr : s.register r with
  | none =>
    refine ⟨.refl s, by simp, by simp, fun q a hq => ?_⟩
    cases hq
    exact ⟨rfl, hr⟩
  | some v =>
    exact ((push_quiet v s).mono (fun _ h => h) (fun _ _ h => leads_of_still (by simp) rfl h)
      fun _ _ h => gives_of_still (by simp) h.1 h.2) s rfl

theorem storeRegister_leads (r : UInt8) :
    Ensures setup (s = ·) (execute BuiltinTable.standard (.storeRegister r))
      (fun _ s' => (Instr.storeRegister r).Leads s s') ((Instr.storeRegister r).Gives setup s) := by
  refine ((pop_quiet s).mono (fun _ h => h) (fun _ _ h => h)
    fun _ _ h => gives_of_still (by simp) h.1 h.2).bind fun v => ?_
  intro s₁ hs₁
  refine ⟨.inl hs₁.ip, by simp, fun _ => hs₁.halted, hs₁.steps, fun q hq => ?_⟩
  rw [register_store, hs₁.register]
  by_cases hqr : q = r
  · simp [hqr]
  · simpa [hqr, Instr.stores] using hq

theorem jump_leads (t : UInt8) :
    Ensures setup (s = ·) (execute BuiltinTable.standard (.jump t))
      (fun _ s' => (Instr.jump t).Leads s s') ((Instr.jump t).Gives setup s) := by
  rintro _ rfl
  rw [execute, perform_jump]
  by_cases ht : setup.image.code.length < t.toNat
  · rw [if_pos ht]
    refine ⟨.refl s, by simp, fun u hu => ?_, by simp⟩
    cases hu
    exact ht
  · rw [if_neg ht]
    refine ⟨.inr rfl, fun u hu => ?_, fun _ => rfl, rfl,
      fun r hr => hr.resolve_right (by simp [Instr.stores])⟩
    cases hu
    rfl

theorem jumpIfFalse_leads (t : UInt8) :
    Ensures setup (s = ·) (execute BuiltinTable.standard (.jumpIfFalse t))
      (fun _ s' => (Instr.jumpIfFalse t).Leads s s') ((Instr.jumpIfFalse t).Gives setup s) := by
  refine (((quiet_stackWork setup).popBool s).mono (fun _ h => h) (fun _ _ h => h)
    fun _ _ h => gives_of_still (by simp) h.1 h.2).bind fun b => ?_
  intro s₁ hs₁
  cases b with
  | true => exact leads_of_still (by simp) rfl hs₁
  | false =>
    simp only [Bool.false_eq_true, if_false, perform_jump]
    by_cases ht : setup.image.code.length < t.toNat
    · rw [if_pos ht]
      exact gives_of_still (by simp) hs₁ trivial
    · rw [if_neg ht]
      refine ⟨.inr rfl, by simp, fun _ => hs₁.halted, hs₁.steps, fun r hr => ?_⟩
      have hkept : (s₁.register r).isSome := by
        rw [hs₁.register]
        exact hr.resolve_right (by simp [Instr.stores])
      exact hkept

/-- **An instruction goes on behind itself or at its target, and takes no register back.**  If it
fails, nothing has changed but the stack. -/
theorem execute_leads (i : Instr) :
    Ensures setup (s = ·) (execute BuiltinTable.standard i) (fun _ s' => i.Leads s s')
      (i.Gives setup s) := by
  by_cases hplain : Plain i
  · have hjump : ∀ t, i ≠ .jump t := by
      rintro t rfl
      exact hplain
    have hstores : i.stores = [] := by
      cases i with
      | storeRegister r => exact hplain.elim
      | _ => rfl
    exact (execute_quiet hplain s).mono (fun _ h => h)
      (fun _ _ h => leads_of_still hjump hstores h) fun _ _ h => gives_of_still hjump h.1 h.2
  · cases i with
    | loadRegister r => exact loadRegister_leads r
    | storeRegister r => exact storeRegister_leads r
    | jump t => exact jump_leads t
    | jumpIfFalse t => exact jumpIfFalse_leads t
    | ret =>
      rintro _ rfl
      exact ⟨.inl rfl, by simp, fun h => absurd rfl h, rfl,
        fun r hr => hr.resolve_right (by simp [Instr.stores])⟩
    | _ => exact absurd trivial hplain

/-! ## Steps -/

@[simp] theorem settled_ip (s : State) : (settled setup s).ip = s.ip := by
  unfold settled
  split <;> rfl

@[simp] theorem settled_steps (s : State) : (settled setup s).steps = s.steps := by
  unfold settled
  split <;> rfl

@[simp] theorem settled_stack (s : State) : (settled setup s).stack = s.stack := by
  unfold settled
  split <;> rfl

@[simp] theorem register_settled (s : State) (r : UInt8) :
    (settled setup s).register r = s.register r := by
  unfold settled
  split <;> rfl

theorem settled_of_lt (h : s.ip < setup.image.code.length) : settled setup s = s :=
  if_neg (Nat.not_le.2 h)

/-- The ways of a step, and what they come to. -/
inductive Stepped (setup : Setup) (s : State) : Except MachineError Bool → State → Prop
  /-- There is nothing to do. -/
  | idle (hend : s.halted = true ∨ setup.image.code.length ≤ s.ip) :
      Stepped setup s (.ok false) { s with halted := true }
  /-- A stop was requested. -/
  | stopped (hstop : s.stopRequested = true) : Stepped setup s (.error .stopped) s
  /-- No instruction can be read at the pointer. -/
  | unreadable {cause : Trap} (hfetch : fetch? setup.image.code s.ip = none)
      (hlt : s.ip < setup.image.code.length) (hcause : ∀ r, cause ≠ .unsetRegister r) :
      Stepped setup s (.error (.trap cause s.ip)) { s with offset := s.ip }
  /-- An instruction is performed. -/
  | performed {i : Instr} {s₁ : State} (hrunning : s.halted = false)
      (hfetch : fetch? setup.image.code s.ip = some i) (hleads : i.Leads (begun i s) s₁) :
      Stepped setup s (.ok (!(settled setup s₁).halted)) (settled setup s₁)
  /-- An instruction fails. -/
  | failed {i : Instr} {e : MachineError} {s' : State} (hrunning : s.halted = false)
      (hfetch : fetch? setup.image.code s.ip = some i)
      (hgives : i.Gives setup (begun i s) e s') : Stepped setup s (.error e) s'

/-- **A step goes one of these ways**, whatever the state. -/
theorem step_stepped {r : Except MachineError Bool} {s' : State}
    (h : (step BuiltinTable.standard).perform setup s = (r, s')) : Stepped setup s r s' := by
  have hexecute : ∀ i, Ensures setup (begun i s = ·) (execute BuiltinTable.standard i)
      (fun _ s' => i.Leads (begun i s) s') (i.Gives setup (begun i s)) := fun i => execute_leads i
  cases way_of_step h with
  | idle hidle => exact .idle hidle
  | stopped _ _ hstop => exact .stopped hstop
  | unreadable hlt hfetch hcause =>
    refine .unreadable hfetch hlt fun r hr => ?_
    rcases hcause with ⟨b, -, -, rfl⟩ | ⟨op, -, -, rfl⟩ <;> cases hr
  | @performed i s₁ hrunning hfetch hperformed =>
    have hleads := hexecute i (begun i s) rfl
    rw [hperformed] at hleads
    exact .performed hrunning hfetch hleads
  | @failed i e s' hrunning hfetch hfailed =>
    have hgives := hexecute i (begun i s) rfl
    rw [hfailed] at hgives
    exact .failed hrunning hfetch hgives

end Machine
end Octet
