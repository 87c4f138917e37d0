import Octet.Machine.Run
import Octet.Proofs.Instr.Listing

/-!
# What effects guarantee

Statements about the machine are of one form: if the state had some property
before, then it has some property afterwards, whether the effect ended well or
failed.  `Effect.Ensures` is that form.  A failure is part of it because the machine
can be taken up again after one, so what a failed effect leaves behind matters as
much as what a successful one does.

The rules at the beginning put guarantees together along the structure of an
effect.  After them come the steps of the machine: `Machine.step` is one long
effect, but which way it takes depends on the state alone, and there is one
equation for each of the five ways.  `way_of_step` puts them together: what holds of
every way holds of every step.
-/

namespace Octet

theorem register_lt (r : UInt8) : r.toNat < maxRegisters := r.toNat_lt

/-- What a register holds. -/
def State.register (s : State) (r : UInt8) : Option Value :=
  have := register_lt r
  s.registers[r.toNat]

/-- Storing in a register changes that register only. -/
theorem register_store (s : State) (q r : UInt8) (v : Value) :
    State.register { s with registers := s.registers.set r.toNat (some v) (register_lt r) } q =
      if q = r then some v else s.register q := by
  rw [State.register, Vector.getElem_set]
  by_cases hq : q = r
  · rw [if_pos hq, if_pos (by rw [hq])]
  · rw [if_neg hq, if_neg fun heq => hq (UInt8.toNat_inj.1 heq.symm)]
    rfl

namespace Effect

variable {α β : Type} {setup : Setup}

/-- From every state with a property, an effect ends as the one postcondition says, or
fails as the other one says. -/
def Ensures (setup : Setup) (P : State → Prop) (a : Effect α) (Q : α → State → Prop)
    (E : MachineError → State → Prop) : Prop :=
  ∀ s, P s → match a.perform setup s with
    | (.ok x, s') => Q x s'
    | (.error e, s') => E e s'

namespace Ensures

variable {P P' : State → Prop} {Q : α → State → Prop} {R : β → State → Prop}
  {E E' : MachineError → State → Prop}

theorem pure (x : α) (h : ∀ s, P s → Q x s) : Ensures setup P (pure x) Q E :=
  fun s hs => h s hs

/-- One effect after another. -/
theorem bind {a : Effect α} {f : α → Effect β} (ha : Ensures setup P a Q E)
    (hf : ∀ x, Ensures setup (Q x) (f x) R E) : Ensures setup P (a >>= f) R E := by
  intro s hs
  have hfirst := ha s hs
  rw [perform_bind]
  cases hend : a.perform setup s with
  | mk outcome s' =>
    rw [hend] at hfirst
    cases outcome with
    | error e => exact hfirst
    | ok x => exact hf x s' hfirst

theorem mono {a : Effect α} {Q' : α → State → Prop} (h : Ensures setup P a Q E)
    (hP : ∀ s, P' s → P s) (hQ : ∀ x s, Q x s → Q' x s) (hE : ∀ e s, E e s → E' e s) :
    Ensures setup P' a Q' E' := by
  intro s hs
  have hfirst := h s (hP s hs)
  cases hend : a.perform setup s with
  | mk outcome s' =>
    rw [hend] at hfirst
    cases outcome with
    | error e => exact hE e s' hfirst
    | ok x => exact hQ x s' hfirst

/-- A failure of the machine's own. -/
theorem trap {cause : Trap} (h : ∀ s, P s → E (.trap cause s.offset) s) :
    Ensures setup P (trap cause : Effect α) Q E :=
  fun s hs => h s hs

/-- A change of the state. -/
theorem modify {f : State → State} {Q : Unit → State → Prop} (h : ∀ s, P s → Q () (f s)) :
    Ensures setup P (modify f : Effect Unit) Q E :=
  fun s hs => h s hs

end Ensures

/-! ## Primitive effects -/

theorem perform_get_bind (f : State → Effect β) (s : State) :
    (get >>= f).perform setup s = (f s).perform setup s := rfl

variable {s : State}

theorem perform_push_of_full {v : Value} (h : setup.maxStack ≤ s.stack.length) :
    (push v).perform setup s = (.error (.trap (.overflow setup.maxStack) s.offset), s) := by
  have hopen : (push v).perform setup s = (if setup.maxStack ≤ s.stack.length then
      trap (.overflow setup.maxStack) else _ : Effect Unit).perform setup s := rfl
  rw [hopen, if_pos h, perform_trap]

theorem perform_push_of_room {v : Value} (h : ¬ setup.maxStack ≤ s.stack.length) :
    (push v).perform setup s = (.ok (), { s with stack := v :: s.stack }) := by
  have hopen : (push v).perform setup s = (if setup.maxStack ≤ s.stack.length then _
      else modify fun s => { s with stack := v :: s.stack } : Effect Unit).perform setup s := rfl
  rw [hopen, if_neg h]
  rfl

theorem perform_pop (s : State) : pop.perform setup s = (match s.stack with
    | [] => (.error (.trap .underflow s.offset), s)
    | v :: rest => (.ok v, { s with stack := rest })) := by
  rw [pop, perform_get_bind]
  cases s.stack <;> rfl

theorem perform_constant (i : Nat) (s : State) : (constant i).perform setup s =
    (match setup.image.constants[i]? with
    | some text => .ok text
    | none => .error (.trap (.badConstant i setup.image.constants.length) s.offset), s) := by
  have hopen : (constant i).perform setup s = (match setup.image.constants[i]? with
      | some text => return text
      | none => trap (.badConstant i setup.image.constants.length) : Effect String).perform
        setup s := rfl
  rw [hopen]
  cases setup.image.constants[i]? <;> rfl

theorem perform_load (r : UInt8) (s : State) : (load r).perform setup s =
    (match s.register r with
    | some v => .ok v
    | none => .error (.trap (.unsetRegister r) s.offset), s) := by
  rw [load, perform_get_bind]
  show (match s.register r with
    | some v => pure v
    | none => trap (.unsetRegister r) : Effect Value).perform setup s = _
  cases s.register r <;> rfl

theorem perform_jump (target : Nat) (s : State) : (jump target).perform setup s =
    if setup.image.code.length < target then
      (.error (.trap (.jumpOutside target setup.image.code.length) s.offset), s)
    else (.ok (), { s with ip := target }) := by
  have hopen : (jump target).perform setup s = (if setup.image.code.length < target then
      trap (.jumpOutside target setup.image.code.length)
      else modify fun s => { s with ip := target } : Effect Unit).perform setup s := rfl
  rw [hopen]
  split <;> rfl

end Effect

namespace Machine

open Code Effect

variable {builtins : BuiltinTable} {setup : Setup} {s : State}

/-! ## The ways of a step -/

theorem step_of_halted (h : s.halted = true) :
    (step builtins).perform setup s = (.ok false, s) := by
  rw [step, perform_get_bind, if_pos h, perform_pure]

/-- What a step does that is not stopped by `halted`. -/
theorem step_of_running (h : s.halted = false) :
    (step builtins).perform setup s = (match setup.image.code.drop s.ip with
      | [] => settle
      | byte :: rest =>
        if s.stopRequested then throw .stopped
        else do
          set { s with offset := s.ip }
          match Opcode.ofByte? byte with
          | none => trap (.invalidOpcode byte)
          | some op =>
            match op.instr? rest with
            | none => trap (.truncated op)
            | some instr =>
              advance op
              execute builtins instr
              settle : Effect Bool).perform setup s := by
  rw [step, perform_get_bind, if_neg (by rw [h]; exact Bool.false_ne_true)]
  rfl

/-- The end of a step: the machine halts if its code has ended. -/
def settled (setup : Setup) (s : State) : State :=
  if setup.image.code.length ≤ s.ip then { s with halted := true } else s

theorem perform_settle (s : State) :
    settle.perform setup s = (.ok (!(settled setup s).halted), settled setup s) := rfl

theorem step_of_end (h : s.halted = false) (hip : setup.image.code.length ≤ s.ip) :
    (step builtins).perform setup s = (.ok false, { s with halted := true }) := by
  rw [step_of_running h, List.drop_eq_nil_of_le hip, perform_settle, settled, if_pos hip]
  rfl

theorem step_of_stop (h : s.halted = false) (hip : s.ip < setup.image.code.length)
    (hstop : s.stopRequested = true) :
    (step builtins).perform setup s = (.error .stopped, s) := by
  rw [step_of_running h]
  cases hdrop : setup.image.code.drop s.ip with
  | nil => exact absurd (List.drop_eq_nil_iff.1 hdrop) (Nat.not_le.2 hip)
  | cons byte rest =>
    simp only [hstop]
    rfl

/-- With bytes ahead, a step that is not stopped notes where it is and goes by the first of them. -/
theorem step_of_bytes (h : s.halted = false) (hstop : s.stopRequested = false) {byte : UInt8}
    {rest : List UInt8} (hdrop : setup.image.code.drop s.ip = byte :: rest) :
    (step builtins).perform setup s = (match Opcode.ofByte? byte with
      | none => trap (.invalidOpcode byte)
      | some op =>
        match op.instr? rest with
        | none => trap (.truncated op)
        | some instr => do
          advance op
          execute builtins instr
          settle : Effect Bool).perform setup { s with offset := s.ip } := by
  rw [step_of_running h, hdrop]
  dsimp only
  rw [hstop, if_neg Bool.false_ne_true]
  rfl

/-- The state in which an instruction is performed: the pointer is behind it
already. -/
def begun (i : Instr) (s : State) : State :=
  { s with ip := s.ip + i.size, steps := s.steps + 1, offset := s.ip }

theorem step_of_fetch (h : s.halted = false) (hstop : s.stopRequested = false) {i : Instr}
    (hfetch : fetch? setup.image.code s.ip = some i) :
    (step builtins).perform setup s =
      (do execute builtins i; settle : Effect Bool).perform setup (begun i s) := by
  rw [fetch?] at hfetch
  split at hfetch
  · cases hfetch
  · rename_i byte rest hdrop
    obtain ⟨op, hop, hi⟩ := Option.bind_eq_some_iff.1 hfetch
    have hwidth : s.ip + 1 + op.width = s.ip + i.size := by
      rw [Instr.size, Instr.opcode_of_instr? hi, Nat.add_assoc]
    rw [step_of_bytes h hstop hdrop, begun, ← hwidth, hop]
    dsimp only
    rw [hi]
    rfl

/-- Where no instruction starts, a step fails and leaves the pointer where it is. -/
theorem step_of_unreadable (builtins : BuiltinTable) (h : s.halted = false)
    (hip : s.ip < setup.image.code.length) (hstop : s.stopRequested = false)
    (hfetch : fetch? setup.image.code s.ip = none) :
    ∃ cause, ((∃ b, setup.image.code[s.ip]? = some b ∧ Opcode.ofByte? b = none ∧
          cause = .invalidOpcode b) ∨
        ∃ op : Opcode, setup.image.code[s.ip]? = some op.toByte ∧
          setup.image.code.length < s.ip + 1 + op.width ∧ cause = .truncated op) ∧
      (step builtins).perform setup s =
        (.error (.trap cause s.ip), { s with offset := s.ip }) := by
  rw [fetch?] at hfetch
  split at hfetch
  · rename_i hdrop
    exact absurd (List.drop_eq_nil_iff.1 hdrop) (Nat.not_le.2 hip)
  · rename_i byte rest hdrop
    rw [step_of_bytes h hstop hdrop]
    have hbyte : setup.image.code[s.ip]? = some byte := by
      have hfirst : (setup.image.code.drop s.ip)[0]? = setup.image.code[s.ip]? := by
        rw [List.getElem?_drop, Nat.add_zero]
      rw [← hfirst, hdrop]
      rfl
    cases hop : Opcode.ofByte? byte with
    | none =>
      exact ⟨.invalidOpcode byte, .inl ⟨byte, hbyte, hop, rfl⟩, rfl⟩
    | some op =>
      rw [hop, Option.bind_some] at hfetch
      have hshort : setup.image.code.length < s.ip + 1 + op.width := by
        have hwidth := mt (Opcode.isSome_instr? op rest).2 (by rw [hfetch]; exact Bool.false_ne_true)
        have hlength := congrArg List.length hdrop
        rw [List.length_drop, List.length_cons] at hlength
        omega
      refine ⟨.truncated op,
        .inr ⟨op, by rw [Opcode.toByte_of_ofByte? hop]; exact hbyte, hshort, rfl⟩, ?_⟩
      dsimp only
      rw [hfetch]
      rfl

/-- Where there is nothing to do, a step notes the end and leaves the pointer where it is. -/
theorem step_of_idle (h : s.halted = true ∨ setup.image.code.length ≤ s.ip) :
    (step builtins).perform setup s = (.ok false, { s with halted := true }) := by
  by_cases hhalted : s.halted = true
  · have hsame : { s with halted := true } = s := by rw [← hhalted]
    rw [step_of_halted hhalted, hsame]
  · exact step_of_end (Bool.eq_false_iff.2 hhalted) (h.resolve_left hhalted)

/-- The ways of a step, whatever the built-ins are. -/
inductive Way (builtins : BuiltinTable) (setup : Setup) (s : State) :
    Except MachineError Bool → State → Prop
  /-- There is nothing to do. -/
  | idle (hend : s.halted = true ∨ setup.image.code.length ≤ s.ip) :
      Way builtins setup s (.ok false) { s with halted := true }
  /-- A stop was requested. -/
  | stopped (hrunning : s.halted = false) (hlt : s.ip < setup.image.code.length)
      (hstop : s.stopRequested = true) : Way builtins setup s (.error .stopped) s
  /-- No instruction can be read at the pointer. -/
  | unreadable {cause : Trap} (hlt : s.ip < setup.image.code.length)
      (hfetch : fetch? setup.image.code s.ip = none)
      (hcause : (∃ b, setup.image.code[s.ip]? = some b ∧ Opcode.ofByte? b = none ∧
          cause = .invalidOpcode b) ∨
        ∃ op : Opcode, setup.image.code[s.ip]? = some op.toByte ∧
          setup.image.code.length < s.ip + 1 + op.width ∧ cause = .truncated op) :
      Way builtins setup s (.error (.trap cause s.ip)) { s with offset := s.ip }
  /-- An instruction is performed. -/
  | performed {i : Instr} {s₁ : State} (hrunning : s.halted = false)
      (hfetch : fetch? setup.image.code s.ip = some i)
      (hexecute : (execute builtins i).perform setup (begun i s) = (.ok (), s₁)) :
      Way builtins setup s (.ok (!(settled setup s₁).halted)) (settled setup s₁)
  /-- An instruction fails. -/
  | failed {i : Instr} {e : MachineError} {s' : State} (hrunning : s.halted = false)
      (hfetch : fetch? setup.image.code s.ip = some i)
      (hexecute : (execute builtins i).perform setup (begun i s) = (.error e, s')) :
      Way builtins setup s (.error e) s'

/-- **A step goes one of these ways.** -/
theorem way_of_step {r : Except MachineError Bool} {s' : State}
    (h : (step builtins).perform setup s = (r, s')) : Way builtins setup s r s' := by
  by_cases hidle : s.halted = true ∨ setup.image.code.length ≤ s.ip
  · rw [step_of_idle hidle] at h
    cases h
    exact .idle hidle
  obtain ⟨hhalted, hip⟩ := not_or.1 hidle
  have hrunning : s.halted = false := Bool.eq_false_iff.2 hhalted
  have hlt : s.ip < setup.image.code.length := Nat.lt_of_not_le hip
  by_cases hstop : s.stopRequested = true
  · rw [step_of_stop hrunning hlt hstop] at h
    cases h
    exact .stopped hrunning hlt hstop
  have hgoing : s.stopRequested = false := Bool.eq_false_iff.2 hstop
  cases hfetch : fetch? setup.image.code s.ip with
  | none =>
    obtain ⟨cause, hcause, hend⟩ := step_of_unreadable builtins hrunning hlt hgoing hfetch
    rw [hend] at h
    cases h
    exact .unreadable hlt hfetch hcause
  | some i =>
    rw [step_of_fetch hrunning hgoing hfetch, perform_bind] at h
    rcases hexecute : (execute builtins i).perform setup (begun i s) with ⟨e | u, s₁⟩
    · rw [hexecute] at h
      cases h
      exact .failed hrunning hfetch hexecute
    · rw [hexecute] at h
      cases h
      exact .performed hrunning hfetch hexecute

end Machine
end Octet
