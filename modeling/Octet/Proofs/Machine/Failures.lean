import Octet.Proofs.Machine.Soundness

/-!
# Which instruction is to blame

When the machine fails, the failure names an offset.  This file says what it says about the
code: at that offset stands a byte that starts no instruction, or an instruction that the code
cuts short, or an instruction that may fail in just this way (`Trap.Reported`).  Which
instruction may fail in which way is the table `Instr.MayFail`.

## What a failure leaves behind

An instruction first takes its operands off the stack, and only then does something: it pushes a
value, stores one, jumps or writes.  What it does last either happens or fails without a trace,
so an instruction that fails has taken some of its operands and changed nothing else
(`Orderly`).  An instruction that succeeds may change a good deal, but some things are never
taken back: a register that holds something goes on holding something, and what was written
stays written (`State.Later`).

The part of an instruction that takes its operands is described by `Takes`, and the two are put
together by `Takes.bind_orderly`, one operand at a time.
-/

namespace Octet

open Code

/-- What no effect takes back, seen from a later state. -/
structure State.Later (s s' : State) : Prop where
  registers : ∀ (r : Nat) (hr : r < maxRegisters), s.registers[r].isSome → s'.registers[r].isSome
  output : s.output.toList <+: s'.output.toList
  stopRequested : s'.stopRequested = s.stopRequested

theorem State.Later.refl (s : State) : s.Later s :=
  ⟨fun _ _ h => h, List.prefix_rfl, rfl⟩

theorem State.Later.trans {s s₁ s₂ : State} (h : s.Later s₁) (h' : s₁.Later s₂) : s.Later s₂ where
  registers r hr hs := h'.registers r hr (h.registers r hr hs)
  output := h.output.trans h'.output
  stopRequested := h'.stopRequested.trans h.stopRequested

/-- The state without the top of its stack. -/
def State.dropped (s : State) (n : Nat) : State :=
  { s with stack := s.stack.drop n }

theorem State.dropped_dropped (s : State) (m n : Nat) :
    (s.dropped m).dropped n = s.dropped (m + n) := by
  rw [dropped, dropped, dropped, List.drop_drop]

theorem State.later_dropped (s : State) (n : Nat) : s.Later (s.dropped n) :=
  ⟨fun _ _ h => h, List.prefix_rfl, rfl⟩

/-- Every value on the stack is in the range of its type. -/
def State.StackValid (setup : Setup) (s : State) : Prop :=
  ∀ v ∈ s.stack, v.Valid setup.image.constants.length

theorem State.StackValid.dropped {setup : Setup} {s : State} (h : s.StackValid setup) (n : Nat) :
    (s.dropped n).StackValid setup :=
  fun v hv => h v (List.mem_of_mem_drop hv)

/-! ## The ways to fail -/

/-- How many operands an instruction takes off the stack. -/
def Instr.pops : Instr → Nat
  | .arith _ | .order _ | .equality _ | .logic _ => 2
  | .storeRegister _ | .neg | .not | .jumpIfFalse _ => 1
  | .callBuiltin id => (Builtin.ofId? id.toNat).elim 0 Builtin.arity
  | .pushInt _ | .pushBool _ | .loadConstant _ | .loadRegister _ | .jump _ | .ret => 0

/-- Whether an instruction puts a value on the stack. -/
def Instr.pushes : Instr → Bool
  | .storeRegister _ | .jumpIfFalse _ | .jump _ | .callBuiltin _ | .ret => false
  | .pushInt _ | .pushBool _ | .loadConstant _ | .loadRegister _ | .arith _ | .neg | .order _
  | .equality _ | .logic _ | .not => true

/-- The type that a built-in wants its argument to have. -/
def Builtin.expects : Builtin → Option Tag
  | printInt => some .i32
  | printStr => some .str
  | printBool => some .bool
  | debug => none

/-- The type that an instruction wants its operands to have, if it is a particular one. -/
def Instr.expects : Instr → Option Tag
  | .arith _ | .order _ | .neg => some .i32
  | .jumpIfFalse _ => some .bool
  | .callBuiltin id => (Builtin.ofId? id.toNat).bind Builtin.expects
  | _ => none

/-- Which instruction may fail in which way. -/
inductive Instr.MayFail (setup : Setup) : Instr → Trap → Prop
  | overflow {i : Instr} : i.pushes → MayFail setup i (.overflow setup.maxStack)
  | underflow {i : Instr} : 0 < i.pops → MayFail setup i .underflow
  | wrongTag {i : Instr} {expected found : Tag} :
      i.expects = some expected → found ≠ expected → MayFail setup i (.wrongTag expected found)
  | badConstant {k : UInt8} : setup.image.constants.length ≤ k.toNat →
      MayFail setup (.loadConstant k) (.badConstant k.toNat setup.image.constants.length)
  | jumpOutside {target : UInt8} : setup.image.code.length < target.toNat →
      MayFail setup (.jump target) (.jumpOutside target.toNat setup.image.code.length)
  | branchOutside {target : UInt8} : setup.image.code.length < target.toNat →
      MayFail setup (.jumpIfFalse target) (.jumpOutside target.toNat setup.image.code.length)
  | unsetRegister {r : UInt8} : MayFail setup (.loadRegister r) (.unsetRegister r)
  | divisionByZero {op : ArithOp} : op = .div ∨ op = .mod →
      MayFail setup (.arith op) .divisionByZero
  | incomparable {negated : Bool} {left right : Tag} :
      left ≠ right → MayFail setup (.equality negated) (.incomparable left right)
  | badLogic {op : LogicOp} {left right : Tag} :
      left ≠ right ∨ left = .str → MayFail setup (.logic op) (.badLogic op.opcode left right)
  | notOfText : MayFail setup .not .notOfText
  | unknownBuiltin {id : UInt8} :
      Builtin.ofId? id.toNat = none → MayFail setup (.callBuiltin id) (.unknownBuiltin id)

/-- What a failure says about the code at its offset. -/
inductive Trap.Reported (setup : Setup) : Trap → Nat → Prop
  | invalidOpcode {a : Nat} {b : UInt8} :
      setup.image.code[a]? = some b → Opcode.ofByte? b = none → Reported setup (.invalidOpcode b) a
  | truncated {a : Nat} {op : Opcode} :
      setup.image.code[a]? = some op.toByte → setup.image.code.length < a + 1 + op.width →
      Reported setup (.truncated op) a
  | instruction {a : Nat} {i : Instr} {cause : Trap} :
      fetch? setup.image.code a = some i → i.MayFail setup cause → Reported setup cause a

/-- What a failure says about the machine: the code is to blame, or a stop was requested. -/
def MachineError.Reported (setup : Setup) (s : State) : MachineError → Prop
  | .trap cause a => cause.Reported setup a
  | .stopped => s.stopRequested = true

namespace Effect

variable {setup : Setup} {blame : Trap → Prop} {α β : Type}

/-! ## Taking operands -/

/-- A failure that has taken at most so many values off the stack and done nothing else. -/
def Spoils (blame : Trap → Prop) (n : Nat) (s : State) (e : MachineError) (s' : State) : Prop :=
  (∃ k ≤ n, s' = s.dropped k) ∧ ∃ cause, e = .trap cause s.offset ∧ blame cause

/-- The effect takes at most so many values off the stack and does nothing else, whether it
succeeds or fails.  What it yields is described by `Q`. -/
def Takes (setup : Setup) (blame : Trap → Prop) (n : Nat) (a : Effect α) (Q : α → Prop) : Prop :=
  ∀ s, s.StackValid setup → Ensures setup (s = ·) a
    (fun x s' => (∃ k ≤ n, s' = s.dropped k) ∧ Q x) (Spoils blame n s)

/-- The effect takes nothing back if it succeeds, and spoils at most so many values if it
fails. -/
def Orderly (setup : Setup) (blame : Trap → Prop) (n : Nat) (a : Effect α) : Prop :=
  ∀ s, s.StackValid setup → Ensures setup (s = ·) a (fun _ s' => s.Later s') (Spoils blame n s)

variable {Q : α → Prop} {R : β → Prop}

theorem spoils_trap {cause : Trap} (h : blame cause) (n : Nat) (s : State) :
    Spoils blame n s (.trap cause s.offset) s :=
  ⟨⟨0, Nat.zero_le n, rfl⟩, cause, rfl, h⟩

/-- A failure after operands were taken has spoiled them too. -/
theorem Spoils.after {m n k : Nat} {s s' : State} {e : MachineError}
    (h : Spoils blame n (s.dropped k) e s') (hk : k ≤ m) : Spoils blame (n + m) s e s' := by
  obtain ⟨⟨l, hl, rfl⟩, cause, rfl, hcause⟩ := h
  exact ⟨⟨k + l, by omega, s.dropped_dropped k l⟩, cause, rfl, hcause⟩

theorem Spoils.mono {m n : Nat} {s s' : State} {e : MachineError} (h : Spoils blame m s e s')
    (hmn : m ≤ n) : Spoils blame n s e s' := by
  obtain ⟨⟨k, hk, hs'⟩, hcause⟩ := h
  exact ⟨⟨k, Nat.le_trans hk hmn, hs'⟩, hcause⟩

theorem Takes.trap {cause : Trap} (h : blame cause) (n : Nat) :
    Takes setup blame n (trap cause : Effect α) Q := by
  rintro s - _ rfl
  exact spoils_trap h n s

theorem Takes.pure {x : α} (h : Q x) : Takes setup blame 0 (pure x) Q := by
  rintro s - _ rfl
  exact ⟨⟨0, Nat.le_refl 0, rfl⟩, h⟩

/-- Operands taken one after the other. -/
theorem Takes.bind {m n : Nat} {a : Effect α} {f : α → Effect β} (ha : Takes setup blame m a Q)
    (hf : ∀ x, Q x → Takes setup blame n (f x) R) : Takes setup blame (n + m) (a >>= f) R := by
  intro s hs
  refine ((ha s hs).mono (fun _ h => h) (fun _ _ h => h) fun e s' he =>
    he.mono (Nat.le_add_left m n)).bind fun x => ?_
  rintro _ ⟨⟨k, hk, rfl⟩, hx⟩
  refine (hf x hx _ (hs.dropped k)).mono (fun _ h => h) (fun y s' hs' => ?_)
    (fun e s' he => he.after hk) _ rfl
  obtain ⟨⟨l, hl, rfl⟩, hy⟩ := hs'
  exact ⟨⟨k + l, by omega, s.dropped_dropped k l⟩, hy⟩

/-- Operands taken first, and then something done with them. -/
theorem Takes.bind_orderly {m n : Nat} {a : Effect α} {f : α → Effect β}
    (ha : Takes setup blame m a Q) (hf : ∀ x, Q x → Orderly setup blame n (f x)) :
    Orderly setup blame (n + m) (a >>= f) := by
  intro s hs
  refine ((ha s hs).mono (fun _ h => h) (fun _ _ h => h) fun e s' he =>
    he.mono (Nat.le_add_left m n)).bind fun x => ?_
  rintro _ ⟨⟨k, hk, rfl⟩, hx⟩
  exact (hf x hx _ (hs.dropped k)).mono (fun _ h => h)
    (fun y s' hs' => (s.later_dropped k).trans hs') (fun e s' he => he.after hk) _ rfl

theorem pop_takes (h : blame .underflow) :
    Takes setup blame 1 pop fun v => v.Valid setup.image.constants.length := by
  rintro s hs _ rfl
  rw [perform_pop]
  cases hstack : s.stack with
  | nil => exact spoils_trap h 1 s
  | cons v rest =>
    refine ⟨⟨1, Nat.le_refl 1, ?_⟩, hs v (hstack ▸ List.mem_cons_self ..)⟩
    rw [State.dropped, hstack]
    rfl

theorem popInt_takes (h : blame .underflow)
    (htag : ∀ found, found ≠ .i32 → blame (.wrongTag .i32 found)) :
    Takes setup blame 1 popInt fun _ => True := by
  refine Takes.bind (n := 0) (pop_takes h) fun v _ => ?_
  cases v with
  | i32 n => exact .pure trivial
  | bool b => exact .trap (htag .bool (by decide)) 0
  | str i => exact .trap (htag .str (by decide)) 0

theorem popBool_takes (h : blame .underflow)
    (htag : ∀ found, found ≠ .bool → blame (.wrongTag .bool found)) :
    Takes setup blame 1 popBool fun _ => True := by
  refine Takes.bind (n := 0) (pop_takes h) fun v _ => ?_
  cases v with
  | bool b => exact .pure trivial
  | i32 n => exact .trap (htag .i32 (by decide)) 0
  | str i => exact .trap (htag .str (by decide)) 0

theorem popStr_takes (h : blame .underflow)
    (htag : ∀ found, found ≠ .str → blame (.wrongTag .str found)) :
    Takes setup blame 1 popStr fun i => i < setup.image.constants.length := by
  refine Takes.bind (n := 0) (pop_takes h) fun v hv => ?_
  cases v with
  | str i => exact .pure hv
  | i32 n => exact .trap (htag .i32 (by decide)) 0
  | bool b => exact .trap (htag .bool (by decide)) 0

/-- Looking up a text takes nothing, and fails only if there is none of this number. -/
theorem constant_takes {i : Nat}
    (h : setup.image.constants.length ≤ i →
      blame (.badConstant i setup.image.constants.length)) :
    Takes setup blame 0 (constant i) fun _ => True := by
  rintro s - _ rfl
  rw [perform_constant]
  cases htext : setup.image.constants[i]? with
  | none => exact spoils_trap (h (List.getElem?_eq_none_iff.1 htext)) 0 s
  | some text => exact ⟨⟨0, Nat.le_refl 0, rfl⟩, trivial⟩

theorem load_takes {r : UInt8} (h : blame (.unsetRegister r)) :
    Takes setup blame 0 (load r) fun _ => True := by
  rintro s - _ rfl
  rw [perform_load]
  cases s.register r with
  | none => exact spoils_trap h 0 s
  | some v => exact ⟨⟨0, Nat.le_refl 0, rfl⟩, trivial⟩

/-! ## Doing something -/

theorem Orderly.pure (x : α) : Orderly setup blame 0 (pure x) := by
  rintro s - _ rfl
  exact .refl s

theorem Orderly.trap {cause : Trap} (h : blame cause) :
    Orderly setup blame 0 (trap cause : Effect α) := by
  rintro s - _ rfl
  exact spoils_trap h 0 s

theorem Orderly.modify {f : State → State} (h : ∀ s : State, s.Later (f s)) :
    Orderly setup blame 0 (modify f) := by
  rintro s - _ rfl
  exact h s

theorem push_orderly (v : Value) (h : blame (.overflow setup.maxStack)) :
    Orderly setup blame 0 (push v) := by
  rintro s - _ rfl
  by_cases hfull : setup.maxStack ≤ s.stack.length
  · rw [perform_push_of_full hfull]
    exact spoils_trap h 0 s
  · rw [perform_push_of_room hfull]
    exact ⟨fun _ _ hr => hr, List.prefix_rfl, rfl⟩

theorem store_orderly (r : UInt8) (v : Value) : Orderly setup blame 0 (store r v) := by
  refine Orderly.modify fun s => ⟨fun k hk hs => ?_, List.prefix_rfl, rfl⟩
  show (s.registers.set r.toNat (some v) (register_lt r))[k].isSome
  rw [Vector.getElem_set]
  split
  · rfl
  · exact hs

theorem write_orderly (text : String) : Orderly setup blame 0 (write text) := by
  refine Orderly.modify fun s => ⟨fun _ _ hs => hs, ?_, rfl⟩
  show s.output.toList <+: (s.output.push text).toList
  rw [Array.toList_push]
  exact List.prefix_append ..

theorem jump_orderly {target : Nat}
    (h : setup.image.code.length < target →
      blame (.jumpOutside target setup.image.code.length)) :
    Orderly setup blame 0 (jump target) := by
  rintro s - _ rfl
  rw [perform_jump]
  by_cases htarget : setup.image.code.length < target
  · rw [if_pos htarget]
    exact spoils_trap (h htarget) 0 s
  · rw [if_neg htarget]
    exact ⟨fun _ _ hr => hr, List.prefix_rfl, rfl⟩

end Effect

namespace Machine

open Effect

variable {setup : Setup}

/-! ## Instructions -/

theorem perform_builtin_orderly {blame : Trap → Prop} (b : Builtin)
    (h : 0 < b.arity → blame .underflow)
    (htag : ∀ expected found, b.expects = some expected → found ≠ expected →
      blame (.wrongTag expected found)) :
    Orderly setup blame b.arity b.perform := by
  cases b with
  | printInt =>
    exact (popInt_takes (h Nat.zero_lt_one) fun found => htag _ found rfl).bind_orderly
      fun n _ => write_orderly _
  | printBool =>
    exact (popBool_takes (h Nat.zero_lt_one) fun found => htag _ found rfl).bind_orderly
      fun b _ => write_orderly _
  | printStr =>
    refine (popStr_takes (h Nat.zero_lt_one) fun found => htag _ found rfl).bind_orderly
      fun i hi => ?_
    -- a text on the stack is in the pool
    exact Takes.bind_orderly (n := 0) (constant_takes fun hle => absurd hi (Nat.not_lt.2 hle))
      fun text _ => write_orderly _
  | debug =>
    rintro s hs _ rfl
    have hwrite : Orderly setup blame 0 (write s.describe) := write_orderly s.describe
    exact hwrite s hs s rfl

/-- **An instruction that fails has spoiled some of its operands and done nothing else**, and
fails in one of its ways. -/
theorem execute_orderly (i : Instr) :
    Orderly setup (i.MayFail setup) i.pops (execute BuiltinTable.standard i) := by
  cases i with
  | pushInt n => exact push_orderly _ (.overflow rfl)
  | pushBool b => exact push_orderly _ (.overflow rfl)
  | loadConstant k =>
    exact (constant_takes .badConstant).bind_orderly fun _ _ => push_orderly _ (.overflow rfl)
  | loadRegister r =>
    exact (load_takes .unsetRegister).bind_orderly fun v _ => push_orderly v (.overflow rfl)
  | storeRegister r =>
    exact (pop_takes (.underflow Nat.zero_lt_one)).bind_orderly fun v _ => store_orderly r v
  | arith op =>
    have hint : Takes setup (Instr.MayFail setup (.arith op)) 1 popInt fun _ => True :=
      popInt_takes (.underflow Nat.zero_lt_two) fun _ => .wrongTag rfl
    refine hint.bind_orderly (n := 1) fun b _ => hint.bind_orderly (n := 0) fun a _ => ?_
    cases hresult : op.eval? a b with
    | some n => exact push_orderly _ (.overflow rfl)
    | none =>
      have hop : op = .div ∨ op = .mod := by
        cases op with
        | div => exact .inl rfl
        | mod => exact .inr rfl
        | _ => cases hresult
      exact Orderly.trap (.divisionByZero hop)
  | neg =>
    exact (popInt_takes (.underflow Nat.zero_lt_one) fun _ => .wrongTag rfl).bind_orderly
      fun a _ => push_orderly _ (.overflow rfl)
  | order op =>
    have hint : Takes setup (Instr.MayFail setup (.order op)) 1 popInt fun _ => True :=
      popInt_takes (.underflow Nat.zero_lt_two) fun _ => .wrongTag rfl
    exact hint.bind_orderly (n := 1) fun b _ => hint.bind_orderly (n := 0) fun a _ =>
      push_orderly _ (.overflow rfl)
  | equality negated =>
    have hpop : Takes setup (Instr.MayFail setup (.equality negated)) 1 pop
        fun v => v.Valid setup.image.constants.length := pop_takes (.underflow Nat.zero_lt_two)
    refine hpop.bind_orderly (n := 1) fun b _ => hpop.bind_orderly (n := 0) fun a _ => ?_
    by_cases htag : a.tag = b.tag
    · rw [if_pos htag]
      exact push_orderly _ (.overflow rfl)
    · rw [if_neg htag]
      exact Orderly.trap (.incomparable htag)
  | not =>
    refine (pop_takes (.underflow Nat.zero_lt_one)).bind_orderly (n := 0) fun v _ => ?_
    cases v with
    | bool b => exact push_orderly _ (.overflow rfl)
    | i32 n => exact push_orderly _ (.overflow rfl)
    | str i => exact Orderly.trap .notOfText
  | logic op =>
    have hpop : Takes setup (Instr.MayFail setup (.logic op)) 1 pop
        fun v => v.Valid setup.image.constants.length := pop_takes (.underflow Nat.zero_lt_two)
    refine hpop.bind_orderly (n := 1) fun b _ => hpop.bind_orderly (n := 0) fun a _ => ?_
    -- the two types decide what happens
    cases a with
    | bool x =>
      cases b with
      | bool y => exact push_orderly _ (.overflow rfl)
      | i32 n => exact Orderly.trap (.badLogic (.inl fun h => by cases h))
      | str k => exact Orderly.trap (.badLogic (.inl fun h => by cases h))
    | i32 x =>
      cases b with
      | i32 y => exact push_orderly _ (.overflow rfl)
      | bool y => exact Orderly.trap (.badLogic (.inl fun h => by cases h))
      | str k => exact Orderly.trap (.badLogic (.inl fun h => by cases h))
    | str k => exact Orderly.trap (.badLogic (.inr rfl))
  | jumpIfFalse target =>
    refine (popBool_takes (.underflow Nat.zero_lt_one) fun _ => .wrongTag rfl).bind_orderly
      (n := 0) fun b _ => ?_
    cases b with
    | true => exact Orderly.pure ()
    | false => exact jump_orderly .branchOutside
  | jump target => exact jump_orderly .jumpOutside
  | callBuiltin id =>
    rw [execute, BuiltinTable.standard, Instr.pops]
    cases hid : Builtin.ofId? id.toNat with
    | some b =>
      have hpops : (Instr.callBuiltin id).pops = b.arity := by rw [Instr.pops, hid]; rfl
      have hexpects : (Instr.callBuiltin id).expects = b.expects := by rw [Instr.expects, hid]; rfl
      exact perform_builtin_orderly b (fun h => .underflow (hpops ▸ h))
        fun _ _ h => .wrongTag (hexpects ▸ h)
    | none => exact Orderly.trap (.unknownBuiltin hid)
  | ret => exact Orderly.modify fun s => ⟨fun _ _ hs => hs, List.prefix_rfl, rfl⟩

/-! ## Steps -/

/-- How a step fails, and what it leaves behind. -/
inductive StepFails (setup : Setup) (s : State) : MachineError → State → Prop
  | stopped : s.stopRequested = true → StepFails setup s .stopped s
  | unreadable {cause : Trap} :
      fetch? setup.image.code s.ip = none → cause.Reported setup s.ip →
      StepFails setup s (.trap cause s.ip) { s with offset := s.ip }
  | failed {i : Instr} {cause : Trap} {k : Nat} :
      fetch? setup.image.code s.ip = some i → i.MayFail setup cause → k ≤ i.pops →
      StepFails setup s (.trap cause s.ip) ((begun i s).dropped k)

theorem StepFails.reported {s s' : State} {e : MachineError} (h : StepFails setup s e s') :
    s.Later s' ∧ e.Reported setup s := by
  cases h with
  | stopped hstop => exact ⟨.refl s, hstop⟩
  | unreadable _ hcause => exact ⟨⟨fun _ _ hr => hr, List.prefix_rfl, rfl⟩, hcause⟩
  | failed hfetch hcause _ =>
    exact ⟨⟨fun _ _ hr => hr, List.prefix_rfl, rfl⟩, .instruction hfetch hcause⟩

theorem later_settled (s : State) : s.Later (settled setup s) := by
  rw [settled]
  split
  · exact ⟨fun _ _ hr => hr, List.prefix_rfl, rfl⟩
  · exact .refl s

/-- **A step takes nothing back**, and fails in one of three ways. -/
theorem step_orderly {s : State} (hs : s.StackValid setup) :
    Ensures setup (s = ·) (step BuiltinTable.standard) (fun _ s' => s.Later s')
      (StepFails setup s) := by
  rintro _ rfl
  have hexecute : ∀ i, Ensures setup (begun i s = ·) (execute BuiltinTable.standard i)
      (fun _ s' => (begun i s).Later s') (Spoils (i.MayFail setup) i.pops (begun i s)) :=
    fun i => execute_orderly i (begun i s) hs
  generalize hstep : (step BuiltinTable.standard).perform setup s = stepped
  obtain ⟨r, s'⟩ := stepped
  cases way_of_step hstep with
  | idle _ => exact ⟨fun _ _ hr => hr, List.prefix_rfl, rfl⟩
  | stopped _ _ hstop => exact .stopped hstop
  | unreadable _ hfetch hcause =>
    refine .unreadable hfetch ?_
    rcases hcause with ⟨b, hb, hnone, rfl⟩ | ⟨op, hop, hshort, rfl⟩
    · exact .invalidOpcode hb hnone
    · exact .truncated hop hshort
  | @performed i s₁ _ _ hperformed =>
    have hlater := hexecute i (begun i s) rfl
    rw [hperformed] at hlater
    have hbegun : s.Later (begun i s) := ⟨fun _ _ hr => hr, List.prefix_rfl, rfl⟩
    exact (hbegun.trans hlater).trans (later_settled s₁)
  | @failed i e s' _ hfetch hfailed =>
    have hspoils := hexecute i (begun i s) rfl
    rw [hfailed] at hspoils
    obtain ⟨⟨k, hk, rfl⟩, cause, rfl, hcause⟩ := hspoils
    exact .failed hfetch hcause hk

end Machine
end Octet
