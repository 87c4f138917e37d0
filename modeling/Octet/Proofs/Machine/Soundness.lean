import Octet.Proofs.Layout.Targets
import Octet.Proofs.Machine.Ensures

/-!
# States that make sense

The machine may be driven in many ways: a run with a budget or without one, a
single step, a request to stop, in any order, and again after a failure.  What
holds of the state all the way through is `State.Sound`: every word is in its range,
every text is in the pool, the stack is not too high, and the pointer is where it
is allowed to be.

Where the pointer is allowed to be is left open.  For any code it cannot leave the
code; for code that comes from a program it cannot leave the boundaries of the
instructions either.  Both are instances of the same invariant, since the pointer
moves in two ways only: behind the instruction that is performed, and to the target
of a jump.

A failure that shows the code itself to be broken is a `Trap.Corrupt` one.  An
instruction whose operand refers to something cannot fail like that
(`execute_sound`).
-/

namespace Octet

open Code Effect

/-- The value is in the range of its type. -/
def Value.Valid (size : Nat) : Value → Prop
  | .i32 n => Word32.least ≤ n ∧ n ≤ Word32.greatest
  | .bool _ => True
  | .str i => i < size

theorem Value.valid_ofInt (size : Nat) (n : Int) : (Value.ofInt n).Valid size :=
  Word32.wrap_mem n

/-- A failure that only broken code has. -/
def Trap.Corrupt : Trap → Prop
  | .badConstant .. | .invalidOpcode _ | .truncated _ | .jumpOutside .. | .unknownBuiltin _ => True
  | _ => False

/-- An error that only broken code has. -/
def MachineError.Corrupt : MachineError → Prop
  | .trap cause _ => cause.Corrupt
  | .stopped => False

/-- The state makes sense, and its pointer is where it may be. -/
structure State.Sound (setup : Setup) (good : Nat → Prop) (s : State) : Prop where
  ip : good s.ip
  height : (s.stack.length : Int) ≤ max 0 setup.maxStack
  stack : ∀ v ∈ s.stack, v.Valid setup.image.constants.length
  registers : ∀ (r : Nat) (hr : r < maxRegisters) (v : Value), s.registers[r] = some v →
    v.Valid setup.image.constants.length
  result : ∀ v, s.result = some v → v.Valid setup.image.constants.length

namespace State

variable {setup : Setup} {good : Nat → Prop}

theorem sound_start (h : good 0) : ({} : State).Sound setup good where
  ip := h
  height := Int.le_max_left ..
  stack := fun _ hv => absurd hv List.not_mem_nil
  registers := fun r hr v hv => by
    rw [Vector.getElem_replicate] at hv
    cases hv
  result := fun _ hv => by cases hv

end State

namespace Machine

variable {setup : Setup} {good : Nat → Prop}

/-- An effect keeps the state sound.  What it yields is described by `Q`, and its
failures are not those of broken code if `harmless` holds. -/
def KeepsSound (setup : Setup) (good : Nat → Prop) (harmless : Prop) {α : Type} (a : Effect α)
    (Q : α → Prop) : Prop :=
  Ensures setup (State.Sound setup good) a (fun x s => s.Sound setup good ∧ Q x)
    fun e s => s.Sound setup good ∧ (harmless → ¬ e.Corrupt)

namespace KeepsSound

variable {harmless : Prop} {α β : Type} {Q : α → Prop} {R : β → Prop}

theorem pure {x : α} (h : Q x) : KeepsSound setup good harmless (pure x) Q :=
  Ensures.pure x fun _ hs => ⟨hs, h⟩

theorem bind {a : Effect α} {f : α → Effect β} (ha : KeepsSound setup good harmless a Q)
    (hf : ∀ x, Q x → KeepsSound setup good harmless (f x) R) :
    KeepsSound setup good harmless (a >>= f) R :=
  Ensures.bind ha fun x s hs => hf x hs.2 s hs.1

theorem trap {cause : Trap} (h : harmless → ¬ cause.Corrupt) :
    KeepsSound setup good harmless (trap cause : Effect α) Q :=
  Ensures.trap fun _ hs => ⟨hs, h⟩

theorem modify {f : State → State} (h : ∀ s, s.Sound setup good → (f s).Sound setup good) :
    KeepsSound setup good harmless (modify f) fun _ => True :=
  Ensures.modify fun s hs => ⟨h s hs, trivial⟩

end KeepsSound

variable {harmless : Prop}

theorem push_sound {v : Value} (hv : v.Valid setup.image.constants.length) :
    KeepsSound setup good harmless (push v) fun _ => True := by
  intro s hs
  by_cases hfull : setup.maxStack ≤ s.stack.length
  · rw [perform_push_of_full hfull]
    exact ⟨hs, fun _ => id⟩
  · rw [perform_push_of_room hfull]
    have hroom : ((v :: s.stack).length : Int) ≤ max 0 setup.maxStack := by
      rw [List.length_cons]
      omega
    have hvalid : ∀ u ∈ v :: s.stack, u.Valid setup.image.constants.length := by
      intro u hu
      rcases List.mem_cons.1 hu with rfl | hu
      · exact hv
      · exact hs.stack u hu
    exact ⟨{ hs with height := hroom, stack := hvalid }, trivial⟩

theorem pop_sound : KeepsSound setup good harmless pop
    fun v => v.Valid setup.image.constants.length := by
  intro s hs
  rw [perform_pop]
  cases hstack : s.stack with
  | nil => exact ⟨hs, fun _ => id⟩
  | cons v rest =>
    have hvalid := hs.stack
    have hheight := hs.height
    rw [hstack] at hvalid hheight
    rw [List.length_cons] at hheight
    have hrest : ∀ u ∈ rest, u.Valid setup.image.constants.length :=
      fun u hu => hvalid u (List.mem_cons_of_mem _ hu)
    have hlower : (rest.length : Int) ≤ max 0 setup.maxStack := by omega
    exact ⟨{ hs with height := hlower, stack := hrest }, hvalid v (List.mem_cons_self ..)⟩

theorem popInt_sound : KeepsSound setup good harmless popInt fun _ => True := by
  refine pop_sound.bind fun v _ => ?_
  cases v with
  | i32 n => exact KeepsSound.pure trivial
  | bool b => exact KeepsSound.trap fun _ => id
  | str i => exact KeepsSound.trap fun _ => id

theorem popBool_sound : KeepsSound setup good harmless popBool fun _ => True := by
  refine pop_sound.bind fun v _ => ?_
  cases v with
  | bool b => exact KeepsSound.pure trivial
  | i32 n => exact KeepsSound.trap fun _ => id
  | str i => exact KeepsSound.trap fun _ => id

theorem popStr_sound : KeepsSound setup good harmless popStr
    fun i => i < setup.image.constants.length := by
  refine pop_sound.bind fun v hv => ?_
  cases v with
  | str i => exact KeepsSound.pure hv
  | i32 n => exact KeepsSound.trap fun _ => id
  | bool b => exact KeepsSound.trap fun _ => id

/-- Looking up a text fails only if there is none of this number. -/
theorem constant_sound {i : Nat} (h : harmless → i < setup.image.constants.length) :
    KeepsSound setup good harmless (constant i) fun _ => i < setup.image.constants.length := by
  intro s hs
  rw [perform_constant]
  cases htext : setup.image.constants[i]? with
  | none =>
    refine ⟨hs, fun hharmless => ?_⟩
    exact absurd (h hharmless) (Nat.not_lt.2 (List.getElem?_eq_none_iff.1 htext))
  | some text => exact ⟨hs, (List.getElem?_eq_some_iff.1 htext).1⟩

theorem load_sound (r : UInt8) : KeepsSound setup good harmless (load r)
    fun v => v.Valid setup.image.constants.length := by
  intro s hs
  rw [perform_load]
  cases hv : s.register r with
  | none => exact ⟨hs, fun _ => id⟩
  | some v => exact ⟨hs, hs.registers r.toNat (register_lt r) v hv⟩

theorem store_sound (r : UInt8) {v : Value} (hv : v.Valid setup.image.constants.length) :
    KeepsSound setup good harmless (store r v) fun _ => True := by
  refine KeepsSound.modify fun s hs => ?_
  have hregisters : ∀ (k : Nat) (hk : k < maxRegisters) (u : Value),
      (s.registers.set r.toNat (some v) (register_lt r))[k] = some u →
      u.Valid setup.image.constants.length := by
    intro k hk u hu
    rw [Vector.getElem_set] at hu
    split at hu
    · cases hu
      exact hv
    · exact hs.registers k hk u hu
  exact { hs with registers := hregisters }

/-- A jump fails only if its target is outside of the code. -/
theorem jump_sound {target : Nat} (hgood : target ≤ setup.image.code.length → good target)
    (h : harmless → target ≤ setup.image.code.length) :
    KeepsSound setup good harmless (jump target) fun _ => True := by
  intro s hs
  rw [perform_jump]
  by_cases htarget : setup.image.code.length < target
  · rw [if_pos htarget]
    exact ⟨hs, fun hharmless => absurd (h hharmless) (Nat.not_le.2 htarget)⟩
  · rw [if_neg htarget]
    exact ⟨{ hs with ip := hgood (Nat.le_of_not_lt htarget) }, trivial⟩

theorem write_sound (text : String) :
    KeepsSound setup good harmless (write text) fun _ => True :=
  KeepsSound.modify fun _ hs => { hs with }

/-! ## Instructions -/

theorem perform_builtin_sound (b : Builtin) :
    KeepsSound setup good harmless b.perform fun _ => True := by
  cases b with
  | printInt => exact popInt_sound.bind fun n _ => write_sound _
  | printBool => exact popBool_sound.bind fun b _ => write_sound _
  | printStr =>
    exact popStr_sound.bind fun i hi =>
      (constant_sound fun _ => hi).bind fun text _ => write_sound _
  | debug => exact fun s hs => ⟨{ hs with }, trivial⟩

theorem not_sound : KeepsSound setup good harmless (execute BuiltinTable.standard .not)
    fun _ => True := by
  refine pop_sound.bind fun v _ => ?_
  cases v with
  | bool b => exact push_sound trivial
  | i32 n => exact push_sound (Value.valid_ofInt ..)
  | str i => exact KeepsSound.trap fun _ => id

theorem logic_sound (op : LogicOp) :
    KeepsSound setup good harmless (execute BuiltinTable.standard (.logic op)) fun _ => True := by
  refine pop_sound.bind fun b _ => pop_sound.bind fun a _ => ?_
  -- the two types decide what happens
  cases a with
  | bool x =>
    cases b with
    | bool y => exact push_sound trivial
    | i32 n => exact KeepsSound.trap fun _ => id
    | str i => exact KeepsSound.trap fun _ => id
  | i32 x =>
    cases b with
    | i32 y => exact push_sound (Value.valid_ofInt ..)
    | bool y => exact KeepsSound.trap fun _ => id
    | str i => exact KeepsSound.trap fun _ => id
  | str i => exact KeepsSound.trap fun _ => id

theorem ret_sound : KeepsSound setup good harmless (execute BuiltinTable.standard .ret)
    fun _ => True := by
  refine KeepsSound.modify fun s hs => ?_
  have hheight : (s.stack.tail.length : Int) ≤ max 0 setup.maxStack := by
    have := hs.height
    rw [List.length_tail]
    omega
  have hstack : ∀ v ∈ s.stack.tail, v.Valid setup.image.constants.length :=
    fun v hv => hs.stack v (List.mem_of_mem_tail hv)
  have hresult : ∀ v, s.stack.head? = some v → v.Valid setup.image.constants.length :=
    fun v hv => hs.stack v (List.mem_of_mem_head? hv)
  exact { hs with height := hheight, stack := hstack, result := hresult }

/-- **An instruction keeps the state sound**, and fails like broken code only if its
operand refers to nothing. -/
theorem execute_sound (registers : List String) (i : Instr)
    (hgood : ∀ a : UInt8, i = .jump a ∨ i = .jumpIfFalse a →
      a.toNat ≤ setup.image.code.length → good a.toNat) :
    KeepsSound setup good
      (i.Refers ⟨setup.image.constants, registers⟩ (· ≤ setup.image.code.length))
      (execute BuiltinTable.standard i) fun _ => True := by
  cases i with
  | pushInt n => exact push_sound (Value.valid_ofInt ..)
  | pushBool b => exact push_sound trivial
  | loadConstant i =>
    exact (constant_sound fun h => h).bind fun _ hi => push_sound hi
  | loadRegister r => exact (load_sound r).bind fun v hv => push_sound hv
  | storeRegister r => exact pop_sound.bind fun v hv => store_sound r hv
  | arith op =>
    refine popInt_sound.bind fun b _ => popInt_sound.bind fun a _ => ?_
    cases op.eval? a b with
    | some n => exact push_sound (Value.valid_ofInt ..)
    | none => exact KeepsSound.trap fun _ => id
  | neg => exact popInt_sound.bind fun a _ => push_sound (Value.valid_ofInt ..)
  | order op => exact popInt_sound.bind fun b _ => popInt_sound.bind fun a _ => push_sound trivial
  | equality negated =>
    refine pop_sound.bind fun b _ => pop_sound.bind fun a _ => ?_
    by_cases htag : a.tag = b.tag
    · rw [if_pos htag]
      exact push_sound trivial
    · rw [if_neg htag]
      exact KeepsSound.trap fun _ => id
  | not => exact not_sound
  | logic op => exact logic_sound op
  | jumpIfFalse target =>
    refine popBool_sound.bind fun b _ => ?_
    cases b with
    | true => exact KeepsSound.pure trivial
    | false => exact jump_sound (hgood target (.inr rfl)) id
  | jump target => exact jump_sound (hgood target (.inl rfl)) id
  | callBuiltin id =>
    rw [execute, BuiltinTable.standard]
    cases hid : Builtin.ofId? id.toNat with
    | some b => exact perform_builtin_sound b
    | none =>
      refine KeepsSound.trap fun hrefers => ?_
      rw [Instr.Refers, hid] at hrefers
      cases hrefers
  | ret => exact ret_sound

end Machine
end Octet
