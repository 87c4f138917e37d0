import Octet.Proofs.Machine.Invariant

/-!
# What a trap leaves behind

A host may go on after a failure, so it matters what the machine looks like then.  This file reads
it off the ways in which a step fails (`StepFails`).

A trap names the offset at which the pointer stood.  There are two kinds of them.

* No instruction can be read there.  Then nothing has happened, and the next step fails in the same
  way (`Trap.Unreadable`).
* An instruction was read and fails.  It has been passed and counted, and some of its operands, two
  at most, are gone from the stack.

Nothing else is different: no register, no result and no output, and the machine has not halted
(`State.Trapped`).  The texts of the image are not even part of the state.  A step that obeys a
request to stop leaves everything as it was.
-/

namespace Octet

open Code

/-- The trap says that no instruction can be read. -/
def Trap.Unreadable : Trap → Prop
  | .invalidOpcode _ | .truncated _ => True
  | _ => False

/-- How a state is left by a step that ends in a trap. -/
structure State.Trapped (code : List UInt8) (s : State) (cause : Trap) (s' : State) : Prop where
  registers : s'.registers = s.registers
  result : s'.result = s.result
  halted : s'.halted = s.halted
  output : s'.output = s.output
  stopRequested : s'.stopRequested = s.stopRequested
  /-- Two values at most were taken off the top. -/
  stack : ∃ taken, s.stack = taken ++ s'.stack ∧ taken.length ≤ 2
  /-- Where no instruction can be read, nothing was passed, counted or taken. -/
  unread : cause.Unreadable → s'.ip = s.ip ∧ s'.steps = s.steps ∧ s'.stack = s.stack
  /-- An instruction that was read is passed and counted. -/
  read : ¬ cause.Unreadable → ∃ op, code[s.ip]?.bind Opcode.ofByte? = some op ∧
    s'.ip = s.ip + 1 + op.width ∧ s'.steps = s.steps + 1

namespace Machine

variable {setup : Setup} {s s' : State}

theorem pops_le_two (i : Instr) : i.pops ≤ 2 := by
  cases i with
  | callBuiltin id =>
    rw [Instr.pops]
    cases Builtin.ofId? id.toNat with
    | none => exact Nat.zero_le 2
    | some b => cases b <;> decide
  | _ => simp [Instr.pops]

/-- An instruction that was read does not fail for want of being readable. -/
theorem not_unreadable_of_mayFail {i : Instr} {cause : Trap} (h : i.MayFail setup cause) :
    ¬ cause.Unreadable := by
  cases h <;> exact id

/-- Where no instruction can be read, the trap says so. -/
theorem unreadable_of_reported {cause : Trap} {a : Nat} (h : cause.Reported setup a)
    (hfetch : fetch? setup.image.code a = none) : cause.Unreadable := by
  cases h with
  | invalidOpcode _ _ => exact trivial
  | truncated _ _ => exact trivial
  | instruction hread _ =>
    rw [hfetch] at hread
    cases hread

/-- A step that ends in a trap leaves a trapped state behind. -/
theorem StepFails.trapped {cause : Trap} {offset : Nat}
    (h : StepFails setup s (.trap cause offset) s') :
    offset = s.ip ∧ s.Trapped setup.image.code cause s' := by
  cases h with
  | unreadable hfetch hcause =>
    have hunread := unreadable_of_reported hcause hfetch
    exact ⟨rfl, rfl, rfl, rfl, rfl, rfl, ⟨[], rfl, Nat.zero_le 2⟩, fun _ => ⟨rfl, rfl, rfl⟩,
      fun hread => absurd hunread hread⟩
  | @failed i _ k hfetch hcause hk =>
    have hread := not_unreadable_of_mayFail hcause
    have htaken : (s.stack.take k).length ≤ 2 := by
      rw [List.length_take]
      exact Nat.le_trans (Nat.min_le_left ..) (Nat.le_trans hk (pops_le_two i))
    have hip : s.ip + i.size = s.ip + 1 + i.opcode.width := by
      rw [Instr.size, Nat.add_assoc]
    exact ⟨rfl, rfl, rfl, rfl, rfl, rfl,
      ⟨s.stack.take k, (List.take_append_drop k s.stack).symm, htaken⟩,
      fun hunread => absurd hunread hread, fun _ => ⟨i.opcode, opcode_of_fetch? hfetch, hip, rfl⟩⟩

/-- A step that obeys a request to stop has done nothing. -/
theorem StepFails.eq_of_stopped (h : StepFails setup s .stopped s') : s' = s := by
  cases h with
  | stopped _ => rfl

/-- **What a failed step leaves behind**, whatever the bytes are and whatever a host has done
before.  A trap names the offset at which the step began and leaves a trapped state behind; a step
that obeys a request to stop changes nothing. -/
theorem step_trapped {image : Image} {limit : Int} (hs : Reachable ⟨image, limit⟩ s) :
    (∀ cause offset s',
      (step BuiltinTable.standard).perform ⟨image, limit⟩ s = (.error (.trap cause offset), s') →
      offset = s.ip ∧ s.Trapped image.code cause s') ∧
    ∀ s', (step BuiltinTable.standard).perform ⟨image, limit⟩ s = (.error .stopped, s') →
      s' = s := by
  have hsound : s.Sound ⟨image, limit⟩ (· ≤ image.code.length) := hs.sound (allows_length image.code)
  have hfails : ∀ e s', (step BuiltinTable.standard).perform ⟨image, limit⟩ s = (.error e, s') →
      StepFails ⟨image, limit⟩ s e s' := by
    intro e s' hstep
    have hends := step_orderly hsound.stack s rfl
    rw [hstep] at hends
    exact hends
  exact ⟨fun cause offset s' hstep => (hfails _ s' hstep).trapped,
    fun s' hstep => (hfails _ s' hstep).eq_of_stopped⟩

/-- Code that divides by zero and then ends in the middle of an instruction. -/
def shortImage : Image :=
  ⟨[0x01, 0, 0, 0, 7, 0x01, 0, 0, 0, 0, 0x0f, 0x01, 0], []⟩

/-- That code in front of its division. -/
def dividing : State := ((runFor BuiltinTable.standard 2).perform ⟨shortImage, 2⟩ {}).2

/-- That code behind its division. -/
def divided : State := ((step BuiltinTable.standard).perform ⟨shortImage, 2⟩ dividing).2

theorem step_trapped_division :
    Reachable ⟨shortImage, 2⟩ dividing ∧ Reachable ⟨shortImage, 2⟩ divided ∧
    dividing.Trapped shortImage.code .divisionByZero divided ∧ divided.ip = 11 ∧
    divided.Trapped shortImage.code (.truncated .pushInt) { divided with offset := 11 } := by
  have hdividing : Reachable ⟨shortImage, 2⟩ dividing :=
    .call .start (.run (show (run BuiltinTable.standard 2).perform ⟨shortImage, 2⟩ {} =
      (.ok .exhausted, dividing) from rfl))
  have hdivided : Reachable ⟨shortImage, 2⟩ divided := .call hdividing (.step rfl)
  exact ⟨hdividing, hdivided, ((step_trapped hdividing).1 _ _ _ rfl).2, rfl,
    ((step_trapped hdivided).1 _ _ _ rfl).2⟩

end Machine
end Octet
