import Octet.Proofs.Machine.Levelled
import Octet.Proofs.Machine.Movement

/-!
# Which registers are written

A load fails if nothing was stored in its register.  Whether something was depends on how the
machine got to the load, and there may be many ways: through either block of a conditional, or
around a loop any number of times.  A statement about every way would have to follow them to the
end, and a loop has none.

So the ways are cut off.  `Covered code n a written` looks at the code alone and says: from the
address `a`, with the registers `written`, the next `n` instructions read no register that was not
written, whichever way they go.  For no instructions at all there is nothing to say, which is where
an induction around a loop begins, and the more registers are written the better
(`Covered.mono`).  Nothing is known about the values on the stack, so every jump may be taken or
not; even the instruction behind a jump that is always taken is looked at.

A machine of which this holds for every number of instructions, with the registers that really are
written, can make a step, and it holds again (`step_covered`).
-/

namespace Octet

open Code Effect

/-- The next instructions from an address read no register that was not written, whichever way
they go. -/
def Covered (code : List UInt8) : Nat → Nat → (UInt8 → Prop) → Prop
  | 0, _, _ => True
  | n + 1, a, written => ∀ i, fetch? code a = some i →
      (∀ r, i = .loadRegister r → written r) ∧
      Covered code n (a + i.size) (fun r => r ∈ i.stores ∨ written r) ∧
      ∀ t, i.target? = some t → Covered code n t written

namespace Covered

variable {code : List UInt8} {n a : Nat} {written written' : UInt8 → Prop}

theorem mono (h : Covered code n a written) (hsub : ∀ r, written r → written' r) :
    Covered code n a written' := by
  induction n generalizing a written written' with
  | zero => trivial
  | succ n ih =>
    intro i hi
    obtain ⟨hload, hnext, htarget⟩ := h i hi
    refine ⟨fun r hr => hsub r (hload r hr), ih hnext fun r => Or.imp_right (hsub r), fun t ht => ?_⟩
    exact ih (htarget t ht) hsub

/-- Fewer instructions read less. -/
theorem fewer (h : Covered code (n + 1) a written) : Covered code n a written := by
  induction n generalizing a written with
  | zero => trivial
  | succ n ih =>
    intro i hi
    obtain ⟨hload, hnext, htarget⟩ := h i hi
    exact ⟨hload, ih hnext, fun t ht => ih (htarget t ht)⟩

/-- One instruction in front of others, which is counted. -/
theorem step {i : Instr} (hi : fetch? code a = some i)
    (hload : ∀ r, i = .loadRegister r → written r)
    (hnext : Covered code n (a + i.size) fun r => r ∈ i.stores ∨ written r)
    (htarget : ∀ t, i.target? = some t → Covered code n t written) :
    Covered code (n + 1) a written := by
  intro j hj
  rw [hi] at hj
  cases hj
  exact ⟨hload, hnext, htarget⟩

/-- One instruction in front of others. -/
theorem cons {i : Instr} (hi : fetch? code a = some i)
    (hload : ∀ r, i = .loadRegister r → written r)
    (hnext : Covered code n (a + i.size) fun r => r ∈ i.stores ∨ written r)
    (htarget : ∀ t, i.target? = some t → Covered code n t written) :
    Covered code n a written :=
  (step hi hload hnext htarget).fewer

/-- Where the code has ended nothing is read. -/
theorem of_end (code : List UInt8) (n : Nat) (written : UInt8 → Prop) :
    Covered code n code.length written := by
  cases n with
  | zero => trivial
  | succ n =>
    intro i hi
    exact absurd (lt_of_fetch? hi) (Nat.lt_irrefl _)

end Covered

namespace Machine

variable {setup : Setup} {s s' : State}

/-- However far the machine goes, it reads no register that was not written. -/
def ReadsWritten (setup : Setup) (s : State) : Prop :=
  ∀ n, Covered setup.image.code n s.ip fun r => (s.register r).isSome

/-- The failure is not for want of a register, and if it is no instruction's then the machine can go
on. -/
def FailsOtherwise (setup : Setup) (e : MachineError) (s : State) : Prop :=
  (∀ r a, e ≠ .trap (.unsetRegister r) a) ∧ ((∀ cause a, e ≠ .trap cause a) → ReadsWritten setup s)

/-- **A machine that reads what was written goes on to do so**, unless an instruction fails, and
then it is not for want of a register. -/
theorem step_covered : Ensures setup (ReadsWritten setup) (step BuiltinTable.standard)
    (fun _ => ReadsWritten setup) (FailsOtherwise setup) := by
  intro s hs
  generalize hstep : (step BuiltinTable.standard).perform setup s = stepped
  obtain ⟨r, s'⟩ := stepped
  cases step_stepped hstep with
  | idle _ => exact hs
  | stopped _ => exact ⟨by simp, fun _ => hs⟩
  | unreadable _ _ hcause =>
    refine ⟨fun r a he => hcause r ?_, fun htrap => absurd rfl (htrap _ _)⟩
    injection he
  | @performed i s₁ _ hfetch hleads =>
    intro n
    obtain ⟨-, hnext, htarget⟩ := hs (n + 1) i hfetch
    rw [settled_ip]
    rcases hleads.ip with hip | hjump
    · rw [hip]
      refine hnext.mono fun r hr => ?_
      rw [register_settled]
      exact hleads.registers r hr.symm
    · refine (htarget _ hjump).mono fun r hr => ?_
      rw [register_settled]
      exact hleads.registers r (.inl hr)
  | @failed i e _ _ hfetch hgives =>
    refine ⟨fun r a he => ?_, fun htrap => ?_⟩
    · obtain ⟨hload, hunset⟩ := hgives.unset r a he
      have hwritten : (s.register r).isSome := (hs 1 i hfetch).1 r hload
      have hnone : s.register r = none := hunset
      simp [hnone] at hwritten
    · cases e with
      | trap cause a => exact absurd rfl (htrap cause a)
      | stopped => exact absurd rfl hgives.trap

/-- **A call does not fail for want of a register**, and unless it fails in an instruction the
machine goes on to read what was written. -/
theorem Call.Ends.covered {c : Call} {r : Except MachineError Answer} (hs : ReadsWritten setup s)
    (hends : c.Ends setup s r s') :
    (∀ q a, r ≠ .error (.trap (.unsetRegister q) a)) ∧
      ((∀ cause a, r ≠ .error (.trap cause a)) → ReadsWritten setup s') := by
  obtain ⟨hok, herror⟩ := hends.ensures step_covered
    (resultValue_ensures fun _ _ _ _ _ => ⟨by simp, fun htrap => absurd rfl (htrap _ _)⟩)
    (fun _ hs => hs) hs
  cases r with
  | ok x => exact ⟨nofun, fun _ => hok x rfl⟩
  | error e =>
    obtain ⟨hunset, hgoesOn⟩ := herror e rfl
    refine ⟨fun q a he => hunset q a ?_, fun htrap => hgoesOn fun cause a he => htrap cause a ?_⟩
    · injection he
    · rw [he]

/-- As long as no instruction has failed, the machine reads what was written. -/
theorem Unharmed.covered (hstart : ReadsWritten setup {}) (hs : Unharmed setup s) :
    ReadsWritten setup s := by
  induction hs with
  | start => exact hstart
  | call _ hends htrap ih => exact (hends.covered ih).2 htrap

end Machine
end Octet
