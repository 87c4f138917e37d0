import Octet.Proofs.Machine.Runs
import Octet.Proofs.Meaning.Matching

/-!
# Stretches of code that do what a meaning says

A simulation of single instructions becomes one of programs by putting steps
together.

## Where a stretch of code leads

A part of a tree without statements is left at one address.  A statement is left in
one of several ways, and `Arrives` has a case for each of them: it goes on behind the
statement, or behind the innermost loop, or it has ended the program, or it has
failed.  If the meaning is not finished because a loop has turned too often, the
machine has made at least that many steps and has written the same.  That is all one
can say then, and it is enough, since the machine is not finished either.

## The end of the code

A machine halts as soon as its pointer is at the end of the code, with one exception:
if there is no code at all, it is there from the beginning and has not halted yet.
`At` allows for both.
-/

namespace Octet
namespace Machine

open Code Effect

variable {setup : Setup} {s s₁ s₂ : State}

/-! ## Addresses -/

/-- The machine is at an address, and has halted only if the code ends there. -/
structure At (setup : Setup) (a : Nat) (s : State) : Prop where
  ip : s.ip = a
  halted : s.halted = true → setup.image.code.length ≤ a

theorem At.running {a : Nat} (h : At setup a s) (ha : a < setup.image.code.length) :
    s.halted = false := by
  by_contra hhalted
  have := h.halted (Bool.not_eq_false _ ▸ hhalted)
  omega

/-- A step ends where the instruction left the pointer. -/
theorem at_settled (h : s.halted = false) : At setup s.ip (settled setup s) := by
  unfold settled
  by_cases hend : setup.image.code.length ≤ s.ip
  · rw [if_pos hend]
    exact ⟨rfl, fun _ => hend⟩
  · rw [if_neg hend]
    exact ⟨rfl, fun hhalted => absurd (h.symm.trans hhalted) Bool.false_ne_true⟩

theorem matches_settled {t : Tables} {w : World} (h : Matches t w s) :
    Matches t w (settled setup s) := by
  unfold settled
  split
  · exact { h with }
  · exact h

/-- The machine performs the instruction at its address. -/
theorem step_at {a : Nat} {i : Instr} (hat : At setup a s) (hquiet : s.stopRequested = false)
    (hfetch : fetch? setup.image.code a = some i) :
    s.halted = false ∧ (Machine.step BuiltinTable.standard).perform setup s =
      match (execute BuiltinTable.standard i).perform setup (begun i s) with
      | (.ok _, s') => (.ok (!(settled setup s').halted), settled setup s')
      | (.error e, s') => (.error e, s') := by
  have hrunning := hat.running (lt_of_fetch? hfetch)
  refine ⟨hrunning, ?_⟩
  rw [step_of_fetch hrunning hquiet (by rw [hat.ip]; exact hfetch), perform_bind]
  rcases (execute BuiltinTable.standard i).perform setup (begun i s) with ⟨e | u, s'⟩ <;> rfl

/-! ## Ways to leave a stretch of code -/

/-- The machine fails after some steps, for a given reason and with a given output. -/
def Crashes (setup : Setup) (t : Tables) (s : State) (f : Fault) (output : Array String) :
    Prop :=
  ∃ n s₁ s₂ cause offset, Steps setup n s s₁ ∧ s₁.halted = false ∧
    (Machine.step BuiltinTable.standard).perform setup s₁ = (.error (.trap cause offset), s₂) ∧
    cause.fault? t.registers = some f ∧ output = s₂.output

/-- The machine gets to the address that belongs to what the meaning yields, or fails
with it. -/
inductive Goes {α : Type} (setup : Setup) (t : Tables) (stop : α → Nat) (s : State) :
    Except Fault α × World → Prop
  | ok {x : α} {n : Nat} {w' : World} {s' : State} (hsteps : Steps setup n s s')
      (hat : At setup (stop x) s') (hmatches : Matches t w' s') : Goes setup t stop s (.ok x, w')
  | error {f : Fault} {w' : World} (h : Crashes setup t s f w'.output) :
      Goes setup t stop s (.error f, w')

/-- The machine leaves a statement as its meaning does. -/
inductive Arrives (setup : Setup) (t : Tables) (fuel stop : Nat) (loopEnd : Option Nat)
    (s : State) : Except Fault Flow × World → Prop
  | next {n : Nat} {w' : World} {s' : State} (hsteps : Steps setup n s s')
      (hat : At setup stop s') (hmatches : Matches t w' s') :
      Arrives setup t fuel stop loopEnd s (.ok .next, w')
  | left {n a : Nat} {w' : World} {s' : State} (hend : loopEnd = some a)
      (hsteps : Steps setup n s s') (hat : At setup a s') (hmatches : Matches t w' s') :
      Arrives setup t fuel stop loopEnd s (.ok .left, w')
  | ended {n : Nat} {value : Option Datum} {w' : World} {s' : State}
      (hsteps : Steps setup n s s') (hhalted : s'.halted = true)
      (hresult : Option.Rel (Held t) value s'.result) (houtput : w'.output = s'.output) :
      Arrives setup t fuel stop loopEnd s (.ok (.ended value), w')
  | unfinished {n : Nat} {w' : World} {s' : State} (hfuel : fuel ≤ n)
      (hsteps : Steps setup n s s') (hrunning : s'.halted = false)
      (houtput : w'.output = s'.output) :
      Arrives setup t fuel stop loopEnd s (.ok .unfinished, w')
  | failed {f : Fault} {w' : World} (h : Crashes setup t s f w'.output) :
      Arrives setup t fuel stop loopEnd s (.error f, w')

variable {t : Tables} {α β : Type}

theorem Crashes.after {n : Nat} (h : Steps setup n s s₁) {f : Fault} {output : Array String}
    (hcrash : Crashes setup t s₁ f output) : Crashes setup t s f output := by
  obtain ⟨m, s', s'', cause, offset, hsteps, hrest⟩ := hcrash
  exact ⟨n + m, s', s'', cause, offset, h.trans hsteps, hrest⟩

theorem Goes.after {n : Nat} (h : Steps setup n s s₁) {stop : α → Nat}
    {r : Except Fault α × World} (hgoes : Goes setup t stop s₁ r) : Goes setup t stop s r := by
  cases hgoes with
  | ok hsteps hat hmatches => exact .ok (h.trans hsteps) hat hmatches
  | error hcrash => exact .error (hcrash.after h)

/-- More steps in front, and perhaps more fuel. -/
theorem Arrives.after {n fuel fuel' stop : Nat} (h : Steps setup n s s₁) {loopEnd : Option Nat}
    {r : Except Fault Flow × World} (harrives : Arrives setup t fuel stop loopEnd s₁ r)
    (hfuel : fuel' ≤ n + fuel) : Arrives setup t fuel' stop loopEnd s r := by
  cases harrives with
  | next hsteps hat hmatches => exact .next (h.trans hsteps) hat hmatches
  | left hend hsteps hat hmatches => exact .left hend (h.trans hsteps) hat hmatches
  | ended hsteps hhalted hresult houtput =>
    exact .ended (h.trans hsteps) hhalted hresult houtput
  | unfinished hmany hsteps hrunning houtput =>
    exact .unfinished (by omega) (h.trans hsteps) hrunning houtput
  | failed hcrash => exact .failed (hcrash.after h)

/-- One part after another. -/
theorem Goes.bind {stop : α → Nat} {stop' : β → Nat} {m : Meaning α} {k : α → Meaning β}
    {w : World} (h : Goes setup t stop s (m.perform setup.maxStack w))
    (hk : ∀ x w' s', At setup (stop x) s' → Matches t w' s' →
      Goes setup t stop' s' ((k x).perform setup.maxStack w')) :
    Goes setup t stop' s ((m >>= k).perform setup.maxStack w) := by
  rw [Meaning.perform_bind]
  generalize m.perform setup.maxStack w = r at h ⊢
  cases h with
  | ok hsteps hat hmatches => exact (hk _ _ _ hat hmatches).after hsteps
  | error hcrash => exact .error hcrash

/-- A part without statements, and a statement after it. -/
theorem Goes.bind_arrives {stop : α → Nat} {fuel last : Nat} {loopEnd : Option Nat}
    {m : Meaning α} {k : α → Meaning Flow} {w : World}
    (h : Goes setup t stop s (m.perform setup.maxStack w))
    (hk : ∀ x w' s', At setup (stop x) s' → Matches t w' s' →
      Arrives setup t fuel last loopEnd s' ((k x).perform setup.maxStack w')) :
    Arrives setup t fuel last loopEnd s ((m >>= k).perform setup.maxStack w) := by
  rw [Meaning.perform_bind]
  generalize m.perform setup.maxStack w = r at h ⊢
  cases h with
  | ok hsteps hat hmatches =>
    exact (hk _ _ _ hat hmatches).after hsteps (Nat.le_add_left ..)
  | error hcrash => exact .failed hcrash

/-- One statement after another. -/
theorem Arrives.bind {fuel stop last : Nat} {loopEnd : Option Nat} {m rest : Meaning Flow}
    {w : World} (h : Arrives setup t fuel stop loopEnd s (m.perform setup.maxStack w))
    (hrest : ∀ w' s', At setup stop s' → Matches t w' s' →
      Arrives setup t fuel last loopEnd s' (rest.perform setup.maxStack w')) :
    Arrives setup t fuel last loopEnd s
      ((m >>= fun flow => flow.followedBy rest).perform setup.maxStack w) := by
  rw [Meaning.perform_bind]
  generalize m.perform setup.maxStack w = r at h ⊢
  cases h with
  | next hsteps hat hmatches =>
    exact (hrest _ _ hat hmatches).after hsteps (Nat.le_add_left ..)
  | left hend hsteps hat hmatches => exact .left hend hsteps hat hmatches
  | ended hsteps hhalted hresult houtput => exact .ended hsteps hhalted hresult houtput
  | unfinished hfuel hsteps hrunning houtput =>
    exact .unfinished hfuel hsteps hrunning houtput
  | failed hcrash => exact .failed hcrash

/-! ## Single instructions -/

section

variable {a : Nat} {w : World}

/-- The state in which an instruction is performed matches as well. -/
theorem matches_begun (h : Matches t w s) (i : Instr) : Matches t w (begun i s) :=
  { h with }

/-- An instruction that does what a meaning says gets the machine behind it. -/
theorem goes_of_simulates {i : Instr} {m : Meaning Unit}
    (h : Simulates setup t Same m (execute BuiltinTable.standard i)) (hat : At setup a s)
    (hmatches : Matches t w s) (hfetch : fetch? setup.image.code a = some i) :
    Goes setup t (fun _ => a + i.size) s (m.perform setup.maxStack w) := by
  obtain ⟨hrunning, hstep⟩ := step_at hat hmatches.quiet hfetch
  have hend := h w (begun i s) (matches_begun hmatches i)
  generalize m.perform setup.maxStack w = r at hend ⊢
  generalize (execute BuiltinTable.standard i).perform setup (begun i s) = r' at hstep hend
  cases hend with
  | error hcause houtput =>
    exact .error ⟨0, s, _, _, _, .refl s, hrunning, hstep, hcause, houtput⟩
  | @ok _ _ w' s' _ hmatches' hip hhalted =>
    refine .ok (.single hrunning hstep) ?_ (matches_settled hmatches')
    have hbehind : s'.ip = a + i.size := by
      rw [hip, begun, hat.ip]
    rw [← hbehind]
    exact at_settled (hhalted.trans hrunning)

/-- A jump gets the machine to its target. -/
theorem steps_jump {target : UInt8} (hat : At setup a s) (hmatches : Matches t w s)
    (hfetch : fetch? setup.image.code a = some (.jump target))
    (htarget : target.toNat ≤ setup.image.code.length) :
    ∃ s', Steps setup 1 s s' ∧ At setup target.toNat s' ∧ Matches t w s' := by
  obtain ⟨hrunning, hstep⟩ := step_at hat hmatches.quiet hfetch
  rw [execute, perform_jump, if_neg (Nat.not_lt.2 htarget)] at hstep
  refine ⟨_, .single hrunning hstep, ?_, matches_settled { hmatches with }⟩
  exact at_settled (s := { begun (.jump target) s with ip := target.toNat }) hrunning

/-- A branch gets the machine behind it or to its target, as its condition has it. -/
theorem goes_branch {target : UInt8} (hat : At setup a s) (hmatches : Matches t w s)
    (hfetch : fetch? setup.image.code a = some (.jumpIfFalse target))
    (htarget : target.toNat ≤ setup.image.code.length) :
    Goes setup t (fun b => if b then a + 2 else target.toNat) s
      (Meaning.popBool.perform setup.maxStack w) := by
  obtain ⟨hrunning, hstep⟩ := step_at hat hmatches.quiet hfetch
  rw [execute, perform_bind] at hstep
  have hpop : Simulates setup t Same Meaning.popBool popBool := simulates_popBool
  have hend := hpop w (begun (.jumpIfFalse target) s) (matches_begun hmatches _)
  generalize Meaning.popBool.perform setup.maxStack w = r at hend ⊢
  generalize popBool.perform setup (begun (.jumpIfFalse target) s) = r' at hstep hend
  cases hend with
  | error hcause houtput =>
    exact .error ⟨0, s, _, _, _, .refl s, hrunning, hstep, hcause, houtput⟩
  | @ok b b' w' s' hvalue hmatches' hip hhalted =>
    obtain rfl : b = b' := hvalue
    have hgoing : s'.halted = false := hhalted.trans hrunning
    cases b with
    | true =>
      have hbehind : s'.ip = a + 2 := by
        rw [hip, begun, hat.ip]
        rfl
      refine .ok (.single hrunning hstep) ?_ (matches_settled hmatches')
      rw [if_pos rfl, ← hbehind]
      exact at_settled hgoing
    | false =>
      have hjump : (jump target.toNat).perform setup s' =
          (.ok (), { s' with ip := target.toNat }) := by
        rw [perform_jump, if_neg (Nat.not_lt.2 htarget)]
      simp only [Bool.false_eq_true, if_false, hjump] at hstep
      refine .ok (.single hrunning hstep) ?_ (matches_settled { hmatches' with })
      exact at_settled (s := { s' with ip := target.toNat }) hgoing

/-- The end of the program takes its result from the top of the stack. -/
theorem arrives_ret {fuel stop : Nat} {loopEnd : Option Nat} (hat : At setup a s)
    (hmatches : Matches t w s) (hfetch : fetch? setup.image.code a = some .ret) :
    Arrives setup t fuel stop loopEnd s (Meaning.finish.perform setup.maxStack w) := by
  obtain ⟨hrunning, hstep⟩ := step_at hat hmatches.quiet hfetch
  have hperform : (execute BuiltinTable.standard .ret).perform setup (begun .ret s) =
      (.ok (), { begun .ret s with
        stack := s.stack.tail, result := s.stack.head?, halted := true }) := rfl
  rw [hperform] at hstep
  have hend : Meaning.finish.perform setup.maxStack w =
      (.ok (.ended w.stack.head?), { w with stack := w.stack.tail }) := rfl
  rw [hend]
  refine .ended (.single hrunning hstep) ?_ ?_ ?_
  · unfold settled
    split <;> rfl
  · have hhead : Option.Rel (Held t) w.stack.head? s.stack.head? := by
      have hstack := hmatches.stack
      generalize w.stack = ds at hstack ⊢
      generalize s.stack = vs at hstack ⊢
      cases hstack with
      | nil => exact .none
      | cons hheld _ => exact .some hheld
    unfold settled
    split <;> exact hhead
  · unfold settled
    split <;> exact hmatches.output

end

end Machine
end Octet
