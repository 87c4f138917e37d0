import Octet.Proofs.Machine.Ensures

/-!
# Runs put together

A run for `m + n` steps is one for `m` steps, and if that does not end, one for `n`
steps from where it stopped (`runFor_add`).  So a longer run does not end in another
way than a shorter one that ends.

`Steps` counts the steps of a run that has not ended, which is what a statement about
a part of a program can provide: if the machine gets somewhere in `n` steps, a run goes
on from there with the steps that are left (`runFor_of_steps`).

What every step keeps, a run of any length keeps (`runFor_ensures`).
-/

namespace Octet
namespace Machine

open Code Effect

/-! ## Counted steps -/

/-- A machine that has not halted makes a number of steps, and none of them fails. -/
inductive Steps (setup : Setup) : Nat → State → State → Prop
  | refl (s : State) : Steps setup 0 s s
  | step {n : Nat} {s s₁ s₂ : State} {goesOn : Bool} (hrunning : s.halted = false)
      (hstep : (Machine.step BuiltinTable.standard).perform setup s = (.ok goesOn, s₁))
      (h : Steps setup n s₁ s₂) : Steps setup (n + 1) s s₂

variable {builtins : BuiltinTable} {setup : Setup} {s s₁ s₂ : State}

theorem Steps.single {goesOn : Bool} (hrunning : s.halted = false)
    (hstep : (Machine.step BuiltinTable.standard).perform setup s = (.ok goesOn, s₁)) :
    Steps setup 1 s s₁ :=
  .step hrunning hstep (.refl s₁)

theorem Steps.trans {m n : Nat} (h : Steps setup m s s₁) (h' : Steps setup n s₁ s₂) :
    Steps setup (m + n) s s₂ := by
  induction h with
  | refl s =>
    rw [Nat.zero_add]
    exact h'
  | step hrunning hstep _ ih =>
    rw [Nat.add_right_comm]
    exact .step hrunning hstep (ih h')

/-- A run goes on where its first steps lead. -/
theorem runFor_of_steps {n : Nat} (h : Steps setup n s s₁) (m : Nat) :
    (runFor BuiltinTable.standard (n + m)).perform setup s =
      (runFor BuiltinTable.standard m).perform setup s₁ := by
  induction h with
  | refl s => rw [Nat.zero_add]
  | step hrunning hstep _ ih =>
    rw [Nat.add_right_comm, runFor, perform_get_bind,
      if_neg (by rw [hrunning]; exact Bool.false_ne_true), perform_bind, hstep]
    exact ih

/-! ## Longer runs -/

theorem runFor_of_halted (n : Nat) (h : s.halted = true) :
    (runFor builtins n).perform setup s =
      (do return Outcome.finished (← resultValue) : Effect Outcome).perform setup s := by
  cases n with
  | zero => rw [runFor, perform_get_bind, if_pos h]
  | succ n => rw [runFor, perform_get_bind, if_pos h]

theorem runFor_zero_of_running (h : s.halted = false) :
    (runFor builtins 0).perform setup s = (.ok .exhausted, s) := by
  rw [runFor, perform_get_bind, if_neg (by rw [h]; exact Bool.false_ne_true)]
  rfl

theorem runFor_succ_of_running (n : Nat) (h : s.halted = false) :
    (runFor builtins (n + 1)).perform setup s =
      match (Machine.step builtins).perform setup s with
      | (.ok _, s') => (runFor builtins n).perform setup s'
      | (.error e, s') => (.error e, s') := by
  rw [runFor, perform_get_bind, if_neg (by rw [h]; exact Bool.false_ne_true), perform_bind]
  rcases (Machine.step builtins).perform setup s with ⟨e | b, s'⟩ <;> rfl

/-- Looking up the result changes nothing, and fails only if it is a text that is not there. -/
theorem resultValue_ensures {P : State → Prop} {E : MachineError → State → Prop}
    (h : ∀ s k, P s → s.result = some (.str k) → setup.image.constants.length ≤ k →
      E (.trap (.badConstant k setup.image.constants.length) s.offset) s) :
    Ensures setup P resultValue (fun _ => P) E := by
  intro s hs
  rw [resultValue, perform_get_bind]
  cases hresult : s.result with
  | none => exact hs
  | some v =>
    cases v with
    | i32 n => exact hs
    | bool b => exact hs
    | str k =>
      simp only [perform_bind, perform_constant]
      cases htext : setup.image.constants[k]? with
      | none => exact h s k hs hresult (List.getElem?_eq_none_iff.1 htext)
      | some text => exact hs

/-- **What every step keeps, a run keeps**, and it fails as a step does. -/
theorem runFor_ensures {P : State → Prop} {E : MachineError → State → Prop}
    (hstep : Ensures setup P (Machine.step builtins) (fun _ => P) E)
    (hresult : Ensures setup P resultValue (fun _ => P) E) (n : Nat) :
    Ensures setup P (runFor builtins n) (fun _ => P) E := by
  have hfinish : Ensures setup P (do return Outcome.finished (← resultValue)) (fun _ => P) E :=
    hresult.bind fun v => .pure _ fun _ hs => hs
  induction n with
  | zero =>
    intro s hs
    by_cases hhalted : s.halted = true
    · rw [runFor_of_halted 0 hhalted]
      exact hfinish s hs
    · rw [runFor_zero_of_running (Bool.eq_false_iff.2 hhalted)]
      exact hs
  | succ n ih =>
    intro s hs
    rw [runFor, perform_get_bind]
    by_cases hhalted : s.halted = true
    · rw [if_pos hhalted]
      exact hfinish s hs
    · rw [if_neg hhalted]
      exact (hstep.bind fun _ => ih) s hs

/-- The run of a halted machine does not count as exhausted. -/
theorem finished_ne_exhausted (s s' : State) :
    (do return Outcome.finished (← resultValue) : Effect Outcome).perform setup s ≠
      (.ok .exhausted, s') := by
  rw [perform_bind]
  rcases resultValue.perform setup s with ⟨e | v, s''⟩ <;> exact fun h => by cases h

/-- A run that is exhausted has made all of its steps. -/
theorem steps_of_exhausted {n : Nat}
    (h : (runFor BuiltinTable.standard n).perform setup s = (.ok .exhausted, s₁)) :
    Steps setup n s s₁ ∧ s₁.halted = false := by
  induction n generalizing s with
  | zero =>
    by_cases hhalted : s.halted = true
    · rw [runFor_of_halted 0 hhalted] at h
      exact absurd h (finished_ne_exhausted s s₁)
    · have hrunning : s.halted = false := Bool.eq_false_iff.2 hhalted
      rw [runFor_zero_of_running hrunning] at h
      cases h
      exact ⟨.refl _, hrunning⟩
  | succ n ih =>
    by_cases hhalted : s.halted = true
    · rw [runFor_of_halted (n + 1) hhalted] at h
      exact absurd h (finished_ne_exhausted s s₁)
    · have hrunning : s.halted = false := Bool.eq_false_iff.2 hhalted
      rw [runFor_succ_of_running n hrunning] at h
      rcases hstep : (Machine.step BuiltinTable.standard).perform setup s with ⟨e | b, s'⟩
      · rw [hstep] at h
        cases h
      · rw [hstep] at h
        obtain ⟨hsteps, hend⟩ := ih h
        exact ⟨.step hrunning hstep hsteps, hend⟩

/-- A machine that makes steps to a running one is running. -/
theorem Steps.running {n : Nat} (h : Steps setup n s s₁) (hrunning : s₁.halted = false) :
    s.halted = false := by
  cases h with
  | refl => exact hrunning
  | step hrunning _ _ => exact hrunning

/-- A run that finishes leaves a halted machine behind. -/
theorem halted_of_finished {n : Nat} {v : Option Scalar}
    (h : (runFor builtins n).perform setup s = (.ok (.finished v), s₁)) :
    s₁.halted = true := by
  have hfinish : Ensures setup (State.halted · = true) (do return Outcome.finished (← resultValue))
      (fun _ s => s.halted = true) fun _ _ => True :=
    (resultValue_ensures fun _ _ _ _ _ => trivial).bind fun _ => .pure _ fun _ hs => hs
  induction n generalizing s with
  | zero =>
    by_cases hhalted : s.halted = true
    · have hend := hfinish s hhalted
      rw [← runFor_of_halted 0 hhalted, h] at hend
      exact hend
    · rw [runFor_zero_of_running (Bool.eq_false_iff.2 hhalted)] at h
      cases h
  | succ n ih =>
    by_cases hhalted : s.halted = true
    · have hend := hfinish s hhalted
      rw [← runFor_of_halted (n + 1) hhalted, h] at hend
      exact hend
    · rw [runFor_succ_of_running n (Bool.eq_false_iff.2 hhalted)] at h
      rcases hstep : (Machine.step builtins).perform setup s with ⟨e | b, s'⟩
      · rw [hstep] at h
        cases h
      · rw [hstep] at h
        exact ih h

/-- **A run that ends is not changed by a greater budget.** -/
theorem runFor_add_of_ended {m : Nat} {r : Except MachineError Outcome}
    (h : (runFor builtins m).perform setup s = (r, s₁)) (hr : r ≠ .ok .exhausted)
    (n : Nat) : (runFor builtins (m + n)).perform setup s = (r, s₁) := by
  induction m generalizing s with
  | zero =>
    by_cases hhalted : s.halted = true
    · rw [runFor_of_halted 0 hhalted] at h
      rw [runFor_of_halted (0 + n) hhalted]
      exact h
    · rw [runFor_zero_of_running (Bool.eq_false_iff.2 hhalted)] at h
      cases h
      exact absurd rfl hr
  | succ m ih =>
    rw [Nat.add_right_comm]
    by_cases hhalted : s.halted = true
    · rw [runFor_of_halted (m + 1) hhalted] at h
      rw [runFor_of_halted (m + n + 1) hhalted]
      exact h
    · have hrunning : s.halted = false := Bool.eq_false_iff.2 hhalted
      rw [runFor_succ_of_running m hrunning] at h
      rw [runFor_succ_of_running (m + n) hrunning]
      rcases hstep : (Machine.step builtins).perform setup s with ⟨e | b, s'⟩
      · rw [hstep] at h
        exact h
      · rw [hstep] at h
        exact ih h

end Machine
end Octet
