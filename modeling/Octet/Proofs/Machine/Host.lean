import Octet.Proofs.Machine.Runs
import Octet.Proofs.Machine.Soundness

/-!
# What a host can do with a machine

A host calls three things: it runs the machine, with a budget or without one, it
steps it, and it requests a stop.  Nothing keeps it from going on after a call that
failed, so a state is `Reachable` if any calls lead to it, whatever came of them.

A run without a budget need not end.  `Call.Ends` therefore relates a call to an
answer and to the state it leaves behind, and for a run without a budget it asks for
some number of steps that is enough.  The states in the middle of a run are
reachable too: stepping gets there.

## Which pointers code allows

The invariant of `State.Sound` is kept by every call as soon as the code allows the
pointers it speaks of: an instruction at such a pointer is followed by another one,
and its jumps lead to further ones (`Allows`).  That no call fails like broken code
needs more, namely that there is a readable instruction at every such pointer
(`Readable`).
-/

namespace Octet
namespace Machine

open Code Effect

/-- What a host calls. -/
inductive Call where
  /-- Run, for at most some number of steps or until the machine halts. -/
  | run (budget : Option Int)
  /-- Perform one instruction. -/
  | step
  /-- Request a stop. -/
  | requestStop

/-- What a call that does not fail answers. -/
inductive Answer where
  | ran (outcome : Outcome)
  | stepped (goesOn : Bool)
  | noted

/-- A call ends with an answer or a failure, and leaves a state behind. -/
inductive Call.Ends (setup : Setup) : Call → State → Except MachineError Answer → State → Prop
  | run {budget : Int} {s s' : State} {r : Except MachineError Outcome}
      (h : (Machine.run BuiltinTable.standard budget).perform setup s = (r, s')) :
      Ends setup (.run (some budget)) s (r.map .ran) s'
  | runToEnd {n : Nat} {s s' : State} {r : Except MachineError Outcome}
      (h : (Machine.runFor BuiltinTable.standard n).perform setup s = (r, s'))
      (hend : r ≠ .ok .exhausted) : Ends setup (.run none) s (r.map .ran) s'
  | step {s s' : State} {r : Except MachineError Bool}
      (h : (Machine.step BuiltinTable.standard).perform setup s = (r, s')) :
      Ends setup .step s (r.map .stepped) s'
  | requestStop {s s' : State} {r : Except MachineError Unit}
      (h : Effect.requestStop.perform setup s = (r, s')) :
      Ends setup .requestStop s (r.map fun _ => .noted) s'

/-- Calls lead from a fresh machine to this state. -/
inductive Reachable (setup : Setup) : State → Prop
  | start : Reachable setup {}
  | call {c : Call} {s s' : State} {r : Except MachineError Answer} (h : Reachable setup s)
      (hends : c.Ends setup s r s') : Reachable setup s'

/-! ## Steps -/

/-- The pointers are closed under what instructions do to them. -/
structure Allows (code : List UInt8) (good : Nat → Prop) : Prop where
  start : good 0
  next : ∀ (a : Nat) (i : Instr), good a → fetch? code a = some i → good (a + i.size)
  jump : ∀ (a : Nat) (i : Instr) (target : UInt8), good a → fetch? code a = some i →
    i = .jump target ∨ i = .jumpIfFalse target → target.toNat ≤ code.length → good target.toNat

/-- At each of the pointers in the code starts an instruction that refers to
something. -/
def Readable (image : Image) (registers : List String) (good : Nat → Prop) : Prop :=
  ∀ a, good a → a < image.code.length → ∃ i, fetch? image.code a = some i ∧
    i.Refers ⟨image.constants, registers⟩ (· ≤ image.code.length)

variable {setup : Setup} {good : Nat → Prop} {registers : List String}

theorem sound_settled {s : State} (hs : s.Sound setup good) : (settled setup s).Sound setup good := by
  rw [settled]
  split
  · exact { hs with }
  · exact hs

/-- **A step keeps the state sound**, and does not fail like broken code if the code is
readable. -/
theorem step_sound (h : Allows setup.image.code good) :
    KeepsSound setup good (Readable setup.image registers good) (step BuiltinTable.standard)
      fun _ => True := by
  intro s hs
  have hexecute : ∀ i, fetch? setup.image.code s.ip = some i → KeepsSound setup good
      (i.Refers ⟨setup.image.constants, registers⟩ (· ≤ setup.image.code.length))
      (execute BuiltinTable.standard i) fun _ => True := fun i hfetch =>
    execute_sound registers i fun target htarget => h.jump s.ip i target hs.ip hfetch htarget
  have hbegun : ∀ i, fetch? setup.image.code s.ip = some i → (begun i s).Sound setup good :=
    fun i hfetch => { hs with ip := h.next s.ip i hs.ip hfetch }
  generalize hstep : (step BuiltinTable.standard).perform setup s = stepped
  obtain ⟨r, s'⟩ := stepped
  cases way_of_step hstep with
  | idle _ => exact ⟨{ hs with }, trivial⟩
  | stopped _ _ _ => exact ⟨hs, fun _ => id⟩
  | unreadable hlt hfetch _ =>
    refine ⟨{ hs with }, fun hreadable => ?_⟩
    obtain ⟨i, hi, -⟩ := hreadable s.ip hs.ip hlt
    rw [hfetch] at hi
    cases hi
  | @performed i s₁ _ hfetch hperformed =>
    have hsound := hexecute i hfetch (begun i s) (hbegun i hfetch)
    rw [hperformed] at hsound
    exact ⟨sound_settled hsound.1, trivial⟩
  | @failed i e s' _ hfetch hfailed =>
    have hsound := hexecute i hfetch (begun i s) (hbegun i hfetch)
    rw [hfailed] at hsound
    refine ⟨hsound.1, fun hreadable => ?_⟩
    obtain ⟨j, hj, hrefers⟩ := hreadable s.ip hs.ip (lt_of_fetch? hfetch)
    rw [hfetch] at hj
    cases hj
    exact hsound.2 hrefers

/-! ## Calls -/

/-- What an effect guarantees, when it is seen as a call. -/
theorem ensures_ends {P Q : State → Prop} {E : MachineError → State → Prop} {α : Type}
    {a : Effect α} (h : Ensures setup P a (fun _ => Q) E) {s s' : State} (hs : P s)
    {r : Except MachineError α} (hend : a.perform setup s = (r, s')) (make : α → Answer) :
    (∀ x, r.map make = .ok x → Q s') ∧ ∀ e, r.map make = .error e → E e s' := by
  have hafter := h s hs
  rw [hend] at hafter
  cases r with
  | ok x => exact ⟨fun _ _ => hafter, nofun⟩
  | error e =>
    refine ⟨nofun, fun e' he => ?_⟩
    cases he
    exact hafter

/-- **What every step keeps, a call keeps**, and it fails as a step does. -/
theorem Call.Ends.ensures {P : State → Prop} {E : MachineError → State → Prop}
    (hstep : Ensures setup P (Machine.step BuiltinTable.standard) (fun _ => P) E)
    (hresult : Ensures setup P resultValue (fun _ => P) E)
    (hstop : ∀ s, P s → P { s with stopRequested := true }) {c : Call} {s s' : State}
    {r : Except MachineError Answer} (hends : c.Ends setup s r s') (hs : P s) :
    (∀ x, r = .ok x → P s') ∧ ∀ e, r = .error e → E e s' := by
  cases hends with
  | run hend => exact ensures_ends (runFor_ensures hstep hresult _) hs hend .ran
  | runToEnd hend _ => exact ensures_ends (runFor_ensures hstep hresult _) hs hend .ran
  | step hend => exact ensures_ends hstep hs hend .stepped
  | requestStop hend =>
    cases hend
    exact ⟨fun _ _ => hstop s hs, nofun⟩

/-- **A call keeps the state sound**, and does not fail like broken code if the code is
readable. -/
theorem Call.Ends.sound (registers : List String) (h : Allows setup.image.code good) {c : Call}
    {s s' : State} {r : Except MachineError Answer} (hs : s.Sound setup good) (hends : c.Ends setup s r s') :
    s'.Sound setup good ∧
      ∀ e, r = .error e → Readable setup.image registers good → ¬ e.Corrupt := by
  have hstep : KeepsSound setup good (Readable setup.image registers good)
    (Machine.step BuiltinTable.standard) fun _ => True := step_sound h
  have hresult : Ensures setup (State.Sound setup good) resultValue
      (fun _ s => s.Sound setup good) fun e s =>
        s.Sound setup good ∧ (Readable setup.image registers good → ¬ e.Corrupt) :=
    resultValue_ensures fun s k hs hk hsize => absurd (hs.result _ hk) (Nat.not_lt.2 hsize)
  obtain ⟨hok, herror⟩ := hends.ensures
    (hstep.mono (fun _ hs => hs) (fun _ _ hs => hs.1) fun _ _ he => he) hresult
    (fun _ hs => { hs with }) hs
  cases r with
  | ok x => exact ⟨hok x rfl, nofun⟩
  | error e =>
    refine ⟨(herror e rfl).1, fun e' he => ?_⟩
    cases he
    exact (herror e rfl).2

/-- Every state that calls lead to is sound. -/
theorem Reachable.sound (h : Allows setup.image.code good) {s : State}
    (hs : Reachable setup s) : s.Sound setup good := by
  induction hs with
  | start => exact State.sound_start h.start
  | call _ hends ih => exact (Call.Ends.sound [] h ih hends).1

end Machine
end Octet
