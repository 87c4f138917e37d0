import Octet.Proofs.Machine.Budgets
import Octet.Proofs.Machine.Host
import Mathlib.Logic.Relation

/-!
# A request to stop is final

A host may ask a machine to stop between two calls, and a built-in may do so in the middle of an
instruction, which is then completed (`Asked`).  From then on no instruction is performed any more,
whatever a host calls and however often: only the note that the machine has halted may still be made
(`State.Frozen`).

The machine looks at the request where it would read an instruction.  At the end of the code, and
on a machine that has halted, there is none to be read, so a step succeeds there and the request is
not even noticed (`step_of_asked`).  An instruction that asked for the stop and was the last one, or
jumped to the end of the code, is such a case, and so is an instruction that failed at the end.

## Calls with any built-ins

`Call.Ends` is about the built-ins of the language.  `Call.EndsWith` is the same for any built-ins,
with a run without a budget that is given by its steps (`endsWith_standard`).
-/

namespace Octet

open Code Effect

/-- Nothing is different but whether the machine has halted. -/
structure State.Frozen (s s' : State) : Prop where
  stack : s'.stack = s.stack
  registers : s'.registers = s.registers
  ip : s'.ip = s.ip
  steps : s'.steps = s.steps
  offset : s'.offset = s.offset
  result : s'.result = s.result
  output : s'.output = s.output
  stopRequested : s'.stopRequested = s.stopRequested

theorem State.Frozen.refl (s : State) : s.Frozen s :=
  ⟨rfl, rfl, rfl, rfl, rfl, rfl, rfl, rfl⟩

theorem State.Frozen.trans {s s₁ s₂ : State} (h : s.Frozen s₁) (h' : s₁.Frozen s₂) :
    s.Frozen s₂ where
  stack := h'.stack.trans h.stack
  registers := h'.registers.trans h.registers
  ip := h'.ip.trans h.ip
  steps := h'.steps.trans h.steps
  offset := h'.offset.trans h.offset
  result := h'.result.trans h.result
  output := h'.output.trans h.output
  stopRequested := h'.stopRequested.trans h.stopRequested

theorem State.frozen_halted (s : State) : s.Frozen { s with halted := true } :=
  ⟨rfl, rfl, rfl, rfl, rfl, rfl, rfl, rfl⟩

namespace Machine

variable {builtins : BuiltinTable} {setup : Setup} {s s₁ s' : State}

theorem frozen_settled (s : State) : s.Frozen (settled setup s) := by
  rw [settled]
  split
  · exact s.frozen_halted
  · exact .refl s

/-! ## Calls -/

/-- A call of a machine with these built-ins ends with an answer or a failure, and leaves a state
behind. -/
inductive Call.EndsWith (builtins : BuiltinTable) (setup : Setup) :
    Call → State → Except MachineError Answer → State → Prop
  | run {budget : Int} {s s' : State} {r : Except MachineError Outcome}
      (h : (Machine.run builtins budget).perform setup s = (r, s')) :
      EndsWith builtins setup (.run (some budget)) s (r.map .ran) s'
  | runToEnd {s s' : State} {r : Except MachineError (Option Scalar)}
      (h : Runs builtins setup s r s') :
      EndsWith builtins setup (.run none) s ((r.map .finished).map .ran) s'
  | step {s s' : State} {r : Except MachineError Bool}
      (h : (Machine.step builtins).perform setup s = (r, s')) :
      EndsWith builtins setup .step s (r.map .stepped) s'
  | requestStop {s s' : State} {r : Except MachineError Unit}
      (h : Effect.requestStop.perform setup s = (r, s')) :
      EndsWith builtins setup .requestStop s (r.map fun _ => .noted) s'

/-- Calls lead from one state to another, whatever came of them. -/
def Afterwards (builtins : BuiltinTable) (setup : Setup) : State → State → Prop :=
  Relation.ReflTransGen fun s s' => ∃ c r, Call.EndsWith builtins setup c s r s'

/-- An answer of a run that is not used up is a result. -/
theorem exists_map_finished {r : Except MachineError Outcome} (h : r ≠ .ok .exhausted) :
    ∃ r' : Except MachineError (Option Scalar), r = r'.map .finished := by
  cases r with
  | error e => exact ⟨.error e, rfl⟩
  | ok o =>
    cases o with
    | exhausted => exact absurd rfl h
    | finished v => exact ⟨.ok v, rfl⟩

/-- With the built-ins of the language, the two say the same of a call. -/
theorem endsWith_standard {c : Call} {r : Except MachineError Answer} :
    c.EndsWith BuiltinTable.standard setup s r s' ↔ c.Ends setup s r s' := by
  constructor
  · intro h
    cases h with
    | run hend => exact .run hend
    | runToEnd hruns =>
      obtain ⟨n, hn⟩ := hruns.exists_runFor
      exact .runToEnd hn (map_finished_ne _)
    | step hend => exact .step hend
    | requestStop hend => exact .requestStop hend
  · intro h
    cases h with
    | run hend => exact .run hend
    | runToEnd hrun hend =>
      obtain ⟨r', rfl⟩ := exists_map_finished hend
      exact .runToEnd (runs_of_runFor hrun)
    | step hend => exact .step hend
    | requestStop hend => exact .requestStop hend

/-! ## Requests -/

/-- A stop was asked for, and this is the state right afterwards. -/
inductive Asked (builtins : BuiltinTable) (setup : Setup) : State → Prop
  /-- By a host, between two calls. -/
  | host {s s' : State} {r : Except MachineError Unit}
      (h : Effect.requestStop.perform setup s = (r, s')) : Asked builtins setup s'
  /-- By a built-in, in an instruction that is complete now. -/
  | builtin {s s₁ s' : State} {id : UInt8} {effect : Effect Unit} {done : Except MachineError Unit}
      {r : Except MachineError Bool} (hrunning : s.halted = false)
      (hfetch : fetch? setup.image.code s.ip = some (.callBuiltin id))
      (hbuiltin : builtins id.toNat = some effect)
      (hgoing : s.stopRequested = false)
      (heffect : effect.perform setup (begun (.callBuiltin id) s) = (done, s₁))
      (hasked : s₁.stopRequested = true)
      (hstep : (Machine.step builtins).perform setup s = (r, s')) : Asked builtins setup s'

/-- A request is noted, and the instruction in which a built-in makes it does not lose it. -/
theorem Asked.stopRequested (h : Asked builtins setup s) : s.stopRequested = true := by
  cases h with
  | host h =>
    cases h
    rfl
  | @builtin s s₁ s' id effect done r hrunning hfetch hbuiltin hgoing heffect hasked hstep =>
    have hexecute : execute builtins (.callBuiltin id) = effect := by rw [execute, hbuiltin]
    rw [step_of_fetch hrunning hgoing hfetch, perform_bind, hexecute, heffect] at hstep
    cases done with
    | error e =>
      cases hstep
      exact hasked
    | ok u =>
      dsimp only at hstep
      rw [perform_settle] at hstep
      cases hstep
      exact (frozen_settled s₁).stopRequested.trans hasked

/-! ## Afterwards -/

/-- A machine that was asked to stop fails where it would read an instruction, and finds out that it
has come to its end everywhere else. -/
theorem step_of_asked (hstop : s.stopRequested = true) : (step builtins).perform setup s =
    if s.halted = false ∧ s.ip < setup.image.code.length then (.error .stopped, s)
    else (.ok false, { s with halted := true }) := by
  by_cases hreads : s.halted = false ∧ s.ip < setup.image.code.length
  · rw [if_pos hreads, step_of_stop hreads.1 hreads.2 hstop]
  · rw [if_neg hreads]
    refine step_of_idle ?_
    by_cases hhalted : s.halted = true
    · exact .inl hhalted
    · exact .inr (Nat.le_of_not_lt fun hlt => hreads ⟨Bool.eq_false_iff.2 hhalted, hlt⟩)

/-- A step of a machine that was asked to stop performs no instruction. -/
theorem step_frozen (hstop : s.stopRequested = true) :
    Ensures setup s.Frozen (step builtins) (fun _ => s.Frozen) fun _ => s.Frozen := by
  intro s₁ hs₁
  rw [step_of_asked (hs₁.stopRequested.trans hstop)]
  by_cases hreads : s₁.halted = false ∧ s₁.ip < setup.image.code.length
  · rw [if_pos hreads]
    exact hs₁
  · rw [if_neg hreads]
    exact hs₁.trans s₁.frozen_halted

/-- A run of a machine that was asked to stop performs no instruction either. -/
theorem runFor_frozen (hstop : s.stopRequested = true) (n : Nat) :
    s.Frozen ((runFor builtins n).perform setup s).2 := by
  have hrun : Ensures setup s.Frozen (runFor builtins n) (fun _ => s.Frozen) fun _ => s.Frozen :=
    runFor_ensures (step_frozen hstop) (resultValue_ensures fun _ _ hs _ _ => hs) n
  have hkeeps := hrun s (.refl s)
  generalize (runFor builtins n).perform setup s = ended at hkeeps
  rcases ended with ⟨e | o, s'⟩ <;> exact hkeeps

/-- So does one without a budget. -/
theorem Runs.frozen {r : Except MachineError (Option Scalar)} (hstop : s.stopRequested = true)
    (h : Runs builtins setup s r s') : s.Frozen s' := by
  obtain ⟨n, hn⟩ := h.exists_runFor
  have hkeeps : s.Frozen ((runFor builtins n).perform setup s).2 := runFor_frozen hstop n
  rwa [hn] at hkeeps

/-- A call of a machine that was asked to stop performs no instruction. -/
theorem Call.EndsWith.frozen {c : Call} {r : Except MachineError Answer}
    (hstop : s.stopRequested = true) (h : c.EndsWith builtins setup s r s') : s.Frozen s' := by
  cases h with
  | @run budget _ _ _ hend =>
    have hkeeps : s.Frozen ((Machine.run builtins budget).perform setup s).2 :=
      runFor_frozen hstop budget.toNat
    rwa [hend] at hkeeps
  | runToEnd hruns => exact hruns.frozen hstop
  | @step _ _ r hend =>
    have hstep : Ensures setup s.Frozen (Machine.step builtins) (fun _ => s.Frozen)
      fun _ => s.Frozen := step_frozen hstop
    have hkeeps := hstep s (.refl s)
    rw [hend] at hkeeps
    cases r <;> exact hkeeps
  | requestStop hend =>
    cases hend
    exact ⟨rfl, rfl, rfl, rfl, rfl, rfl, rfl, hstop.symm⟩

/-- Calls of a machine that was asked to stop perform no instruction. -/
theorem Afterwards.frozen (hstop : s.stopRequested = true) (h : Afterwards builtins setup s s') :
    s.Frozen s' := by
  induction h with
  | refl => exact .refl s
  | tail _ hends ih =>
    obtain ⟨c, r, hends⟩ := hends
    exact ih.trans (hends.frozen (ih.stopRequested.trans hstop))

/-- A run without a budget ends at once on a machine that was asked to stop. -/
theorem exists_runs_of_asked (hstop : s.stopRequested = true) :
    ∃ r s', Runs builtins setup s r s' := by
  by_cases hreads : s.halted = false ∧ s.ip < setup.image.code.length
  · have hstep : (step builtins).perform setup s = (.error .stopped, s) := by
      rw [step_of_asked hstop, if_pos hreads]
    exact ⟨_, _, .failed hreads.1 hstep⟩
  · by_cases hhalted : s.halted = true
    · exact ⟨_, _, .halted hhalted rfl⟩
    · have hstep : (step builtins).perform setup s = (.ok false, { s with halted := true }) := by
        rw [step_of_asked hstop, if_neg hreads]
      exact ⟨_, _, .step (Bool.eq_false_iff.2 hhalted) hstep (.halted rfl rfl)⟩

/-- Every call ends on a machine that was asked to stop. -/
theorem exists_endsWith_of_asked (hstop : s.stopRequested = true) (c : Call) :
    ∃ r s', c.EndsWith builtins setup s r s' := by
  cases c with
  | step => exact ⟨_, _, .step rfl⟩
  | requestStop => exact ⟨_, _, .requestStop rfl⟩
  | run budget =>
    cases budget with
    | some n => exact ⟨_, _, .run rfl⟩
    | none =>
      have hends : ∃ r s', Runs builtins setup s r s' := exists_runs_of_asked hstop
      obtain ⟨r, s', hruns⟩ := hends
      exact ⟨_, s', .runToEnd hruns⟩

/-- **A request to stop is final**, whatever the code and the built-ins are, and whoever asked for
it.  The run that performed the instruction in which it was made, with a budget or without one,
performs no other instruction, and neither does any later call.  In every later state a step fails
with the answer to the request exactly where an instruction would be read, and otherwise finds that
the machine has halted; and every call ends. -/
theorem stop_final (h : Asked builtins setup s) :
    (∀ s₀ goesOn, s₀.halted = false → (step builtins).perform setup s₀ = (.ok goesOn, s) →
      (∀ n, s.Frozen ((runFor builtins (n + 1)).perform setup s₀).2) ∧
      ∀ r s', Runs builtins setup s₀ r s' → s.Frozen s') ∧
    ∀ s', Afterwards builtins setup s s' → s.Frozen s' ∧
      (((step builtins).perform setup s').1 = .error .stopped ↔
        s'.halted = false ∧ s'.ip < setup.image.code.length) ∧
      (¬ (s'.halted = false ∧ s'.ip < setup.image.code.length) →
        (step builtins).perform setup s' = (.ok false, { s' with halted := true })) ∧
      ∀ c : Call, ∃ r s'', c.EndsWith builtins setup s' r s'' := by
  have hstop := h.stopRequested
  refine ⟨fun s₀ goesOn hrunning hstep => ?_, fun s' hafter => ?_⟩
  · have hrest : ∀ n, (runFor builtins (n + 1)).perform setup s₀ =
        (runFor builtins n).perform setup s := by
      intro n
      rw [runFor_succ_of_running n hrunning, hstep]
    refine ⟨fun n => ?_, fun r s' hruns => ?_⟩
    · rw [hrest]
      exact runFor_frozen hstop n
    · obtain ⟨least, hleast⟩ := runs_iff.1 hruns
      have hrunsLater : Runs builtins setup s r s' := by
        refine runs_of_runFor (n := least) ?_
        rw [← hrest]
        exact hleast (least + 1) (Nat.le_succ least)
      exact hrunsLater.frozen hstop
  · have hfrozen := hafter.frozen hstop
    have hstop' : s'.stopRequested = true := hfrozen.stopRequested.trans hstop
    refine ⟨hfrozen, ?_, fun hidle => ?_, fun c => exists_endsWith_of_asked hstop' c⟩
    · rw [step_of_asked hstop']
      by_cases hreads : s'.halted = false ∧ s'.ip < setup.image.code.length
      · simp [hreads]
      · simp [hreads]
    · rw [step_of_asked hstop', if_neg hidle]

/-- A built-in of a host that asks for a stop. -/
def askingTable : BuiltinTable
  | 7 => some requestStop
  | _ => none

/-- Code that asks for a stop before it returns something. -/
def askingSetup : Setup := ⟨⟨[0xfe, 7, 0x01, 0, 0, 0, 1, 0xff], []⟩, 4⟩

/-- The machine that has asked. -/
def asking : State := ((step askingTable).perform askingSetup {}).2

theorem stop_final_asking :
    Asked askingTable askingSetup asking ∧ asking.ip = 2 ∧ asking.steps = 1 ∧
      asking.Frozen ((runFor askingTable 4).perform askingSetup {}).2 ∧
      Afterwards askingTable askingSetup asking asking ∧
      ((step askingTable).perform askingSetup asking).1 = .error .stopped := by
  have hasked : Asked askingTable askingSetup asking :=
    .builtin (s := {}) rfl rfl rfl rfl rfl rfl rfl
  have hafter : Afterwards askingTable askingSetup asking asking :=
    .single ⟨.run none, _, .runToEnd (.failed rfl rfl)⟩
  obtain ⟨hrun, hlater⟩ := stop_final hasked
  exact ⟨hasked, rfl, rfl, (hrun {} true rfl rfl).1 3, hafter,
    (hlater asking hafter).2.1.2 ⟨rfl, by decide⟩⟩

end Machine
end Octet
