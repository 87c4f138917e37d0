import Octet.Proofs.Machine.Runs
import Octet.Proofs.Machine.StackWork

/-!
# Budgets

A run may be given a budget, and a run whose budget is used up may be taken up again.  This file
says that it does not matter where a run is cut.  It holds from every state, so after any failure
too, and for any built-ins, which may change the state as they like, write and fail.

## Steps and runs

A run is nothing but steps: `stepFor` steps until a step answers that the machine has halted, and a
run ends in the same state.  What a run adds is the answer at the end.  So a run for `m + n` steps
is `m` steps and then a run for `n` steps (`runFor_add`), and everything here comes from this one
equation.

A run looks at the machine before it looks at its budget, while a step finds out only at the end of
the code that there is nothing left to do.  Both are settled in the induction: a machine that has
halted neither steps nor runs on.

## Runs without a budget

`Runs` is a run without a budget, which need not end.  It ends in the way in which all runs with
great enough budgets end (`runs_iff`).

## Output

What was written is not part of the machine.  The state keeps it, so a built-in of this library
could take it back; one that a host can write cannot (`BuiltinTable.Appends`).  No other instruction
touches the output, so with such built-ins a run with a greater budget writes the same and
perhaps more.
-/

namespace Octet

open Code Effect

namespace Machine

variable {builtins : BuiltinTable} {setup : Setup} {s s₁ s' : State}

/-! ## Steps -/

/-- Step at most so often, until a step answers that the machine has halted. -/
def stepFor (builtins : BuiltinTable) : Nat → Effect Unit
  | 0 => return
  | n + 1 => do
    if ← step builtins then stepFor builtins n

/-- A step answers whether the machine goes on. -/
theorem step_answer {goesOn : Bool}
    (h : (step builtins).perform setup s = (.ok goesOn, s')) : goesOn = !s'.halted := by
  cases way_of_step h with
  | idle _ => rfl
  | performed _ _ _ => rfl

/-- There is nothing to step on a machine that has halted. -/
theorem stepFor_of_halted (n : Nat) (h : s.halted = true) :
    (stepFor builtins n).perform setup s = (.ok (), s) := by
  cases n with
  | zero => rfl
  | succ n =>
    rw [stepFor, perform_bind, step_of_halted h]
    rfl

/-- A first step, and then the others. -/
theorem stepFor_succ (n : Nat) : (stepFor builtins (n + 1)).perform setup s =
    match (step builtins).perform setup s with
    | (.ok _, s') => (stepFor builtins n).perform setup s'
    | (.error e, s') => (.error e, s') := by
  rw [stepFor, perform_bind]
  cases hstep : (step builtins).perform setup s with
  | mk answer s' =>
    cases answer with
    | error e => rfl
    | ok goesOn =>
      have hanswer := step_answer hstep
      cases goesOn with
      | true => rfl
      | false =>
        have hhalted : s'.halted = true := by simpa using hanswer
        exact (stepFor_of_halted n hhalted).symm

/-- **A run is a number of steps and then the rest of the run.** -/
theorem runFor_add (m n : Nat) (s : State) : (runFor builtins (m + n)).perform setup s =
    (do stepFor builtins m; runFor builtins n : Effect Outcome).perform setup s := by
  induction m generalizing s with
  | zero => rw [Nat.zero_add, stepFor, perform_bind, perform_pure]
  | succ m ih =>
    rw [Nat.add_right_comm, perform_bind]
    by_cases hhalted : s.halted = true
    · rw [stepFor_of_halted (m + 1) hhalted, runFor_of_halted (m + n + 1) hhalted]
      exact (runFor_of_halted n hhalted).symm
    · rw [runFor_succ_of_running (m + n) (Bool.eq_false_iff.2 hhalted), stepFor_succ]
      rcases (step builtins).perform setup s with ⟨e | goesOn, s₁⟩
      · rfl
      · dsimp only
        rw [ih, perform_bind]

/-- A run without any steps changes nothing. -/
theorem state_runFor_zero (s : State) : ((runFor builtins 0).perform setup s).2 = s := by
  have hresult : Ensures setup (s = ·) resultValue (fun _ s' => s = s') fun _ s' => s = s' :=
    resultValue_ensures fun _ _ hs _ _ => hs
  have hanswer : Ensures setup (s = ·) (do return Outcome.finished (← resultValue))
      (fun _ s' => s = s') fun _ s' => s = s' :=
    hresult.bind fun v => .pure _ fun _ hs => hs
  by_cases hhalted : s.halted = true
  · rw [runFor_of_halted 0 hhalted]
    have hsame := hanswer s rfl
    generalize (do return Outcome.finished (← resultValue) : Effect Outcome).perform setup s =
      ended at hsame
    rcases ended with ⟨e | v, s'⟩ <;> exact hsame.symm
  · rw [runFor_zero_of_running (Bool.eq_false_iff.2 hhalted)]

/-- A run is its steps and the answer. -/
theorem runFor_eq (n : Nat) (s : State) : (runFor builtins n).perform setup s =
    (do stepFor builtins n; runFor builtins 0 : Effect Outcome).perform setup s :=
  runFor_add n 0 s

/-- A run leaves behind what its steps leave behind. -/
theorem state_runFor (n : Nat) (s : State) : ((runFor builtins n).perform setup s).2 =
    ((stepFor builtins n).perform setup s).2 := by
  rw [runFor_eq, perform_bind]
  rcases (stepFor builtins n).perform setup s with ⟨e | u, s'⟩
  · rfl
  · exact state_runFor_zero s'

/-- A run fails if its steps do. -/
theorem runFor_of_stepFor {n : Nat} {e : MachineError}
    (h : (stepFor builtins n).perform setup s = (.error e, s')) :
    (runFor builtins n).perform setup s = (.error e, s') := by
  rw [runFor_eq, perform_bind, h]

/-- A run that does not fail has made its steps. -/
theorem stepFor_of_runFor {n : Nat} {o : Outcome}
    (h : (runFor builtins n).perform setup s = (.ok o, s')) :
    (stepFor builtins n).perform setup s = (.ok (), s') := by
  have hstate : ((runFor builtins n).perform setup s).2 =
      ((stepFor builtins n).perform setup s).2 := state_runFor n s
  cases hsteps : (stepFor builtins n).perform setup s with
  | mk r s₁ =>
    cases r with
    | error e =>
      rw [runFor_of_stepFor hsteps] at h
      cases h
    | ok u =>
      rw [h, hsteps] at hstate
      rw [show s' = s₁ from hstate]

/-- **A run that does not fail can be taken up again.** -/
theorem runFor_resume {m : Nat} {o : Outcome}
    (h : (runFor builtins m).perform setup s = (.ok o, s₁)) (n : Nat) :
    (runFor builtins n).perform setup s₁ = (runFor builtins (m + n)).perform setup s := by
  rw [runFor_add, perform_bind, stepFor_of_runFor h]

/-! ## Runs without a budget -/

/-- A run without a budget ends: the machine steps until it has halted or a step fails. -/
inductive Runs (builtins : BuiltinTable) (setup : Setup) :
    State → Except MachineError (Option Scalar) → State → Prop
  | halted {s s' : State} {r : Except MachineError (Option Scalar)} (hhalted : s.halted = true)
      (hresult : resultValue.perform setup s = (r, s')) : Runs builtins setup s r s'
  | failed {s s' : State} {e : MachineError} (hrunning : s.halted = false)
      (hstep : (Machine.step builtins).perform setup s = (.error e, s')) :
      Runs builtins setup s (.error e) s'
  | step {s s₁ s' : State} {r : Except MachineError (Option Scalar)} {goesOn : Bool}
      (hrunning : s.halted = false)
      (hstep : (Machine.step builtins).perform setup s = (.ok goesOn, s₁))
      (h : Runs builtins setup s₁ r s') : Runs builtins setup s r s'

variable {r : Except MachineError (Option Scalar)}

/-- The answer of a machine that has halted. -/
theorem perform_finished (s : State) :
    (do return Outcome.finished (← resultValue) : Effect Outcome).perform setup s =
      ((resultValue.perform setup s).1.map .finished, (resultValue.perform setup s).2) := by
  rw [perform_bind]
  rcases resultValue.perform setup s with ⟨e | v, s'⟩ <;> rfl

theorem map_finished_ne (r : Except MachineError (Option Scalar)) :
    r.map Outcome.finished ≠ .ok .exhausted := by
  cases r with
  | error e => exact fun h => by cases h
  | ok v => exact fun h => by cases h

/-- An answer tells the result. -/
theorem map_finished_inj {r r' : Except MachineError (Option Scalar)}
    (h : r.map Outcome.finished = r'.map .finished) : r = r' := by
  cases r with
  | error e =>
    cases r' with
    | error e' => cases h; rfl
    | ok v' => cases h
  | ok v =>
    cases r' with
    | error e' => cases h
    | ok v' => cases h; rfl

/-- A run that ends needs a number of steps for it. -/
theorem Runs.exists_runFor (h : Runs builtins setup s r s') :
    ∃ n, (runFor builtins n).perform setup s = (r.map .finished, s') := by
  induction h with
  | halted hhalted hresult =>
    refine ⟨0, ?_⟩
    rw [runFor_of_halted 0 hhalted, perform_finished, hresult]
  | failed hrunning hstep =>
    refine ⟨1, ?_⟩
    rw [runFor_succ_of_running 0 hrunning, hstep]
    rfl
  | step hrunning hstep _ ih =>
    obtain ⟨n, hn⟩ := ih
    refine ⟨n + 1, ?_⟩
    rw [runFor_succ_of_running n hrunning, hstep]
    exact hn

/-- A run with a budget that ends before it is used up is a run without one. -/
theorem runs_of_runFor {n : Nat}
    (h : (runFor builtins n).perform setup s = (r.map .finished, s')) :
    Runs builtins setup s r s' := by
  have hended : ∀ {n : Nat} {s : State}, s.halted = true →
      (runFor builtins n).perform setup s = (r.map .finished, s') → Runs builtins setup s r s' := by
    intro n s hhalted h
    rw [runFor_of_halted n hhalted, perform_finished] at h
    obtain ⟨hresult, hstate⟩ := Prod.mk.inj h
    exact .halted hhalted (Prod.ext (map_finished_inj hresult) hstate)
  induction n generalizing s with
  | zero =>
    by_cases hhalted : s.halted = true
    · exact hended hhalted h
    · rw [runFor_zero_of_running (Bool.eq_false_iff.2 hhalted)] at h
      exact absurd (Prod.mk.inj h).1.symm (map_finished_ne r)
  | succ n ih =>
    by_cases hhalted : s.halted = true
    · exact hended hhalted h
    · have hrunning : s.halted = false := Bool.eq_false_iff.2 hhalted
      rw [runFor_succ_of_running n hrunning] at h
      rcases hstep : (Machine.step builtins).perform setup s with ⟨e | goesOn, s₁⟩
      · rw [hstep] at h
        obtain ⟨hfailed, rfl⟩ := Prod.mk.inj h
        obtain rfl : Except.error e = r := map_finished_inj hfailed
        exact .failed hrunning hstep
      · rw [hstep] at h
        exact .step hrunning hstep (ih h)

/-- **A run without a budget ends as all runs with great enough budgets do.** -/
theorem runs_iff : Runs builtins setup s r s' ↔
    ∃ least, ∀ n, least ≤ n →
      (runFor builtins n).perform setup s = (r.map .finished, s') := by
  constructor
  · intro h
    obtain ⟨least, hleast⟩ := h.exists_runFor
    refine ⟨least, fun n hn => ?_⟩
    obtain ⟨k, rfl⟩ := Nat.exists_eq_add_of_le hn
    exact runFor_add_of_ended hleast (map_finished_ne r) k
  · rintro ⟨least, hleast⟩
    exact runs_of_runFor (hleast least (Nat.le_refl least))

end Machine

/-! ## Output -/

namespace Effect

variable {setup : Setup} {out : List String}

/-- Nothing that was written before is taken back. -/
def Appends {α : Type} (a : Effect α) : Prop :=
  ∀ (setup : Setup) (s : State), s.output.toList <+: (a.perform setup s).2.output.toList

/-- What was written goes on being written, whether the effect succeeds or fails. -/
def Keeps (setup : Setup) (out : List String) {α : Type} (a : Effect α) : Prop :=
  Ensures setup (out <+: ·.output.toList) a (fun _ s => out <+: s.output.toList)
    fun _ s => out <+: s.output.toList

theorem Appends.keeps {α : Type} {a : Effect α} (h : a.Appends) : Keeps setup out a := by
  intro s hs
  have hlonger := hs.trans (h setup s)
  generalize a.perform setup s = ended at hlonger
  rcases ended with ⟨e | x, s'⟩ <;> exact hlonger

theorem Keeps.appends {α : Type} {a : Effect α} (h : ∀ setup out, Keeps setup out a) :
    a.Appends := by
  intro setup s
  have hkeeps := h setup s.output.toList s List.prefix_rfl
  generalize a.perform setup s = ended at hkeeps
  rcases ended with ⟨e | x, s'⟩ <;> exact hkeeps

theorem Keeps.modify {f : State → State} (h : ∀ s, (f s).output = s.output) :
    Keeps setup out (modify f) :=
  Ensures.modify fun s hs => by rwa [h s]

theorem write_keeps (text : String) : Keeps setup out (write text) := by
  refine Ensures.modify fun s hs => ?_
  rw [Array.toList_push]
  exact hs.trans (List.prefix_append ..)

/-- Work on the stack writes nothing. -/
theorem keeps_stackWork (setup : Setup) (out : List String) :
    StackWork fun a => Keeps setup out a where
  pure x := Ensures.pure x fun _ hs => hs
  bind ha hf := Ensures.bind ha hf
  trap _ := Ensures.trap fun _ hs => hs
  state := fun s hs => hs
  push v := by
    intro s hs
    by_cases hfull : setup.maxStack ≤ s.stack.length
    · rwa [perform_push_of_full hfull]
    · rwa [perform_push_of_room hfull]
  pop := by
    intro s hs
    rw [perform_pop]
    cases s.stack <;> exact hs
  constant i := by
    intro s hs
    rw [perform_constant]
    cases setup.image.constants[i]? <;> exact hs

theorem load_keeps (r : UInt8) : Keeps setup out (load r) := by
  intro s hs
  rw [perform_load]
  cases s.register r <;> exact hs

theorem jump_keeps (target : Nat) : Keeps setup out (jump target) := by
  intro s hs
  rw [perform_jump]
  by_cases htarget : setup.image.code.length < target
  · rwa [if_pos htarget]
  · rwa [if_neg htarget]

end Effect

/-- The built-ins take nothing back that was written. -/
def BuiltinTable.Appends (builtins : BuiltinTable) : Prop :=
  ∀ id effect, builtins id = some effect → effect.Appends

/-- The built-ins of the language take nothing back. -/
theorem BuiltinTable.standard_appends : BuiltinTable.standard.Appends := by
  intro id effect heffect
  obtain ⟨b, -, rfl⟩ := Option.map_eq_some_iff.1 heffect
  exact Keeps.appends fun setup out => (keeps_stackWork setup out).builtin write_keeps b

namespace Machine

variable {builtins : BuiltinTable} {setup : Setup} {s : State} {out : List String}

theorem execute_keeps (h : builtins.Appends) (i : Instr) :
    Keeps setup out (execute builtins i) := by
  have hwork := keeps_stackWork setup out
  have hcall : ∀ id, Keeps setup out (execute builtins (.callBuiltin id)) := by
    intro id
    rw [execute]
    cases hid : builtins id.toNat with
    | none => exact Ensures.trap fun _ hs => hs
    | some effect => exact (h id.toNat effect hid).keeps
  cases i with
  | loadRegister r => exact hwork.bind (load_keeps r) fun v => hwork.push v
  | storeRegister r => exact hwork.bind hwork.pop fun v => .modify fun _ => rfl
  | jump target => exact jump_keeps _
  | jumpIfFalse target =>
    refine hwork.bind hwork.popBool fun b => ?_
    cases b with
    | true => exact hwork.pure ()
    | false => exact jump_keeps _
  | ret => exact .modify fun _ => rfl
  | _ => exact execute_plain hwork trivial hcall

/-- A step takes nothing back that was written. -/
theorem step_keeps (h : builtins.Appends) : Keeps setup out (step builtins) := by
  intro s hs
  have hexecute : ∀ i, Keeps setup out (execute builtins i) := execute_keeps h
  generalize hstep : (step builtins).perform setup s = stepped
  obtain ⟨r, s'⟩ := stepped
  cases way_of_step hstep with
  | idle _ => exact hs
  | stopped _ _ _ => exact hs
  | unreadable _ _ _ => exact hs
  | @performed i s₁ _ _ hperformed =>
    have hkeeps := hexecute i (begun i s) hs
    rw [hperformed] at hkeeps
    have houtput : (settled setup s₁).output = s₁.output := by
      rw [settled]
      split <;> rfl
    show out <+: (settled setup s₁).output.toList
    rw [houtput]
    exact hkeeps
  | @failed i e s' _ _ hfailed =>
    have hkeeps := hexecute i (begun i s) hs
    rwa [hfailed] at hkeeps

/-- A run takes nothing back that was written. -/
theorem runFor_appends (h : builtins.Appends) (n : Nat) : (runFor builtins n).Appends :=
  Keeps.appends fun _ _ =>
    runFor_ensures (step_keeps h) (resultValue_ensures fun _ _ hs _ _ => hs) n

/-- A run with a greater budget writes the same and perhaps more. -/
theorem output_runFor_prefix (h : builtins.Appends) {m n : Nat} (hle : m ≤ n) (s : State) :
    ((runFor builtins m).perform setup s).2.output.toList <+:
      ((runFor builtins n).perform setup s).2.output.toList := by
  obtain ⟨k, rfl⟩ := Nat.exists_eq_add_of_le hle
  rcases hrun : (runFor builtins m).perform setup s with ⟨e | o, s₁⟩
  · exact ⟨[], by rw [runFor_add_of_ended hrun nofun, List.append_nil]⟩
  · rw [← runFor_resume hrun k]
    exact runFor_appends h k setup s₁

/-! ## Budgets -/

/-- **It does not matter where a run is cut**, whatever the built-ins are and from whatever state it
starts.

* A run that does not fail may be taken up again, and then comes to what a single run comes to;
  one that fails is not changed by a greater budget.
* A run leaves behind what its steps leave behind, and fails if they do.
* With built-ins that cannot take back what was written, a greater budget only writes more.
* A run without a budget ends exactly as all runs with great enough budgets do. -/
theorem runFor_budgets (builtins : BuiltinTable) (setup : Setup) (s : State) :
    (∀ m o s₁, (runFor builtins m).perform setup s = (.ok o, s₁) → ∀ n,
      (runFor builtins n).perform setup s₁ = (runFor builtins (m + n)).perform setup s) ∧
    (∀ m e s₁, (runFor builtins m).perform setup s = (.error e, s₁) → ∀ n,
      (runFor builtins (m + n)).perform setup s = (.error e, s₁)) ∧
    (∀ n, ((runFor builtins n).perform setup s).2 = ((stepFor builtins n).perform setup s).2 ∧
      ∀ e s', (stepFor builtins n).perform setup s = (.error e, s') →
        (runFor builtins n).perform setup s = (.error e, s')) ∧
    (builtins.Appends → ∀ m n, m ≤ n →
      ((runFor builtins m).perform setup s).2.output.toList <+:
        ((runFor builtins n).perform setup s).2.output.toList) ∧
    ∀ r s', Runs builtins setup s r s' ↔ ∃ least, ∀ n, least ≤ n →
      (runFor builtins n).perform setup s = (r.map .finished, s') :=
  ⟨fun _ _ _ h n => runFor_resume h n, fun _ _ _ h n => runFor_add_of_ended h nofun n,
    fun n => ⟨state_runFor n s, fun _ _ h => runFor_of_stepFor h⟩,
    fun h _ _ hle => output_runFor_prefix h hle s, fun _ _ => runs_iff⟩

/-- Built-ins of a host: one writes, and one writes and then fails. -/
def tickingTable : BuiltinTable
  | 7 => some (write "tick\n")
  | 8 => some do
    write "boom\n"
    trap .divisionByZero
  | _ => none

/-- Code that ticks twice and fails. -/
def tickingSetup : Setup := ⟨⟨[0xfe, 7, 0xfe, 7, 0xfe, 8], []⟩, 4⟩

theorem tickingTable_appends : tickingTable.Appends := by
  intro id effect heffect
  refine Keeps.appends fun setup out => ?_
  unfold tickingTable at heffect
  split at heffect
  · cases heffect
    exact write_keeps _
  · cases heffect
    exact (write_keeps _).bind fun _ => .trap fun _ hs => hs
  · cases heffect

theorem runFor_budgets_ticking :
    ∃ s₁ s₃, (runFor tickingTable 1).perform tickingSetup {} = (.ok .exhausted, s₁) ∧
      (runFor tickingTable 2).perform tickingSetup s₁ =
        (runFor tickingTable 3).perform tickingSetup {} ∧
      s₃.output = #["tick\n", "tick\n", "boom\n"] ∧ s₁.output.toList <+: s₃.output.toList ∧
      ((stepFor tickingTable 3).perform tickingSetup {}).2 = s₃ ∧
      Runs tickingTable tickingSetup {} (.error (.trap .divisionByZero 4)) s₃ := by
  obtain ⟨hresume, hfailed, hsteps, hprefix, hruns⟩ := runFor_budgets tickingTable tickingSetup {}
  refine ⟨_, ((runFor tickingTable 3).perform tickingSetup {}).2, rfl, hresume 1 _ _ rfl 2, rfl,
    hprefix tickingTable_appends 1 3 (by decide), (hsteps 3).1.symm,
    (hruns _ _).2 ⟨3, fun n hn => ?_⟩⟩
  obtain ⟨k, rfl⟩ := Nat.exists_eq_add_of_le hn
  exact hfailed 3 _ _ rfl k

end Machine
end Octet
