import Octet.Proofs.Machine.Failures
import Octet.Proofs.Machine.Returns

/-!
# Any bytes may be run

A program is not needed to run the machine: it takes any bytes for code.  They may start no
instruction, end inside one, or jump into the middle of one, and a host may go on after every
failure of them.  This file says what holds all the same (`reachable_invariant`).

* The state makes sense (`State.Sound`), with the pointer anywhere in the code or at its end.
* A text that the state speaks of is in the pool.  So printing one and returning one succeed,
  and only loading one may fail for want of it.
* A register that was written stays written.
* A call answers or fails, unless it is a run without a budget that goes on forever.  If it
  fails, it says why: a stop was requested, or something is wrong at the offset it names
  (`MachineError.Reported`).
-/

namespace Octet
namespace Machine

open Code Effect

variable {setup : Setup} {s s' : State}

/-- The pointers of any code are the addresses in it and its end. -/
theorem allows_length (code : List UInt8) : Allows code (· ≤ code.length) where
  start := Nat.zero_le _
  next _ _ _ hfetch := add_size_le_of_fetch? hfetch
  jump _ _ _ _ _ _ htarget := htarget

/-- The result of a state that makes sense can be looked up. -/
theorem exists_resultValue {good : Nat → Prop} (hs : s.Sound setup good) :
    ∃ value, resultValue.perform setup s = (.ok value, s) :=
  ⟨_, perform_resultValue hs.result⟩

/-- A text on the stack of a state that makes sense can be printed. -/
theorem perform_printStr {good : Nat → Prop} (hs : s.Sound setup good) {k : Nat}
    {rest : List Value} (hstack : s.stack = .str k :: rest) :
    ∃ text, setup.image.constants[k]? = some text ∧
      Builtin.printStr.perform.perform setup s =
        (.ok (), { s with stack := rest, output := s.output.push (text ++ "\n") }) := by
  have hk : k < setup.image.constants.length :=
    hs.stack (.str k) (hstack ▸ List.mem_cons_self ..)
  have hpop : popStr.perform setup s = (.ok k, { s with stack := rest }) := by
    rw [popStr, perform_bind, perform_pop, hstack]
    rfl
  refine ⟨setup.image.constants[k], List.getElem?_eq_getElem hk, ?_⟩
  rw [Builtin.perform, perform_bind, hpop]
  show (do write ((← constant k) ++ "\n") : Effect Unit).perform setup { s with stack := rest } = _
  rw [perform_bind, perform_constant, List.getElem?_eq_getElem hk]
  rfl

/-! ## Runs -/

/-- A failure that says why says so of every state before it. -/
theorem reported_of_later {e : MachineError} (h : s.Later s')
    (he : e.Reported setup s') : e.Reported setup s := by
  cases e with
  | trap cause a => exact he
  | stopped => exact h.stopRequested.symm.trans he

/-- A step takes nothing back that was there at some earlier time, and if it fails it says why. -/
theorem step_reported (s : State) :
    Ensures setup (fun s' => s.Later s' ∧ s'.Sound setup (· ≤ setup.image.code.length))
      (step BuiltinTable.standard)
      (fun _ s' => s.Later s' ∧ s'.Sound setup (· ≤ setup.image.code.length))
      fun e s' => s.Later s' ∧ e.Reported setup s := by
  rintro s₁ ⟨hlater, hs₁⟩
  have hkeeps : KeepsSound setup (· ≤ setup.image.code.length)
      (Readable setup.image [] (· ≤ setup.image.code.length)) (step BuiltinTable.standard)
      fun _ => True := step_sound (allows_length setup.image.code)
  have hsound := hkeeps s₁ hs₁
  have hstep := step_orderly hs₁.stack s₁ rfl
  generalize (step BuiltinTable.standard).perform setup s₁ = stepped at hstep hsound ⊢
  rcases stepped with ⟨e | goesOn, s₂⟩
  · have hreported := hstep.reported
    exact ⟨hlater.trans hreported.1, reported_of_later hlater hreported.2⟩
  · exact ⟨hlater.trans hstep, hsound.1⟩

/-- A run takes nothing back, and if it fails it says why. -/
theorem runFor_reported (n : Nat) (hs : s.Sound setup (· ≤ setup.image.code.length)) :
    Ensures setup (s = ·) (runFor BuiltinTable.standard n) (fun _ s' => s.Later s')
      fun e s' => s.Later s' ∧ e.Reported setup s := by
  refine (runFor_ensures (step_reported s) (resultValue_ensures fun _ _ hs' hk hsize => ?_) n).mono
    ?_ (fun _ _ hs' => hs'.1) fun _ _ he => he
  · exact absurd (hs'.2.result _ hk) (Nat.not_lt.2 hsize)
  · rintro _ rfl
    exact ⟨.refl s, hs⟩

/-! ## Calls -/

/-- What an effect takes back, and how it fails, when it is seen as a call. -/
theorem reported_of_ensures {α : Type} {a : Effect α}
    (h : Ensures setup (s = ·) a (fun _ s' => s.Later s')
      fun e s' => s.Later s' ∧ e.Reported setup s)
    {r : Except MachineError α} (hend : a.perform setup s = (r, s')) (make : α → Answer) :
    (∀ (k : Nat) (hk : k < maxRegisters), s.registers[k].isSome → s'.registers[k].isSome) ∧
      ∀ e, r.map make = .error e → e.Reported setup s := by
  obtain ⟨hok, herror⟩ := ensures_ends h rfl hend make
  refine ⟨?_, fun e he => (herror e he).2⟩
  cases r with
  | ok x => exact (hok _ rfl).registers
  | error e => exact (herror e rfl).1.registers

/-- A call takes no register back, and if it fails it says why. -/
theorem Call.Ends.reported {c : Call} {r : Except MachineError Answer}
    (hs : s.Sound setup (· ≤ setup.image.code.length)) (h : c.Ends setup s r s') :
    (∀ (k : Nat) (hk : k < maxRegisters), s.registers[k].isSome → s'.registers[k].isSome) ∧
      ∀ e, r = .error e → e.Reported setup s := by
  cases h with
  | run hend => exact reported_of_ensures (runFor_reported _ hs) hend .ran
  | runToEnd hend _ => exact reported_of_ensures (runFor_reported _ hs) hend .ran
  | step hend =>
    have hstep := (step_orderly hs.stack).mono (fun _ h => h) (fun _ _ h => h)
      fun _ _ he => he.reported
    exact reported_of_ensures hstep hend .stepped
  | requestStop hend =>
    cases hend
    exact ⟨fun _ _ hr => hr, fun _ he => by cases he⟩

/-- A call ends, unless it is a run without a budget and no budget is enough for it. -/
theorem Call.exists_ends (setup : Setup) (c : Call) (s : State) :
    (∃ r s', c.Ends setup s r s') ∨
      c = .run none ∧
        ∀ n, ∃ s', (runFor BuiltinTable.standard n).perform setup s = (.ok .exhausted, s') := by
  cases c with
  | step => exact .inl ⟨_, _, .step rfl⟩
  | requestStop => exact .inl ⟨_, _, .requestStop rfl⟩
  | run budget =>
    cases budget with
    | some n => exact .inl ⟨_, _, .run rfl⟩
    | none =>
      by_cases hends : ∃ n, ((runFor BuiltinTable.standard n).perform setup s).1 ≠ .ok .exhausted
      · obtain ⟨n, hn⟩ := hends
        exact .inl ⟨_, _, .runToEnd (n := n) rfl hn⟩
      · refine .inr ⟨rfl, fun n => ⟨((runFor BuiltinTable.standard n).perform setup s).2, ?_⟩⟩
        exact Prod.ext (Classical.not_not.1 fun hn => hends ⟨n, hn⟩) rfl

/-- **Whatever is run, and whatever a host does.**  In every state that calls lead to, the pointer
is in the code or at its end, the stack is no higher than it may be, there are 256 registers, and
every value is in its range; a text that the state speaks of can be printed and returned.  Every
call from there answers or fails, unless it runs on forever; it takes no register back, and if it
fails it says why. -/
theorem reachable_invariant {image : Image} {limit : Int} (hs : Reachable ⟨image, limit⟩ s) :
    s.Sound ⟨image, limit⟩ (· ≤ image.code.length) ∧
    s.registers.toList.length = 256 ∧
    (∃ value, resultValue.perform ⟨image, limit⟩ s = (.ok value, s)) ∧
    (∀ k rest, s.stack = .str k :: rest → ∃ text, image.constants[k]? = some text ∧
      Builtin.printStr.perform.perform ⟨image, limit⟩ s =
        (.ok (), { s with stack := rest, output := s.output.push (text ++ "\n") })) ∧
    ∀ c : Call,
      ((∃ r s', c.Ends ⟨image, limit⟩ s r s') ∨ c = .run none ∧ ∀ n, ∃ s',
        (runFor BuiltinTable.standard n).perform ⟨image, limit⟩ s = (.ok .exhausted, s')) ∧
      ∀ r s', c.Ends ⟨image, limit⟩ s r s' →
        (∀ (k : Nat) (hk : k < maxRegisters), s.registers[k].isSome → s'.registers[k].isSome) ∧
        ∀ e, r = .error e → e.Reported ⟨image, limit⟩ s := by
  have hsound : s.Sound ⟨image, limit⟩ (· ≤ image.code.length) := hs.sound (allows_length image.code)
  refine ⟨hsound, Vector.length_toList, exists_resultValue hsound,
    fun k rest hstack => perform_printStr hsound hstack, fun c => ⟨c.exists_ends _ s, ?_⟩⟩
  intro r s' hends
  exact hends.reported hsound

/-- Code that stores a text and then jumps to the byte with its target, which starts no
instruction. -/
def strayImage : Image := ⟨[0xfa, 0, 0xfc, 3, 0xc0, 5], ["x"]⟩

/-- What a run of that code leaves behind. -/
def strayState : State := ((run BuiltinTable.standard 9).perform ⟨strayImage, 1⟩ {}).2

theorem reachable_invariant_stray :
    Reachable ⟨strayImage, 1⟩ strayState ∧ strayState.ip = 5 ∧
      strayState.register 3 = some (.str 0) ∧
      strayState.Sound ⟨strayImage, 1⟩ (· ≤ 6) ∧
      ∀ r s', Call.step.Ends ⟨strayImage, 1⟩ strayState r s' →
        ∀ e, r = .error e → e.Reported ⟨strayImage, 1⟩ strayState := by
  have hreach : Reachable ⟨strayImage, 1⟩ strayState := .call .start (.run rfl)
  obtain ⟨hsound, -, -, -, hcalls⟩ := reachable_invariant hreach
  exact ⟨hreach, by decide +kernel, by decide +kernel, hsound,
    fun r s' hends => ((hcalls .step).2 r s' hends).2⟩

end Machine
end Octet
