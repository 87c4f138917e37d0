import Octet.Proofs.Layout.Backpatching
import Octet.Proofs.Layout.Heights
import Octet.Proofs.Machine.Levelled
import Octet.Proofs.Program.Safety

/-!
# Programs keep the stack in order

Two things may go wrong with the stack, and a program has a say in both.  The stack is too low for
an instruction if something that has no value was an operand: the only expressions without a value
are calls.  The stack is too high if values are left behind, which happens when an expression other
than a call stands as a statement.

A program that keeps its calls apart never finds the stack too low, whatever values are left behind
and however small the stack may be.  If nothing is left behind either, the heights are exact: every
statement begins with an empty stack, and the stack is never higher than there are instructions left
to empty it.  The code of a program is too short to overflow a stack of the usual size in this way.
-/

namespace Octet

open Code Machine

/-- The instructions of a program that keeps its calls apart are level, and they are no more than
its code has bytes.  A machine that runs them from the start stays levelled. -/
theorem levelled_of_generate (tight : Bool) {p : Program} {d d' : Draft} {image : Image}
    (h : (Draft.generate p).perform d = (.ok image, d')) (hapart : p.CallsApart)
    (hcalls : tight = true → p.OnlyCalls) :
    ∃ is, image.code = assemble is ∧ is.length ≤ maxCodeSize ∧
      Level tight (fun _ => False) 0 is p.starts ∧
      ∀ (limit : Int) (s : State), Unharmed ⟨image, limit⟩ s → s.Levelled tight is ∧
        ∀ (c : Call) (s' : State) (e : MachineError), c.Ends ⟨image, limit⟩ s (.error e) s' →
          e.Fits (tight = true → limit ≤ is.length) ∨ e = .stopped := by
  obtain ⟨is, his, hcode, hlength⟩ := generate_ok h
  rw [hcode, length_assemble] at hlength
  have hspell := (Program.laidOut his).spellable
  have hlevel : Level tight (fun _ => False) 0 is p.starts := Program.level hapart hcalls his
  refine ⟨is, hcode, Nat.le_trans (length_le_size is) hlength, hlevel, fun limit s hs => ?_⟩
  have hlevelled := hs.levelled hcode hspell hlevel
  exact ⟨hlevelled, fun c s' e hends =>
    (hends.levelled hcode hspell hlevel hlevelled).1 e rfl⟩

/-- **A program that keeps its calls apart keeps the stack in order.**  Suppose that no call of a
program is an operand, an argument, a condition or a value.  As long as no instruction has failed,
no call of a host fails because the stack is too low, whatever the limit of the stack.  If moreover
every expression that stands as a statement is a call, then none fails because the stack is too
high, for the usual limit, and the stack is empty whenever the pointer is where a statement begins
or at the end of the code. -/
theorem generate_stackDiscipline {p : Program} {d d' : Draft} {image : Image}
    (h : (Draft.generate p).perform d = (.ok image, d')) (hapart : p.CallsApart) :
    (∀ (limit : Int) (s : State), Unharmed ⟨image, limit⟩ s →
      ∀ (c : Call) (r : Except MachineError Answer) (s' : State),
        c.Ends ⟨image, limit⟩ s r s' → ∀ a, r ≠ .error (.trap .underflow a)) ∧
    (p.OnlyCalls →
      (∀ s, Unharmed ⟨image, defaultMaxStack⟩ s →
        ∀ (c : Call) (r : Except MachineError Answer) (s' : State),
          c.Ends ⟨image, defaultMaxStack⟩ s r s' →
          ∀ limit a, r ≠ .error (.trap (.overflow limit) a)) ∧
      ∀ (limit : Int) (s : State), Unharmed ⟨image, limit⟩ s →
        s.ip ∈ p.starts ∨ s.ip = image.code.length → s.stack = []) := by
  refine ⟨fun limit s hs c r s' hends a hr => ?_, fun hcalls => ?_⟩
  · obtain ⟨is, -, -, -, hmachine⟩ := levelled_of_generate false h hapart nofun
    subst hr
    exact ((hmachine limit s hs).2 c s' _ hends).elim id nofun
  obtain ⟨is, hcode, hlength, hlevel, hmachine⟩ :=
    levelled_of_generate true h hapart fun _ => hcalls
  refine ⟨fun s hs c r s' hends limit a hr => ?_, fun limit s hs hip => ?_⟩
  · subst hr
    rcases (hmachine _ s hs).2 c s' _ hends with hfits | hstopped
    · -- there are fewer instructions than the stack has places
      have hfull : defaultMaxStack ≤ is.length := hfits rfl
      rw [defaultMaxStack] at hfull
      rw [maxCodeSize] at hlength
      omega
    · cases hstopped
  · refine (hmachine limit s hs).1.stack_eq_nil ?_
    rcases hip with hip | hip
    · exact hlevel.inside s.ip hip
    · have hend : Opens true 0 is (0 + Code.size is) := opens_end hlevel.carries
      rwa [Nat.zero_add, ← length_assemble, ← hcode, ← hip] at hend

/-- The state behind the first two steps of the program that counts down: in front of its loop. -/
def loopState : State :=
  ((Machine.runFor BuiltinTable.standard 2).perform ⟨countdownImage, defaultMaxStack⟩ {}).2

theorem generate_stackDiscipline_countdown :
    countdown.CallsApart ∧ countdown.OnlyCalls ∧
    countdown.starts = [0, 7, 7, 17, 19, 23, 35] ∧
    Unharmed ⟨countdownImage, defaultMaxStack⟩ loopState ∧ loopState.ip = 7 ∧
    loopState.stack = [] ∧
    (∀ s, Unharmed ⟨countdownImage, defaultMaxStack⟩ s → s.ip = 23 → s.stack = []) ∧
    ∀ (r : Except MachineError Answer) (s' : State),
      (Call.run none).Ends ⟨countdownImage, defaultMaxStack⟩ loopState r s' →
      ∀ limit a, r ≠ .error (.trap .underflow a) ∧ r ≠ .error (.trap (.overflow limit) a) := by
  have hapart : countdown.CallsApart := by decide
  have hcalls : countdown.OnlyCalls := by decide
  have hstarts : countdown.starts = [0, 7, 7, 17, 19, 23, 35] := by decide
  have hloop : Unharmed ⟨countdownImage, defaultMaxStack⟩ loopState :=
    .call (c := .run (some 2)) (r := .ok (.ran .exhausted)) .start (.run rfl) nofun
  obtain ⟨hlow, hhigh⟩ :=
    generate_stackDiscipline (perform_generate compile_countdown) hapart
  obtain ⟨hhigh, hempty⟩ := hhigh hcalls
  refine ⟨hapart, hcalls, hstarts, hloop, by decide +kernel, ?_, fun s hs hip => ?_,
    fun r s' hends limit a => ⟨hlow _ _ hloop _ r s' hends a, hhigh _ hloop _ r s' hends limit a⟩⟩
  · exact hempty _ _ hloop (.inl (by decide +kernel))
  · refine hempty _ s hs (.inl ?_)
    rw [hip, hstarts]
    decide

end Octet
