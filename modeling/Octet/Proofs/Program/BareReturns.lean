import Octet.Proofs.Layout.Leftovers
import Octet.Proofs.Machine.Budgets
import Octet.Proofs.Machine.Invariant
import Octet.Proofs.Machine.Returns
import Octet.Proofs.Program.Safety

/-!
# What a bare return returns

A return with a value and one without are laid out as the same instruction, which takes what is on
top of the stack.  A bare return therefore returns nothing if the stack is empty there, and
otherwise the value that some statement has left behind: the `1` in `1 return`.

The only statements that leave a value are expressions other than calls.  If the machine has begun
none of them, the stack is empty, whatever else it has done: around loops, out of blocks, and even
past instructions that have failed, if a host has taken the machine up again.
-/

namespace Octet

open Code Machine

/-- **A bare return returns what was left on the stack.**  A run that comes to one ends there, and
answers what the value on top of the stack stands for.  The answer is nothing exactly if the stack
is empty, and so it is if the machine has begun no expression that stands as a statement and is no
call. -/
theorem generate_bareReturn {p : Program} {d d' : Draft} {image : Image}
    (h : (Draft.generate p).perform d = (.ok image, d')) (limit : Int) {s₀ s : State} {k : Nat}
    (hs₀ : Reachable ⟨image, limit⟩ s₀) (hsteps : Steps ⟨image, limit⟩ k s₀ s)
    (hrunning : s.halted = false) (hgoing : s.stopRequested = false) (hret : p.BareReturn s.ip) :
    (∃ s', Runs .standard ⟨image, limit⟩ s₀ (.ok (s.returns image.constants)) s' ∧
      ∀ n, (runFor .standard (k + (n + 1))).perform ⟨image, limit⟩ s₀ =
        (.ok (.finished (s.returns image.constants)), s')) ∧
    (s.returns image.constants = none ↔ s.stack = []) ∧
    (Bypasses ⟨image, limit⟩ p.LeavesValue s → s.returns image.constants = none) := by
  obtain ⟨is, his, hcode, -⟩ := generate_ok h
  have hfetch : fetch? image.code s.ip = some .ret := hcode ▸ hret.fetch his
  have hcomes : (run .standard (k : Int)).perform ⟨image, limit⟩ s₀ = (.ok .exhausted, s) := by
    rw [run, Int.toNat_natCast, ← Nat.add_zero k, runFor_of_steps hsteps,
      runFor_zero_of_running hrunning]
  have hs : Reachable ⟨image, limit⟩ s := .call hs₀ (.run hcomes)
  have hvalid : ∀ v ∈ s.stack, v.Valid image.constants.length :=
    (hs.sound (allows_length image.code)).stack
  refine ⟨?_, State.returns_eq_none_iff hvalid, fun hbypasses => ?_⟩
  · obtain ⟨s', hend⟩ : ∃ s', ∀ n, (runFor .standard (n + 1)).perform ⟨image, limit⟩ s =
        (.ok (.finished (s.returns image.constants)), s') :=
      runFor_of_ret hrunning hgoing hfetch hvalid
    have hrun : ∀ n, (runFor .standard (k + (n + 1))).perform ⟨image, limit⟩ s₀ =
        (.ok (.finished (s.returns image.constants)), s') := fun n => by
      rw [runFor_of_steps hsteps, hend n]
    exact ⟨s', runs_of_runFor (hrun 0), hrun⟩
  · have hstart : LeavesNothing ⟨image, limit⟩ p.LeavesValue p.BareReturn {} := by
      intro n
      show FindsEmpty image.code _ _ n 0 0
      rw [hcode]
      exact Program.findsEmpty his n
    have hip : ¬ p.LeavesValue s.ip := fun hleaves => hleaves.fetch_ne his (hcode ▸ hfetch)
    exact State.returns_of_nil ((hbypasses.leavesNothing hstart).stack_eq_nil hip hfetch hret)

/-- A program that steps over a statement that would leave its value:
`if false \x7b 1 \x7d return`. -/
def steppedOver : Program :=
  let here := Pos.start
  ⟨[.conditional here (.literal here (some (.bool false)))
      [.exprStmt here (.literal here (some (.int 1)))] .done,
    .returning here none]⟩

/-- The image of that program. -/
def steppedOverImage : Image where
  code := [0x02, 0, 0xa1, 9, 0x01, 0, 0, 0, 1, 0xff]
  constants := []

/-- The state in front of its return. -/
def steppedOverState : State :=
  ((runFor BuiltinTable.standard 2).perform ⟨steppedOverImage, defaultMaxStack⟩ {}).2

theorem compile_steppedOver : steppedOver.compile.toOption = some steppedOverImage := by
  decide +kernel

theorem eq_four_of_leavesValue {a : Nat} (h : steppedOver.LeavesValue a) : a = 4 := by
  obtain ⟨pos, e, hline, -⟩ := h
  rcases List.mem_cons.1 hline with hline | hline
  · exact (Prod.mk.inj hline).1
  · cases (Prod.mk.inj (List.mem_singleton.1 hline)).2

theorem generate_bareReturn_steppedOver :
    Steps ⟨steppedOverImage, defaultMaxStack⟩ 2 {} steppedOverState ∧
    steppedOver.BareReturn steppedOverState.ip ∧
    Bypasses ⟨steppedOverImage, defaultMaxStack⟩ steppedOver.LeavesValue steppedOverState ∧
    ∃ s', Runs .standard ⟨steppedOverImage, defaultMaxStack⟩ {} (.ok none) s' := by
  obtain ⟨hsteps, hrunning⟩ : Steps ⟨steppedOverImage, defaultMaxStack⟩ 2 {} steppedOverState ∧
      steppedOverState.halted = false := steps_of_exhausted rfl
  have hip : steppedOverState.ip = 9 := by decide +kernel
  have hret : steppedOver.BareReturn steppedOverState.ip :=
    ⟨Pos.start, hip ▸ List.mem_cons_of_mem _ (List.mem_singleton_self _)⟩
  have hbypasses : Bypasses ⟨steppedOverImage, defaultMaxStack⟩ steppedOver.LeavesValue
      steppedOverState := by
    refine .step (.step .start (fun _ h => ?_) rfl) (fun _ h => ?_) rfl
    · exact absurd (eq_four_of_leavesValue h) (by decide)
    · exact absurd (eq_four_of_leavesValue h) (by decide +kernel)
  obtain ⟨⟨s', hruns, -⟩, -, hnone⟩ := generate_bareReturn (perform_generate compile_steppedOver)
    defaultMaxStack .start hsteps hrunning (by decide +kernel) hret
  rw [hnone hbypasses] at hruns
  exact ⟨hsteps, hret, hbypasses, s', hruns⟩

/-- A program that leaves a value in front of its return: `1 return`. -/
def leftover : Program :=
  let here := Pos.start
  ⟨[.exprStmt here (.literal here (some (.int 1))), .returning here none]⟩

/-- The image of that program. -/
def leftoverImage : Image where
  code := [0x01, 0, 0, 0, 1, 0xff]
  constants := []

/-- The state in front of its return. -/
def leftoverState : State :=
  ((runFor BuiltinTable.standard 1).perform ⟨leftoverImage, defaultMaxStack⟩ {}).2

/-- **A bare return may return a value**: the one that the statement in front of it has left. -/
theorem runs_leftover :
    leftover.compile.toOption = some leftoverImage ∧
    Steps ⟨leftoverImage, defaultMaxStack⟩ 1 {} leftoverState ∧ leftoverState.halted = false ∧
    leftover.BareReturn leftoverState.ip ∧
    ∃ s', Runs .standard ⟨leftoverImage, defaultMaxStack⟩ {} (.ok (some (.int 1))) s' := by
  have hcompile : leftover.compile.toOption = some leftoverImage := by decide +kernel
  obtain ⟨hsteps, hrunning⟩ : Steps ⟨leftoverImage, defaultMaxStack⟩ 1 {} leftoverState ∧
      leftoverState.halted = false := steps_of_exhausted rfl
  have hip : leftoverState.ip = 5 := by decide +kernel
  have hret : leftover.BareReturn leftoverState.ip :=
    ⟨Pos.start, hip ▸ List.mem_cons_of_mem _ (List.mem_singleton_self _)⟩
  obtain ⟨s', hend⟩ : ∃ s', ∀ n, (runFor .standard (n + 1)).perform
      ⟨leftoverImage, defaultMaxStack⟩ leftoverState = (.ok (.finished (some (.int 1))), s') := by
    have hstack : leftoverState.stack = [.i32 1] := by decide +kernel
    have hreturns : leftoverState.returns leftoverImage.constants = some (.int 1) := by
      rw [State.returns, hstack]
      rfl
    rw [← hreturns]
    refine runFor_of_ret hrunning (by decide +kernel) (by decide +kernel) fun v hv => ?_
    rw [hstack] at hv
    rw [List.mem_singleton.1 hv]
    exact Word32.wrap_mem 1
  refine ⟨hcompile, hsteps, hrunning, hret, s', runs_of_runFor (n := 1 + 1) ?_⟩
  rw [runFor_of_steps hsteps, hend 0]
  rfl

end Octet
