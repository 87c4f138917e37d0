import Octet.Proofs.Layout.Backpatching
import Octet.Proofs.Machine.Invariant
import Octet.Proofs.Meaning.Compiled
import Octet.Proofs.Program.Safety

/-!
# The image of a program does what the program means

On the one side stands the meaning of a program, which walks its tree; on the other
side stands the machine, which runs its image.  This file shows that a host cannot tell
them apart: they end in the same way, or neither of them ends, and they write the same.

What a host sees of a run is a `Verdict`, if there is one, and an output.  The number
of steps of the machine and the fuel of the meaning have nothing to do with each
other, so the statement has to say how they are related.  If the program ends, both
are enough from some point on.  If it does not, then for any fuel there is a number of
steps after which the machine has written just the same, and conversely everything
that the machine writes is written by the meaning as well.
-/

namespace Octet

open Code Machine Effect

/-- What a host sees of a fresh machine that runs for so many steps. -/
inductive Observes (setup : Setup) (registers : List String) (n : Nat) :
    Option Verdict → Array String → Prop
  | unfinished {s : State}
      (h : (runFor BuiltinTable.standard n).perform setup {} = (.ok .exhausted, s)) :
      Observes setup registers n none s.output
  | finished {value : Option Scalar} {s : State}
      (h : (runFor BuiltinTable.standard n).perform setup {} = (.ok (.finished value), s)) :
      Observes setup registers n (some (.returned value)) s.output
  | failed {cause : Trap} {offset : Nat} {f : Fault} {s : State}
      (h : (runFor BuiltinTable.standard n).perform setup {} = (.error (.trap cause offset), s))
      (hcause : cause.fault? registers = some f) :
      Observes setup registers n (some (.failed f)) s.output

namespace Observes

variable {setup : Setup} {registers : List String} {n : Nat} {v v' : Option Verdict}
  {output output' : Array String}

/-- A host sees one thing only. -/
theorem unique (h : Observes setup registers n v output)
    (h' : Observes setup registers n v' output') : v = v' ∧ output = output' := by
  cases h with
  | unfinished hrun =>
    cases h' with
    | unfinished hrun' => cases hrun.symm.trans hrun'; exact ⟨rfl, rfl⟩
    | finished hrun' => cases hrun.symm.trans hrun'
    | failed hrun' _ => cases hrun.symm.trans hrun'
  | finished hrun =>
    cases h' with
    | unfinished hrun' => cases hrun.symm.trans hrun'
    | finished hrun' => cases hrun.symm.trans hrun'; exact ⟨rfl, rfl⟩
    | failed hrun' _ => cases hrun.symm.trans hrun'
  | failed hrun hcause =>
    cases h' with
    | unfinished hrun' => cases hrun.symm.trans hrun'
    | finished hrun' => cases hrun.symm.trans hrun'
    | failed hrun' hcause' =>
      cases hrun.symm.trans hrun'
      cases hcause.symm.trans hcause'
      exact ⟨rfl, rfl⟩

/-- A verdict is final. -/
theorem add {verdict : Verdict} (h : Observes setup registers n (some verdict) output) (k : Nat) :
    Observes setup registers (n + k) (some verdict) output := by
  cases h with
  | finished hrun => exact .finished (runFor_add_of_ended hrun (fun heq => by cases heq) k)
  | failed hrun hcause =>
    exact .failed (runFor_add_of_ended hrun (fun heq => by cases heq) k) hcause

/-- The output is that of the state at the end of the run. -/
theorem output_eq (h : Observes setup registers n v output) :
    output = ((runFor BuiltinTable.standard n).perform setup {}).2.output := by
  cases h with
  | unfinished hrun => rw [hrun]
  | finished hrun => rw [hrun]
  | failed hrun _ => rw [hrun]

/-- What an unfinished run has written is written by every longer run. -/
theorem isPrefix (h : Observes setup registers n none output) {k : Nat}
    (h' : Observes setup registers (n + k) v output') : output.toList <+: output'.toList := by
  cases h with
  | @unfinished s hrun =>
    obtain ⟨hsteps, -⟩ := steps_of_exhausted hrun
    have hreach : Reachable setup s := .call .start (.run (show (run BuiltinTable.standard
      (n : Int)).perform setup {} = (.ok .exhausted, s) from hrun))
    have hlater := runFor_reported k (hreach.sound (allows_length setup.image.code)) s rfl
    rw [h'.output_eq, runFor_of_steps hsteps]
    generalize (runFor BuiltinTable.standard k).perform setup s = r at hlater ⊢
    rcases r with ⟨e | x, s'⟩
    · exact hlater.1.output
    · exact hlater.output

end Observes

/-- The result of a halted machine is that of the program. -/
theorem perform_resultValue {setup : Setup} {t : Tables}
    (hconstants : setup.image.constants = t.constants) {value : Option Datum} {s : State}
    (h : Option.Rel (Held t) value s.result) :
    (do return Outcome.finished (← resultValue) : Effect Outcome).perform setup s =
      (.ok (.finished (value.map Datum.scalar)), s) := by
  have hvalue : resultValue.perform setup s = (.ok (value.map Datum.scalar), s) := by
    rw [resultValue, perform_get_bind]
    generalize s.result = result at h ⊢
    cases h with
    | none => rfl
    | some hheld =>
      cases hheld with
      | int n => rfl
      | bool b => rfl
      | text hs =>
        show (do return some (Scalar.text (← constant _)) : Effect (Option Scalar)).perform
          setup s = _
        rw [perform_bind, perform_constant, hconstants, getElem?_of_idxOf? hs]
        rfl
  rw [perform_bind, hvalue]
  rfl

/-- The fresh machine matches the world in which a program begins. -/
theorem matches_start (t : Tables) : Matches t {} {} where
  stack := .nil
  store := fun name r _ => by
    have hunset : State.register {} r = none := by
      rw [State.register, Vector.getElem_replicate]
    rw [hunset]
    exact .none
  output := rfl
  quiet := rfl
  result := rfl

section

variable {p : Program} {setup : Setup} {t : Tables}

/-- **From the meaning to the machine.**  A program that ends does so on the machine, from
some number of steps on; a program whose loops turn too often makes the machine run as
long at least. -/
theorem observes_of_arrives (hconstants : setup.image.constants = t.constants) {fuel : Nat}
    (h : Arrives setup t fuel setup.image.code.length none {}
      ((Stmt.meaningList fuel p.items).perform setup.maxStack {})) :
    (∃ verdict output, p.meaning setup.maxStack fuel = (some verdict, output) ∧
      ∃ n, Observes setup t.registers n (some verdict) output) ∨
    ∃ output, p.meaning setup.maxStack fuel = (none, output) ∧
      ∃ n, fuel ≤ n ∧ Observes setup t.registers n none output := by
  unfold Program.meaning
  generalize (Stmt.meaningList fuel p.items).perform setup.maxStack {} = r at h ⊢
  cases h with
  | @next n w' s' hsteps hat hmatches =>
    refine .inl ⟨_, _, rfl, n + 1, ?_⟩
    have hresult : Option.Rel (Held t) none s'.result := by
      rw [hmatches.result]
      exact .none
    by_cases hhalted : s'.halted = true
    · have hrun : (runFor BuiltinTable.standard (n + 1)).perform setup {} =
          (.ok (.finished none), s') := by
        rw [runFor_of_steps hsteps, runFor_of_halted 1 hhalted]
        exact perform_resultValue hconstants hresult
      rw [hmatches.output]
      exact .finished hrun
    · -- there is no code at all, and the first step finds that out
      have hrunning : s'.halted = false := Bool.eq_false_iff.2 hhalted
      have hrun : (runFor BuiltinTable.standard (n + 1)).perform setup {} =
          (.ok (.finished none), { s' with halted := true }) := by
        rw [runFor_of_steps hsteps, runFor_succ_of_running 0 hrunning,
          step_of_end hrunning (Nat.le_of_eq hat.ip.symm)]
        show (runFor BuiltinTable.standard 0).perform setup { s' with halted := true } = _
        rw [runFor_of_halted 0 rfl]
        exact perform_resultValue (s := { s' with halted := true }) hconstants hresult
      have houtput : w'.output = ({ s' with halted := true } : State).output := hmatches.output
      rw [houtput]
      exact .finished hrun
  | left hend => cases hend
  | @ended n value w' s' hsteps hhalted hresult houtput =>
    refine .inl ⟨_, _, rfl, n + 0, ?_⟩
    have hrun : (runFor BuiltinTable.standard (n + 0)).perform setup {} =
        (.ok (.finished (value.map Datum.scalar)), s') := by
      rw [runFor_of_steps hsteps, runFor_of_halted 0 hhalted]
      exact perform_resultValue hconstants hresult
    rw [houtput]
    exact .finished hrun
  | @unfinished n w' s' hfuel hsteps hrunning houtput =>
    refine .inr ⟨_, rfl, n + 0, hfuel, ?_⟩
    have hrun : (runFor BuiltinTable.standard (n + 0)).perform setup {} = (.ok .exhausted, s') := by
      rw [runFor_of_steps hsteps, runFor_zero_of_running hrunning]
    rw [houtput]
    exact .unfinished hrun
  | failed hcrash =>
    obtain ⟨n, s₁, s₂, cause, offset, hsteps, hrunning, hstep, hcause, houtput⟩ := hcrash
    refine .inl ⟨_, _, rfl, n + 1, ?_⟩
    have hrun : (runFor BuiltinTable.standard (n + 1)).perform setup {} =
        (.error (.trap cause offset), s₂) := by
      rw [runFor_of_steps hsteps, runFor_succ_of_running 0 hrunning, hstep]
    rw [houtput]
    exact .failed hrun hcause

end

/-- The same for a program that is laid out, whatever the fuel. -/
theorem observes_meaning {p : Program} {d d' : Draft} {image : Image}
    (h : (Draft.generate p).perform d = (.ok image, d')) (hdebug : p.callsDebug = false)
    (limit : Int) (fuel : Nat) :
    (∃ verdict output, p.meaning limit fuel = (some verdict, output) ∧
      ∃ n, Observes ⟨image, limit⟩ d'.registers n (some verdict) output) ∨
    ∃ output, p.meaning limit fuel = (none, output) ∧
      ∃ n, fuel ≤ n ∧ Observes ⟨image, limit⟩ d'.registers n none output := by
  obtain ⟨is, his, hcode, -⟩ := generate_ok h
  have hlaid := Program.laidOut his
  have hplaced : Placed image.code 0 is := by
    rw [hcode]
    exact placed_assemble fun i hi => (hlaid.refers i hi).spellable
  have hend : 0 + Stmt.sizeList p.items = image.code.length := by
    rw [hcode, length_assemble, hlaid.size_eq, Nat.zero_add]
  have hat : At ⟨image, limit⟩ 0 {} := ⟨rfl, fun hhalted => by cases hhalted⟩
  have harrives := Stmt.arrivesList rfl fuel p.items his hplaced (fun e he => by cases he) hdebug
    hat (matches_start ⟨image.constants, d'.registers⟩)
  rw [hend] at harrives
  exact observes_of_arrives rfl harrives

/-- **The machine does what the program means.**  A program that is laid out, and does not
ask to see the machine, ends on the machine exactly if it ends at all, in the same way
and with the same output, however high the stack may grow.  If it does not end, the
machine writes the same as well. -/
theorem generate_correct {p : Program} {d d' : Draft} {image : Image}
    (h : (Draft.generate p).perform d = (.ok image, d')) (hdebug : p.callsDebug = false)
    (limit : Int) :
    (∀ verdict output, (∃ fuel, p.meaning limit fuel = (some verdict, output)) ↔
      ∃ n, Observes ⟨image, limit⟩ d'.registers n (some verdict) output) ∧
    (∀ fuel output, p.meaning limit fuel = (none, output) →
      ∃ n, fuel ≤ n ∧ Observes ⟨image, limit⟩ d'.registers n none output) ∧
    ∀ n output, Observes ⟨image, limit⟩ d'.registers n none output →
      ∃ fuel, output.toList <+: (p.meaning limit fuel).2.toList := by
  have hboth := observes_meaning h hdebug limit
  refine ⟨fun verdict output => ⟨?_, ?_⟩, ?_, ?_⟩
  · rintro ⟨fuel, hmeaning⟩
    rcases hboth fuel with ⟨verdict', output', hmeaning', hobserves⟩ | ⟨output', hmeaning', -⟩
    · cases hmeaning.symm.trans hmeaning'
      exact hobserves
    · cases hmeaning.symm.trans hmeaning'
  · rintro ⟨n, hobserves⟩
    -- with more fuel than that, the meaning cannot be unfinished
    rcases hboth (n + 1) with ⟨verdict', output', hmeaning, n', hobserves'⟩ |
      ⟨output', hmeaning, n', hle, hobserves'⟩
    · have hsame := hobserves'.add n
      rw [Nat.add_comm] at hsame
      obtain ⟨hverdict, rfl⟩ := (hobserves.add n').unique hsame
      cases hverdict
      exact ⟨n + 1, hmeaning⟩
    · obtain ⟨k, rfl⟩ := Nat.exists_eq_add_of_le (Nat.le_of_succ_le hle)
      obtain ⟨hverdict, -⟩ := (hobserves.add k).unique hobserves'
      cases hverdict
  · intro fuel output hmeaning
    rcases hboth fuel with ⟨verdict', output', hmeaning', -⟩ | ⟨output', hmeaning', hobserves⟩
    · cases hmeaning.symm.trans hmeaning'
    · cases hmeaning.symm.trans hmeaning'
      exact hobserves
  · intro n output hobserves
    refine ⟨n, ?_⟩
    rcases hboth n with ⟨verdict, output', hmeaning, n', hobserves'⟩ |
      ⟨output', hmeaning, n', hle, hobserves'⟩
    · rw [hmeaning]
      have hlonger := hobserves'.add n
      rw [Nat.add_comm] at hlonger
      exact hobserves.isPrefix hlonger
    · rw [hmeaning]
      obtain ⟨k, rfl⟩ := Nat.exists_eq_add_of_le hle
      exact hobserves.isPrefix hobserves'

theorem generate_correct_countdown :
    (Draft.generate countdown).perform {} = (.ok countdownImage, countdown.layOut.2) ∧
      countdown.callsDebug = false ∧
      ∃ n, Observes ⟨countdownImage, 2⟩ countdown.layOut.2.registers n (some (.returned none))
        #["3\n", "2\n", "1\n", "done\n"] :=
  ⟨perform_generate compile_countdown, by decide,
    ((generate_correct (perform_generate compile_countdown) (by decide) 2).1 _ _).1
      ⟨4, by decide +kernel⟩⟩

end Octet
