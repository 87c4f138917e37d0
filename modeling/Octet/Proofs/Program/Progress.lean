import Octet.Proofs.Layout.Loops
import Octet.Proofs.Machine.Movement
import Octet.Proofs.Program.Safety

/-!
# Programs without loops come to an end

Only loops lead back.  So a program that has none is read from the front to the end of its code: an
instruction that succeeds goes on behind itself or at a target that lies ahead, and one that fails is
passed.  The pointer cannot move more often than the code has bytes, and it bounds the number of
instructions performed.

A step is not always an instruction.  Where the code has ended, or if the machine has halted, a step
answers that the machine does not go on, and the pointer stays; for a program without statements this
is so from the start.
-/

namespace Octet

open Code Machine

namespace Machine

variable {setup : Setup} {s s' : State}

/-- What stands at a boundary leads ahead, to another boundary. -/
structure LeadsAhead (code : List UInt8) : Prop where
  next : ∀ a i, Boundary code a → fetch? code a = some i → Boundary code (a + i.size)
  target : ∀ a i t, Boundary code a → fetch? code a = some i → i.target? = some t →
    a < t ∧ Boundary code t

/-- The pointer is at a boundary and has passed a byte for each instruction. -/
structure Passed (setup : Setup) (s : State) : Prop where
  ip : Boundary setup.image.code s.ip
  steps : s.steps ≤ s.ip

section

variable (hcode : LeadsAhead setup.image.code)

include hcode

/-- An instruction that is performed moves the pointer ahead. -/
theorem LeadsAhead.lt_ip {i : Instr} (hip : Boundary setup.image.code s.ip)
    (hfetch : fetch? setup.image.code s.ip = some i) (hleads : i.Leads (begun i s) s') :
    s.ip < s'.ip ∧ Boundary setup.image.code s'.ip := by
  rcases hleads.ip with hnext | htarget
  · have hsize := i.size_pos
    rw [hnext]
    exact ⟨Nat.lt_add_of_pos_right hsize, hcode.next _ _ hip hfetch⟩
  · exact hcode.target _ _ _ hip hfetch htarget

/-- **A step that performs an instruction moves the pointer ahead.** -/
theorem LeadsAhead.step_lt {goesOn : Bool} (hip : Boundary setup.image.code s.ip)
    (hrunning : s.halted = false) (hlt : s.ip < setup.image.code.length)
    (hstep : (step BuiltinTable.standard).perform setup s = (.ok goesOn, s')) : s.ip < s'.ip := by
  cases step_stepped hstep with
  | idle hend =>
    rcases hend with hhalted | hend
    · rw [hrunning] at hhalted
      cases hhalted
    · omega
  | performed _ hfetch hleads =>
    rw [settled_ip]
    exact (hcode.lt_ip hip hfetch hleads).1

/-- A step passes a byte for each instruction, whether it succeeds or fails. -/
theorem LeadsAhead.step_passed : Effect.Ensures setup (Passed setup) (step BuiltinTable.standard)
    (fun _ => Passed setup) fun _ => Passed setup := by
  intro s hs
  generalize hstep : (step BuiltinTable.standard).perform setup s = stepped
  obtain ⟨r, s'⟩ := stepped
  cases step_stepped hstep with
  | idle _ => exact ⟨hs.ip, hs.steps⟩
  | stopped _ => exact hs
  | unreadable _ _ _ => exact ⟨hs.ip, hs.steps⟩
  | @performed i s₁ _ hfetch hleads =>
    obtain ⟨hlt, hip⟩ := hcode.lt_ip hs.ip hfetch hleads
    have hsteps : s₁.steps = s.steps + 1 := hleads.steps
    have hpassed := hs.steps
    refine ⟨by rwa [settled_ip], ?_⟩
    rw [settled_steps, settled_ip]
    omega
  | @failed i _ s' _ hfetch hgives =>
    have hsteps : s'.steps = s.steps + 1 := hgives.still.steps
    have hip : s'.ip = s.ip + i.size := hgives.still.ip
    have hsize := i.size_pos
    have hpassed := hs.steps
    refine ⟨?_, by omega⟩
    show Boundary setup.image.code s'.ip
    rw [hip]
    exact hcode.next _ _ hs.ip hfetch

theorem LeadsAhead.passed (hstart : Boundary setup.image.code 0) (hs : Reachable setup s) :
    Passed setup s := by
  induction hs with
  | start => exact ⟨hstart, Nat.le_refl 0⟩
  | @call c s s' r _ hends ih =>
    obtain ⟨hok, herror⟩ := hends.ensures (E := fun _ => Passed setup) hcode.step_passed
      (resultValue_ensures fun _ _ hs _ _ => hs) (fun _ hs => ⟨hs.ip, hs.steps⟩) ih
    cases r with
    | ok x => exact hok x rfl
    | error e => exact herror e rfl

/-- Steps that lead to a running machine move the pointer ahead, by a byte at least each. -/
theorem LeadsAhead.add_le_ip {n : Nat} (hs : Passed setup s) (hsteps : Steps setup n s s')
    (hrunning : s'.halted = false) : s.ip + n ≤ s'.ip := by
  induction hsteps with
  | refl s => exact Nat.le_refl _
  | @step n s s₁ s₂ goesOn hfrom hstep hsteps ih =>
    have hkeeps := hcode.step_passed s hs
    rw [hstep] at hkeeps
    have hrest := ih hkeeps hrunning
    have hlt : s.ip < setup.image.code.length := by
      -- at the end of the code the step would have halted
      refine Nat.lt_of_not_le fun hend => ?_
      rw [step_of_end hfrom hend] at hstep
      cases hstep
      have hhalted := hsteps.running hrunning
      cases hhalted
    have hahead := hcode.step_lt hs.ip hfrom hlt hstep
    omega

/-- **A run without a budget comes to an end**: it fails, or the machine has halted. -/
theorem LeadsAhead.exists_ends (hs : Passed setup s) :
    ∃ r s', (Call.run none).Ends setup s r s' ∧
      ((∃ e, r = .error e) ∨ s'.halted = true ∧ ∃ v, r = .ok (.ran (.finished v))) := by
  generalize hrun : (runFor BuiltinTable.standard (setup.image.code.length + 1)).perform setup s =
    ended
  obtain ⟨r, s'⟩ := ended
  cases r with
  | error e => exact ⟨_, s', .runToEnd hrun nofun, .inl ⟨e, rfl⟩⟩
  | ok outcome =>
    cases outcome with
    | finished v =>
      exact ⟨_, s', .runToEnd hrun nofun, .inr ⟨halted_of_finished hrun, v, rfl⟩⟩
    | exhausted =>
      obtain ⟨hsteps, hrunning⟩ := steps_of_exhausted hrun
      have hmoved := hcode.add_le_ip hs hsteps hrunning
      have hkeeps := (runFor_ensures (E := fun _ => Passed setup) hcode.step_passed
        (resultValue_ensures fun _ _ hs _ _ => hs) (setup.image.code.length + 1)) s hs
      rw [hrun] at hkeeps
      have hend := le_of_boundary hkeeps.ip
      omega

end

end Machine

/-- A program without loops leads ahead. -/
theorem leadsAhead_of_loops {p : Program} {d d' : Draft} {image : Image}
    (h : (Draft.generate p).perform d = (.ok image, d')) (hloops : p.loops = []) :
    LeadsAhead image.code := by
  obtain ⟨is, his, -, hlisting, hrefers⟩ := layout_of_generate h
  have hahead : backJumps 0 is = [] := by
    rw [Program.backJumps_eq his, hloops]
    rfl
  refine ⟨fun a i ha hi => boundary_next hlisting (mem_of_fetch? hlisting ha hi),
    fun a i t ha hi ht => ?_⟩
  have hmem := mem_of_fetch? hlisting ha hi
  refine ⟨?_, (hrefers a i hmem).of_target ht⟩
  have hleads := List.filter_eq_nil_iff.1 hahead _ hmem
  rw [leadsBack, ht] at hleads
  simpa using hleads

/-- **Only loops lead back, and without them every run comes to an end.**  The jumps of a program
whose target is not greater than their own address are the ones that end its loops, one for each
loop.

If there are no loops, then whatever a host has done before, a step that performs an instruction
moves the pointer ahead; where there is none to perform, a step succeeds and the pointer stays.  No
more instructions are performed than the code has bytes, and a run without a budget halts or
fails. -/
theorem generate_progress {p : Program} {d d' : Draft} {image : Image}
    (h : (Draft.generate p).perform d = (.ok image, d')) :
    (∃ listing, listing? image.code = some listing ∧
      listing.filter leadsBack = p.loops.map LoopSite.backJump) ∧
    (p.loops = [] → ∀ (limit : Int) (s : State), Reachable ⟨image, limit⟩ s →
      (∀ goesOn s', s.halted = false → s.ip < image.code.length →
        (step BuiltinTable.standard).perform ⟨image, limit⟩ s = (.ok goesOn, s') → s.ip < s'.ip) ∧
      (s.halted = true ∨ image.code.length ≤ s.ip →
        (step BuiltinTable.standard).perform ⟨image, limit⟩ s =
          (.ok false, { s with halted := true })) ∧
      s.steps ≤ image.code.length ∧
      ∃ r s', (Call.run none).Ends ⟨image, limit⟩ s r s' ∧ s'.steps ≤ image.code.length ∧
        ((∃ e, r = .error e) ∨ s'.halted = true ∧ ∃ v, r = .ok (.ran (.finished v)))) := by
  obtain ⟨is, his, -, hlisting, -⟩ := layout_of_generate h
  refine ⟨⟨locate 0 is, hlisting, Program.backJumps_eq his⟩, fun hloops limit s hs => ?_⟩
  have hahead : LeadsAhead (Setup.image ⟨image, limit⟩).code := leadsAhead_of_loops h hloops
  have hsteps : ∀ s, Reachable ⟨image, limit⟩ s → s.steps ≤ image.code.length := fun s hs =>
    have hpassed := hahead.passed (boundary_zero hlisting) hs
    Nat.le_trans hpassed.steps (le_of_boundary hpassed.ip)
  have hpassed := hahead.passed (boundary_zero hlisting) hs
  obtain ⟨r, s', hends, hresult⟩ := hahead.exists_ends hpassed
  refine ⟨fun goesOn s' hrunning hlt hstep => hahead.step_lt hpassed.ip hrunning hlt hstep,
    fun hidle => step_of_idle hidle, hsteps s hs, r, s', hends, hsteps s' (.call hs hends), hresult⟩

/-- A program that branches, with nothing to do on one side:
`if true \x7b print_int(1); \x7d else \x7b\x7d return 2;`. -/
def branching : Program :=
  let here := Pos.start
  ⟨[.conditional here (.literal here (some (.bool true)))
      [.exprStmt here (.call here "print_int" [.literal here (some (.int 1))])] (.otherwise []),
    .returning here (some (.literal here (some (.int 2))))]⟩

/-- The image of that program. -/
def branchingImage : Image where
  code := [0x02, 1, 0xa1, 13, 0x01, 0, 0, 0, 1, 0xfe, 0, 0xc0, 13, 0x01, 0, 0, 0, 2, 0xff]
  constants := []

theorem compile_branching : branching.compile.toOption = some branchingImage := by
  decide +kernel

theorem generate_progress_examples :
    (∃ listing, listing? countdownImage.code = some listing ∧
      listing.filter leadsBack = [(33, .jump 7)]) ∧
    branching.loops = [] ∧ Reachable ⟨branchingImage, 4⟩ {} ∧
    ({} : State).ip < ((step BuiltinTable.standard).perform ⟨branchingImage, 4⟩ {}).2.ip ∧
    ∃ r s', (Call.run none).Ends ⟨branchingImage, 4⟩ {} r s' ∧ s'.steps ≤ 19 ∧
      ((∃ e, r = .error e) ∨ s'.halted = true ∧ ∃ v, r = .ok (.ran (.finished v))) := by
  obtain ⟨hstep, -, -, hends⟩ :=
    (generate_progress (perform_generate compile_branching)).2 rfl 4 {} .start
  exact ⟨(generate_progress (perform_generate compile_countdown)).1, rfl, .start,
    hstep true _ rfl (by decide) rfl, hends⟩

/-- A program without statements has nothing to perform: its first step succeeds and does not move
the pointer. -/
theorem not_step_lt_of_empty :
    ¬ ∀ (p : Program) (image : Image) (goesOn : Bool) (s' : State),
      p.compile.toOption = some image → p.loops = [] →
      (step BuiltinTable.standard).perform ⟨image, defaultMaxStack⟩ {} = (.ok goesOn, s') →
      fetch? image.code 0 ≠ some .ret → ({} : State).ip < s'.ip := by
  intro h
  have hlt := h ⟨[]⟩ ⟨[], []⟩ false { halted := true } (by decide +kernel) rfl rfl nofun
  exact absurd hlt (Nat.lt_irrefl 0)

end Octet
