import Mathlib.Logic.Function.Iterate
import Octet.Proofs.Layout.Exits
import Octet.Proofs.Machine.Movement
import Octet.Proofs.Program.Safety

/-!
# A loop that is never left keeps the machine

If neither a `return` nor a `break` leads out of a loop, the machine stays in it, whatever the stack
and the registers hold and whatever goes wrong.  An instruction that fails is passed, so what counts
is not only where an instruction leads but also what is behind it: in the body that is another
instruction of the loop, and the jump at the end, which has the end of the loop behind it, cannot
fail.

Many places of the body may be one address: an inner conditional or an inner loop may end where the
body ends, which is where the jump back stands.  For the statement here nothing depends on telling
them apart; all that is used of an address is which instruction stands there.
-/

namespace Octet

open Code Machine

namespace Machine

/-- The state after a step, whether the step succeeds or fails. -/
def stepped (setup : Setup) (s : State) : State :=
  ((step BuiltinTable.standard).perform setup s).2

/-- At each of the addresses stands an instruction that does not end the program and leads to
another of the addresses.  What is behind a jump that is always taken does not matter. -/
structure Confines (code : List UInt8) (inside : Nat → Prop) : Prop where
  fetch : ∀ a, inside a → ∃ i, fetch? code a = some i ∧ i ≠ .ret
  next : ∀ a i, inside a → fetch? code a = some i → (∀ t, i ≠ .jump t) → inside (a + i.size)
  target : ∀ a i t, inside a → fetch? code a = some i → i.target? = some t → inside t

section

variable {setup : Setup} {s : State} {inside : Nat → Prop}

/-- The state runs, and its pointer is at one of the addresses. -/
structure Confined (inside : Nat → Prop) (s : State) : Prop where
  running : s.halted = false
  ip : inside s.ip

theorem Confines.lt (h : Confines setup.image.code inside) {a : Nat} (ha : inside a) :
    a < setup.image.code.length := by
  obtain ⟨i, hi, -⟩ := h.fetch a ha
  exact lt_of_fetch? hi

/-- **A step does not lead out of the addresses**, nor does a failed one. -/
theorem Confines.step (h : Confines setup.image.code inside) (hs : Confined inside s) :
    Confined inside (stepped setup s) := by
  generalize hstep : (Machine.step BuiltinTable.standard).perform setup s = done
  obtain ⟨r, s'⟩ := done
  have hstepped : stepped setup s = s' := by rw [stepped, hstep]
  obtain ⟨i, hi, hret⟩ := h.fetch s.ip hs.ip
  rw [hstepped]
  cases step_stepped hstep with
  | idle hend =>
    rcases hend with hhalted | hend
    · rw [hs.running] at hhalted
      cases hhalted
    · exact absurd (h.lt hs.ip) (Nat.not_lt.2 hend)
  | stopped _ => exact hs
  | unreadable hfetch _ _ =>
    rw [hi] at hfetch
    cases hfetch
  | @performed j s₁ _ hfetch hleads =>
    rw [hi] at hfetch
    cases hfetch
    have hip : inside s₁.ip := by
      rcases hleads.ip with hnext | htarget
      · by_cases hjump : ∃ t, i = .jump t
        · obtain ⟨t, rfl⟩ := hjump
          rw [hleads.jump t rfl]
          exact h.target _ _ _ hs.ip hi rfl
        · rw [hnext]
          exact h.next _ _ hs.ip hi fun t ht => hjump ⟨t, ht⟩
      · exact h.target _ _ _ hs.ip hi htarget
    rw [settled_of_lt (h.lt hip)]
    exact ⟨(hleads.halted hret).trans hs.running, hip⟩
  | @failed j e _ _ hfetch hgives =>
    rw [hi] at hfetch
    cases hfetch
    refine ⟨hgives.still.halted.trans hs.running, ?_⟩
    have hnext : s'.ip = s.ip + i.size := hgives.still.ip
    rw [hnext]
    refine h.next _ _ hs.ip hi fun t ht => ?_
    -- a jump whose target is in the code does not fail
    subst ht
    have htarget := h.lt (h.target _ _ _ hs.ip hi rfl)
    have houtside := hgives.jump t rfl
    omega

/-- Any number of steps do not lead out of the addresses. -/
theorem Confines.iterate (h : Confines setup.image.code inside) (hs : Confined inside s) (n : Nat) :
    Confined inside ((stepped setup)^[n] s) := by
  induction n generalizing s with
  | zero => exact hs
  | succ n ih => exact ih (h.step hs)

end

end Machine

section

variable {l : LoopSite} {front block rest : List Instr}
  (hstart : 0 + Code.size front = l.start) (hback : l.start + Code.size block = l.back)

include hstart hback

theorem size_loop : 0 + Code.size (front ++ (block ++ [.jump (UInt8.ofNat l.start)])) = l.finish := by
  rw [size_append, size_append, ← Nat.add_assoc, ← Nat.add_assoc, hstart, hback]
  rfl

/-- At an address of a loop stands an instruction of its body, or the jump that leads back. -/
theorem mem_block_or_eq_backJump {a : Nat} {i : Instr}
    (hmem : (a, i) ∈ locate 0 (front ++ (block ++ [.jump (UInt8.ofNat l.start)]) ++ rest))
    (hge : l.start ≤ a) (hlt : a < l.finish) :
    (a, i) ∈ locate l.start block ∨ (a, i) = l.backJump := by
  have hlocate : locate 0 (front ++ (block ++ [.jump (UInt8.ofNat l.start)]) ++ rest) =
      locate 0 front ++ (locate l.start block ++ [l.backJump]) ++ locate l.finish rest := by
    rw [locate_append, size_loop hstart hback, locate_append 0, hstart, locate_append l.start, hback]
    rfl
  have hpos := i.size_pos
  rw [hlocate, List.mem_append, List.mem_append, List.mem_append, List.mem_singleton] at hmem
  rcases hmem with (hmem | hmem) | hmem
  · have hbounds := bounds_of_mem_locate hmem
    omega
  · exact hmem
  · have hbounds := bounds_of_mem_locate hmem
    omega

end

/-- The addresses of a loop that is never left confine the machine. -/
theorem confines_of_neverLeft {p : Program} {d d' : Draft} {image : Image}
    (h : (Draft.generate p).perform d = (.ok image, d')) {l : LoopSite} (hl : l ∈ p.loops)
    (hstays : l.NeverLeft) :
    Confines image.code fun a => Boundary image.code a ∧ l.start ≤ a ∧ a < l.finish := by
  obtain ⟨is, his, hcode, hlisting, htargets⟩ := layout_of_generate h
  obtain ⟨front, block, rest, hcut, hstart, hback, hnat, hret, hrefers⟩ :=
    (Stmt.sitsList p.items his l hl).neverLeft hstays
  have hfinish : l.finish = l.back + 2 := rfl
  have hend : l.finish ≤ image.code.length := by
    rw [hcode, length_assemble, hcut, size_append, ← size_loop hstart hback]
    omega
  have hcases : ∀ a i, l.start ≤ a → a < l.finish → (a, i) ∈ locate 0 is →
      (a, i) ∈ locate l.start block ∨ (a, i) = l.backJump := by
    intro a i hge hlt hmem
    rw [hcut] at hmem
    exact mem_block_or_eq_backJump hstart hback hmem hge hlt
  refine ⟨?_, ?_, ?_⟩
  · rintro a ⟨ha, hge, hlt⟩
    obtain ⟨i, hi⟩ := mem_of_boundary hlisting ha (Nat.lt_of_lt_of_le hlt hend)
    refine ⟨i, fetch?_of_mem_listing? hlisting hi, ?_⟩
    rcases hcases a i hge hlt hi with hmem | hmem
    · rintro rfl
      exact hret (mem_of_mem_locate hmem)
    · cases hmem
      exact nofun
  · rintro a i ⟨ha, hge, hlt⟩ hi hjump
    have hmem := mem_of_fetch? hlisting ha hi
    refine ⟨boundary_next hlisting hmem, ?_⟩
    rcases hcases a i hge hlt hmem with hmem | hmem
    · have hbounds := bounds_of_mem_locate hmem
      omega
    · cases hmem
      exact absurd rfl (hjump _)
  · rintro a i t ⟨ha, hge, hlt⟩ hi ht
    have hmem := mem_of_fetch? hlisting ha hi
    refine ⟨(htargets a i hmem).of_target ht, ?_⟩
    rcases hcases a i hge hlt hmem with hmem | hmem
    · have hstarts := (hrefers i (mem_of_mem_locate hmem)).of_target ht
      have hge := starts_ge hstarts
      have hle := le_of_starts hstarts
      omega
    · cases hmem
      cases ht
      rw [hnat, hfinish, LoopSite.back]
      omega

/-- **A loop that is never left keeps the machine.**  Take a loop of a program, at any depth, whose
body has no `return` and no `break` of this loop, and any state that is running and whose pointer is
at an instruction of the loop, whatever else it holds.  After any number of steps, whether they
succeed or fail, the pointer is in the loop and the machine has not halted. -/
theorem generate_confined {p : Program} {d d' : Draft} {image : Image}
    (h : (Draft.generate p).perform d = (.ok image, d')) {l : LoopSite} (hl : l ∈ p.loops)
    (hstays : l.NeverLeft) (limit : Int) (s : State) (hrunning : s.halted = false)
    (hip : Boundary image.code s.ip) (hstart : l.start ≤ s.ip) (hfinish : s.ip < l.finish) (n : Nat) :
    l.start ≤ ((stepped ⟨image, limit⟩)^[n] s).ip ∧
      ((stepped ⟨image, limit⟩)^[n] s).ip < l.finish ∧
      ((stepped ⟨image, limit⟩)^[n] s).halted = false := by
  have hconfines : Confines (Setup.image ⟨image, limit⟩).code _ := confines_of_neverLeft h hl hstays
  obtain ⟨hrunning', -, hstart', hfinish'⟩ :=
    hconfines.iterate ⟨hrunning, hip, hstart, hfinish⟩ n
  exact ⟨hstart', hfinish', hrunning'⟩

/-- A block with a loop that is left at once, and a test of nothing at its end:
`loop \x7b break; \x7d if true \x7b\x7d`. -/
def idleBlock : List Stmt :=
  let here := Pos.start
  [.loop here [.breaking here],
    .conditional here (.literal here (some (.bool true))) [] .done]

/-- A program that does this over and over. -/
def treadmill : Program :=
  ⟨[.loop Pos.start idleBlock]⟩

/-- The image of that program. -/
def treadmillImage : Image where
  code := [0xc0, 4, 0xc0, 0, 0x02, 1, 0xa1, 8, 0xc0, 0]
  constants := []

theorem compile_treadmill : treadmill.compile.toOption = some treadmillImage := by
  decide +kernel

/-- A state in front of the test, with a text on the stack. -/
def walkingState : State where
  ip := 4
  stack := [.str 3]

theorem generate_confined_treadmill :
    ⟨0, idleBlock⟩ ∈ treadmill.loops ∧ LoopSite.NeverLeft ⟨0, idleBlock⟩ ∧
    Boundary treadmillImage.code walkingState.ip ∧
      ∀ n, ((stepped ⟨treadmillImage, 1⟩)^[n] walkingState).ip < 10 ∧
        ((stepped ⟨treadmillImage, 1⟩)^[n] walkingState).halted = false := by
  have hloop : ⟨0, idleBlock⟩ ∈ treadmill.loops :=
    List.mem_append_left _ (List.mem_append_right _ (List.mem_singleton_self _))
  have hstays : LoopSite.NeverLeft ⟨0, idleBlock⟩ := by decide
  have hip : Boundary treadmillImage.code walkingState.ip :=
    ⟨[(0, .jump 4), (2, .jump 0), (4, .pushBool true), (6, .jumpIfFalse 8), (8, .jump 0)],
      by decide +kernel, .inl ⟨.pushBool true, by decide⟩⟩
  exact ⟨hloop, hstays, hip, fun n => (generate_confined (perform_generate compile_treadmill) hloop
    hstays 1 walkingState rfl hip (by decide) (by decide) n).2⟩

end Octet
