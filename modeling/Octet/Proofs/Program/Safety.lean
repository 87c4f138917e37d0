import Octet.Proofs.Layout.Backpatching
import Octet.Proofs.Machine.Host

/-!
# Programs do not break the machine

The machine takes any bytes for code, and there are several ways in which bytes can
be no code at all.  A program that is laid out has none of them: its code is a
sequence of whole instructions, and what they refer to exists
(`LaidOut`).  So the boundaries of its instructions are pointers that the code
allows, there is a readable instruction at each of them but the end, and the
machine never leaves them.
-/

namespace Octet

open Code Machine

section

variable {image : Image} {registers : List String} {listing : List (Nat × Instr)}

/-- The pointer stays on boundaries if the jumps do. -/
theorem allows_boundary (hlisting : listing? image.code = some listing)
    (hrefers : ∀ a i, (a, i) ∈ listing →
      i.Refers ⟨image.constants, registers⟩ (Boundary image.code)) :
    Allows image.code (Boundary image.code) := by
  refine ⟨boundary_zero hlisting, ?_, ?_⟩
  · intro a i ha hi
    exact boundary_next hlisting (mem_of_fetch? hlisting ha hi)
  · intro a i target ha hi hjump _
    have htarget := hrefers a i (mem_of_fetch? hlisting ha hi)
    rcases hjump with rfl | rfl
    · exact htarget
    · exact htarget

/-- At every boundary but the end stands an instruction that refers to something. -/
theorem readable_boundary (hlisting : listing? image.code = some listing)
    (hrefers : ∀ a i, (a, i) ∈ listing →
      i.Refers ⟨image.constants, registers⟩ (Boundary image.code)) :
    Readable image registers (Boundary image.code) := by
  intro a ha hlt
  obtain ⟨i, hi⟩ := mem_of_boundary hlisting ha hlt
  exact ⟨i, fetch?_of_mem_listing? hlisting hi,
    (hrefers a i hi).mono fun _ htarget => le_of_boundary htarget⟩

end

/-- The code of a program that is laid out is read as the instructions it was laid out as, and what
they refer to exists. -/
theorem layout_of_generate {p : Program} {d d' : Draft} {image : Image}
    (h : (Draft.generate p).perform d = (.ok image, d')) :
    ∃ is, p.instrs? ⟨image.constants, d'.registers⟩ = some is ∧ image.code = assemble is ∧
      listing? image.code = some (locate 0 is) ∧
      ∀ a i, (a, i) ∈ locate 0 is →
        i.Refers ⟨image.constants, d'.registers⟩ (Boundary image.code) := by
  obtain ⟨is, his, hcode, -⟩ := generate_ok h
  have hlaid := Program.laidOut his
  refine ⟨is, his, hcode, by rw [hcode, listing?_assemble hlaid.spellable], fun a i hi => ?_⟩
  refine (hlaid.refers i (mem_of_mem_locate hi)).mono fun target htarget => ?_
  rw [hcode]
  exact boundary_of_starts hlaid.spellable htarget

/-- The code of a program that is laid out is a listing whose operands refer to something. -/
theorem listing_of_generate {p : Program} {d d' : Draft} {image : Image}
    (h : (Draft.generate p).perform d = (.ok image, d')) :
    ∃ listing, listing? image.code = some listing ∧
      assemble (listing.map Prod.snd) = image.code ∧
      ∀ a i, (a, i) ∈ listing →
        i.Refers ⟨image.constants, d'.registers⟩ (Boundary image.code) := by
  obtain ⟨is, -, hcode, hlisting, hrefers⟩ := layout_of_generate h
  exact ⟨locate 0 is, hlisting, by rw [map_snd_locate, hcode], hrefers⟩

/-- **A program that is laid out never breaks the machine.**  Its code is short enough
to be addressed, is a sequence of whole instructions, and their operands refer to
instructions, texts, registers and built-ins that exist.  Whatever a host does with
the machine and however high the stack may grow, the pointer stays on boundaries of
instructions, and no call fails because of broken code. -/
theorem generate_safe {p : Program} {d d' : Draft} {image : Image}
    (h : (Draft.generate p).perform d = (.ok image, d')) :
    image.code.length ≤ 256 ∧
    (∃ listing, listing? image.code = some listing ∧
      assemble (listing.map Prod.snd) = image.code ∧
      ∀ a i, (a, i) ∈ listing →
        i.Refers ⟨image.constants, d'.registers⟩ (Boundary image.code)) ∧
    ∀ (limit : Int) (s : State), Reachable ⟨image, limit⟩ s →
      Boundary image.code s.ip ∧
      ∀ (c : Call) (r : Except MachineError Answer) (s' : State),
        c.Ends ⟨image, limit⟩ s r s' → ∀ e, r = .error e → ¬ e.Corrupt := by
  obtain ⟨_, _, _, hlength⟩ := generate_ok h
  obtain ⟨listing, hlisting, hcode, hrefers⟩ := listing_of_generate h
  have hallows := allows_boundary hlisting hrefers
  have hreadable := readable_boundary hlisting hrefers
  refine ⟨hlength, ⟨listing, hlisting, hcode, hrefers⟩, ?_⟩
  intro limit s hs
  have hsound : s.Sound ⟨image, limit⟩ (Boundary image.code) := hs.sound hallows
  refine ⟨hsound.ip, fun c r s' hends e he => ?_⟩
  exact (Call.Ends.sound d'.registers hallows hsound hends).2 e he hreadable

/-! ## An example -/

/-- A program that counts down in a loop:
`let i = 3; loop \x7b if i == 0 \x7b break; \x7d print_int(i); i = i - 1; \x7d print_str("done");`. -/
def countdown : Program :=
  let here := Pos.start
  ⟨[.letDecl here "i" (.literal here (some (.int 3))),
    .loop here
      [.conditional here
        (.binary here (.identifier here "i") "==" (.literal here (some (.int 0))))
        [.breaking here] .done,
      .exprStmt here (.call here "print_int" [.identifier here "i"]),
      .assign here "i"
        (.binary here (.identifier here "i") "-" (.literal here (some (.int 1))))],
    .exprStmt here (.call here "print_str" [.literal here (some (.text "done"))])]⟩

/-- The image of that program. -/
def countdownImage : Image where
  code := [0x01, 0, 0, 0, 3, 0xfc, 0,
    0xfb, 0, 0x01, 0, 0, 0, 0, 0x12, 0xa1, 19, 0xc0, 35,
    0xfb, 0, 0xfe, 0, 0xfb, 0, 0x01, 0, 0, 0, 1, 0x0d, 0xfc, 0, 0xc0, 7,
    0xfa, 0, 0xfe, 2]
  constants := ["done"]

/-- The image of a program is what laying it out from scratch yields. -/
theorem perform_generate {p : Program} {image : Image}
    (h : p.compile.toOption = some image) :
    (Draft.generate p).perform {} = (.ok image, p.layOut.2) := by
  have hpair : (Draft.generate p).perform {} = (p.compile, p.layOut.2) := rfl
  rw [hpair]
  cases hcompile : p.compile with
  | error e =>
    rw [hcompile] at h
    cases h
  | ok image' =>
    rw [hcompile] at h
    cases h
    rfl

theorem compile_countdown : countdown.compile.toOption = some countdownImage := by
  decide +kernel

theorem generate_safe_countdown :
    (Draft.generate countdown).perform {} = (.ok countdownImage, countdown.layOut.2) ∧
      ∀ s, Reachable ⟨countdownImage, 4⟩ s → Boundary countdownImage.code s.ip :=
  ⟨perform_generate compile_countdown,
    fun s hs => ((generate_safe (perform_generate compile_countdown)).2.2 4 s hs).1⟩

end Octet
