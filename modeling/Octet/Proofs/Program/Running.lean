import Octet.Proofs.Draft.Jumps
import Octet.Proofs.Machine.Budgets
import Octet.Proofs.Program.Correctness
import Octet.Source

/-!
# Running a text

A text that is compiled and run without a budget is refused, or a fresh machine runs its image to
an end (`Source.Runs`).  It comes to one thing at most (`Source.Runs.unique`), and to nothing if the
machine never ends.

Nothing has to be known of code to find out what a text comes to.  Its tree says whether it has an
image, by its demands (`compile_of_allMet`, `compile_of_firstUnmet`), and the meaning of the tree
says what the machine does with that image (`runs_of_meaning`).
-/

namespace Octet

open Demand

/-! ## Laying out -/

/-- A list of demands has one first unmet demand at most. -/
theorem Demand.FirstUnmet.unique {demands : List Demand} {demand demand' : Demand}
    (h : FirstUnmet demands demand) (h' : FirstUnmet demands demand') : demand = demand' := by
  obtain ⟨front, back, rfl, hfront, hunmet⟩ := h
  obtain ⟨front', back', heq, hfront', hunmet'⟩ := h'
  -- the shorter front is a part of the longer one, in which everything is met
  rcases List.append_eq_append_iff.1 heq with ⟨between, rfl, hbetween⟩ | ⟨between, rfl, hbetween⟩
  · cases between with
    | nil => exact (List.cons.inj hbetween).1
    | cons first between =>
      obtain ⟨rfl, -⟩ := List.cons.inj hbetween
      exact absurd (hfront' rfl) hunmet
  · cases between with
    | nil => exact (List.cons.inj hbetween).1.symm
    | cons first between =>
      obtain ⟨rfl, -⟩ := List.cons.inj hbetween
      exact absurd (hfront rfl) hunmet'

namespace Program

variable {p : Program}

/-- A program has an image if all of its demands are met and its code can be addressed. -/
theorem compile_of_allMet (hall : AllMet p.demands) (hsize : Stmt.sizeList p.items ≤ maxCodeSize)
    (htargets : ∀ a ∈ p.targets, a < 256) : ∃ image, p.compile = .ok image := by
  have hcomes := Draft.comesTo_generate p {}
  rw [show (Draft.generate p).perform {} = (p.compile, p.layOut.2) from rfl] at hcomes
  generalize p.compile = compiled at hcomes
  cases hcomes with
  | image _ _ _ _ _ => exact ⟨_, rfl⟩
  | demand hunmet _ => exact absurd hall hunmet.not_allMet
  | size _ hlong => exact absurd hsize (Nat.not_le.2 hlong)
  | target _ _ hmem hge => exact absurd (htargets _ hmem) (Nat.not_lt.2 hge)

/-- A program with an unmet demand is refused for the first of them. -/
theorem compile_of_firstUnmet {demand : Demand} (h : FirstUnmet p.demands demand) :
    ∃ site, p.compile = .error ⟨demand.fault, site⟩ := by
  have hcomes := Draft.comesTo_generate p {}
  rw [show (Draft.generate p).perform {} = (p.compile, p.layOut.2) from rfl] at hcomes
  generalize p.compile = compiled at hcomes
  cases hcomes with
  | image hall _ _ _ _ => exact absurd hall h.not_allMet
  | demand hunmet _ =>
    rw [h.unique hunmet]
    exact ⟨_, rfl⟩
  | size hall _ => exact absurd hall h.not_allMet
  | target hall _ _ _ => exact absurd hall h.not_allMet

end Program

/-! ## Running -/

namespace Source

/-- A text is compiled, and its image is run on a fresh machine for as long as it takes. -/
inductive Runs (text : String) :
    Except SourceError (Except MachineError (Option Scalar) × Array String) → Prop
  | refused {e : SourceError} (h : compile text = .error e) : Runs text (.error e)
  | ended {image : Image} {r : Except MachineError (Option Scalar)} {s : State}
      (hcompile : compile text = .ok image)
      (hruns : Machine.Runs .standard ⟨image, defaultMaxStack⟩ {} r s) :
      Runs text (.ok (r, s.output))

variable {text : String}

/-- A text comes to one thing at most. -/
theorem Runs.unique {x y : Except SourceError (Except MachineError (Option Scalar) × Array String)}
    (hx : Runs text x) (hy : Runs text y) : x = y := by
  cases hx with
  | refused h =>
    cases hy with
    | refused h' => cases h.symm.trans h'; rfl
    | ended hcompile _ => cases h.symm.trans hcompile
  | ended hcompile hruns =>
    cases hy with
    | refused h' => cases hcompile.symm.trans h'
    | ended hcompile' hruns' =>
      cases hcompile.symm.trans hcompile'
      obtain ⟨least, hleast⟩ := Machine.runs_iff.1 hruns
      obtain ⟨least', hleast'⟩ := Machine.runs_iff.1 hruns'
      obtain ⟨hresult, rfl⟩ := Prod.mk.inj
        ((hleast (max least least') (Nat.le_max_left ..)).symm.trans
          (hleast' (max least least') (Nat.le_max_right ..)))
      rw [Machine.map_finished_inj hresult]

/-- A text that cannot be scanned is refused for that. -/
theorem runs_of_lexError {tokens : List Token} {e : LexError}
    (h : (Cursor.ofText text).tokens = (tokens, some e)) : Runs text (.error (.lex e)) := by
  refine .refused ?_
  rw [compile, parse, tokenize, h]
  rfl

/-- A text whose program is refused is refused for the same reason. -/
theorem runs_of_compileError {p : Program} {e : CompileError} (hparse : parse text = .ok p)
    (h : p.compile = .error e) : Runs text (.error (.compile e)) := by
  refine .refused ?_
  rw [compile_of_parse hparse, h]
  rfl

/-- **A text comes to what its program means**, if the program is laid out and ends well. -/
theorem runs_of_meaning {p : Program} {image : Image} {fuel : Nat} {value : Option Scalar}
    {output : Array String} (hparse : parse text = .ok p) (hcompile : p.compile = .ok image)
    (hdebug : p.callsDebug = false)
    (hmeaning : p.meaning defaultMaxStack fuel = (some (.returned value), output)) :
    Runs text (.ok (.ok value, output)) := by
  have hgenerate : (Draft.generate p).perform {} = (.ok image, p.layOut.2) :=
    Prod.ext hcompile rfl
  rcases observes_meaning hgenerate hdebug defaultMaxStack fuel with
    ⟨verdict, output', hmeaning', n, hobserves⟩ | ⟨output', hmeaning', -⟩
  · cases hmeaning.symm.trans hmeaning'
    cases hobserves with
    | finished hrun =>
      have himage : compile text = .ok image := by
        rw [compile_of_parse hparse, hcompile]
        rfl
      exact .ended himage (Machine.runs_of_runFor hrun)
  · cases hmeaning.symm.trans hmeaning'

end Source
end Octet
