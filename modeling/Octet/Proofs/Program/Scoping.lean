import Octet.Proofs.Layout.Backpatching
import Octet.Proofs.Layout.Scopes
import Octet.Proofs.Program.Safety
import Octet.Source

/-!
# Programs read what they have bound

To be laid out, a program has to bind its variables above the places where it reads them.  That is
not enough: the binding may stand in a block that is not entered, or behind a `break`, and then the
machine finds nothing in the register.  It is enough if bindings are read in their own block only
and in the blocks inside of it, which is how a reader of the program would take them.
-/

namespace Octet

open Machine

/-- **A lexically scoped program reads no register that was not written.**  Suppose that each
variable that a program reads was bound by an earlier statement of the same block, or of a block
around it.  As long as no instruction has failed, no call of a host fails for want of a register,
whatever the limit of the stack. -/
theorem generate_readsWritten {p : Program} {d d' : Draft} {image : Image}
    (h : (Draft.generate p).perform d = (.ok image, d')) (hscoped : p.LexicallyScoped) (limit : Int)
    (s : State) (hs : Unharmed ⟨image, limit⟩ s) (c : Call) (r : Except MachineError Answer)
    (s' : State) (hends : c.Ends ⟨image, limit⟩ s r s') :
    ∀ q a, r ≠ .error (.trap (.unsetRegister q) a) := by
  obtain ⟨is, his, hcode, -⟩ := generate_ok h
  have hstart : ReadsWritten ⟨image, limit⟩ {} := by
    intro n
    show Covered image.code n 0 _
    rw [hcode]
    exact Program.covered his hscoped n _
  exact (hends.covered (hs.covered hstart)).1

theorem generate_readsWritten_countdown :
    countdown.LexicallyScoped ∧ Unharmed ⟨countdownImage, 2⟩ {} ∧
      ∀ (budget : Int) (r : Except MachineError Answer) (s' : State),
        (Call.run (some budget)).Ends ⟨countdownImage, 2⟩ {} r s' →
        ∀ q a, r ≠ .error (.trap (.unsetRegister q) a) := by
  have hscoped : countdown.LexicallyScoped := by decide
  exact ⟨hscoped, .start, fun budget r s' hends =>
    generate_readsWritten (perform_generate compile_countdown) hscoped 2 {} .start _ r s' hends⟩

/-- A program that reads a variable behind the block that binds it:
`if false \x7b let x = 1; \x7d x;`. -/
def hiddenBinding : Program :=
  let here := Pos.start
  ⟨[.conditional here (.literal here (some (.bool false)))
      [.letDecl here "x" (.literal here (some (.int 1)))] .done,
    .exprStmt here (.identifier here "x")]⟩

example : ¬ hiddenBinding.LexicallyScoped := by decide

example : (hiddenBinding.compile.map fun image => (image.runFor 9).1) =
    .ok (.error (.trap (.unsetRegister 0) 11)) := by
  rfl

end Octet
