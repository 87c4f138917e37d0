import Octet.Draft.Emission

/-!
# Where a fault is

A program that cannot be laid out is refused with a fault and with the place of the fault, as far as
there is one.  Whether there is one depends on nothing but the fault: the faults of a node have the
position of that node, and those of the whole code and of an instruction have none
(`CompileFault.placed`).  What stands where no such node belongs has no position either, since it
may be of any kind.

In particular a place is whole.  A diagnostic that has a line to show has a column as well.

The claim is about every action on a draft (`Emit.Locates`), and what an action fails with does not
depend on what other actions did before.  So it is a claim about the parts of an action.
-/

namespace Octet

/-- Whether a fault is one of a node, which has a position. -/
def CompileFault.placed : CompileFault → Bool
  | operandLength .. | operandRange | wordRange | unmarkedLabel .. => false
  | codeTooLong .. | targetTooFar .. => false
  | misplacedStatement .. | misplacedExpression .. => false
  | _ => true

/-- A fault has a place if and only if it is one of a node. -/
inductive CompileError.Located : CompileError → Prop
  | placed {fault : CompileFault} (h : fault.placed = true) (pos : Pos) :
      Located ⟨fault, .ofPos pos⟩
  | nowhere {fault : CompileFault} (h : fault.placed = false) : Located ⟨fault, .unknown⟩

namespace Emit

variable {α β : Type}

/-- All faults of an action have a place as they should. -/
def Locates (a : Emit α) : Prop :=
  ∀ (d : Draft) (e : CompileError), (a.perform d).1 = .error e → e.Located

theorem Locates.bind {a : Emit α} {f : α → Emit β} (h : a.Locates) (hf : ∀ x, (f x).Locates) :
    Locates (a >>= f) := by
  intro d e he
  rw [perform_bind] at he
  have hfirst := h d
  generalize a.perform d = reached at he hfirst
  obtain ⟨e' | x, d'⟩ := reached
  · cases he
    exact hfirst e rfl
  · exact hf x d' e he

theorem locates_pure (x : α) : Locates (pure x : Emit α) := nofun

theorem locates_get : Locates (get : Emit Draft) := nofun

theorem locates_set (d : Draft) : Locates (set d : Emit Unit) := nofun

theorem locates_modify (f : Draft → Draft) : Locates (modify f : Emit Unit) := nofun

end Emit

namespace Draft

open Emit

/-! ## Actions -/

theorem locates_fail {α : Type} {fault : CompileFault} {site : Site}
    (h : (⟨fault, site⟩ : CompileError).Located) : Locates (fail fault site : Emit α) := by
  intro d e he
  cases he
  exact h

theorem locates_newLabel : newLabel.Locates :=
  locates_get.bind fun _ => (locates_set _).bind fun _ => locates_pure _

theorem locates_mark (l : Label) : (mark l).Locates := locates_modify _

theorem locates_emit (op : Opcode) (operand : List UInt8) : (emit op operand).Locates := by
  rw [emit]
  split
  · exact locates_modify _
  · exact locates_fail (.nowhere rfl)

theorem locates_emitByte (op : Opcode) (n : Int) : (emitByte op n).Locates := by
  rw [emitByte]
  split
  · exact locates_emit op _
  · exact locates_fail (.nowhere rfl)

theorem locates_emitWord (op : Opcode) (n : Int) : (emitWord op n).Locates := by
  rw [emitWord]
  split
  · exact locates_emit op _
  · exact locates_fail (.nowhere rfl)

theorem locates_emitJump (op : Opcode) (l : Label) : (emitJump op l).Locates :=
  (locates_emitByte op 0).bind fun _ => locates_modify _

theorem locates_takeNumber {found : Option Nat} {next most : Nat} {grown : Draft}
    {refusal : CompileError} (h : refusal.Located) :
    Locates (takeNumber found next most grown refusal) := by
  rw [takeNumber.eq_def]
  split
  · exact locates_pure _
  · split
    · exact (locates_set _).bind fun _ => locates_pure _
    · exact locates_fail h

theorem locates_constant (value : String) (pos : Pos) : (constant value (.ofPos pos)).Locates :=
  locates_get.bind fun _ => locates_takeNumber (.placed rfl pos)

theorem locates_allocate (name : String) (pos : Pos) : (allocate name (.ofPos pos)).Locates :=
  locates_get.bind fun _ => locates_takeNumber (.placed rfl pos)

theorem locates_lookup (name : String) (pos : Pos) : (lookup name (.ofPos pos)).Locates := by
  refine locates_get.bind fun d => ?_
  split
  · exact locates_pure _
  · exact locates_fail (.placed rfl pos)

theorem locates_patch (f : Fixup) : (patch f).Locates := by
  refine locates_get.bind fun d => ?_
  split
  · exact locates_fail (.nowhere rfl)
  · split
    · exact locates_modify _
    · exact locates_fail (.nowhere rfl)

theorem locates_forM_patch (fixups : List Fixup) : Locates (fixups.forM patch) := by
  induction fixups with
  | nil => exact locates_pure ()
  | cons f fixups ih => exact (locates_patch f).bind fun _ => ih

theorem locates_resolve : resolve.Locates := by
  refine locates_get.bind fun d => ?_
  split
  · exact locates_fail (.nowhere rfl)
  · exact locates_forM_patch d.fixups

end Draft

open Draft Emit

/-! ## Trees -/

theorem locates_emitLiteral (pos : Pos) (value : Option Scalar) :
    (emitLiteral pos value).Locates := by
  rw [emitLiteral.eq_def]
  split
  · exact locates_emitByte _ _
  · split
    · exact locates_emitWord _ _
    · exact locates_fail (.placed rfl pos)
  · exact (locates_constant _ pos).bind fun _ => locates_emitByte _ _
  · exact locates_fail (.placed rfl pos)

mutual

/-- Laying out an expression. -/
theorem Expr.locates : ∀ e : Expr, e.emit.Locates
  | .literal pos value => by
    rw [Expr.emit]
    exact locates_emitLiteral pos value
  | .identifier pos name => by
    rw [Expr.emit]
    exact (locates_lookup name pos).bind fun _ => locates_emitByte _ _
  | .unary pos op operand => by
    rw [Expr.emit]
    split
    · exact locates_emitWord _ _
    · refine (Expr.locates operand).bind fun _ => ?_
      split
      · exact locates_emit _ _
      · exact locates_fail (.placed rfl pos)
  | .binary pos left op right => by
    rw [Expr.emit]
    split
    · exact (Expr.locates left).bind fun _ => (Expr.locates right).bind fun _ => locates_emit _ _
    · exact locates_fail (.placed rfl pos)
  | .call pos name args => by
    rw [Expr.emit]
    split
    · split
      · exact (Expr.locatesList args).bind fun _ => locates_emitByte _ _
      · exact locates_fail (.placed rfl pos)
    · exact locates_fail (.placed rfl pos)
  | .misplaced kind => by
    rw [Expr.emit]
    exact locates_fail (.nowhere rfl)

theorem Expr.locatesList : ∀ es : List Expr, (Expr.emitList es).Locates
  | [] => by
    rw [Expr.emitList]
    exact locates_pure ()
  | e :: es => by
    rw [Expr.emitList]
    exact (Expr.locates e).bind fun _ => Expr.locatesList es

end

mutual

/-- Laying out a statement. -/
theorem Stmt.locates (loopEnd : Option Label) : ∀ s : Stmt, (s.emit loopEnd).Locates
  | .exprStmt pos e => by
    rw [Stmt.emit]
    exact e.locates
  | .letDecl pos name value => by
    rw [Stmt.emit]
    exact value.locates.bind fun _ => (locates_allocate name pos).bind fun _ =>
      locates_emitByte _ _
  | .assign pos name value => by
    rw [Stmt.emit]
    exact (locates_lookup name pos).bind fun _ => value.locates.bind fun _ =>
      locates_emitByte _ _
  | .returning pos none => by
    rw [Stmt.emit]
    exact locates_emit _ _
  | .returning pos (some value) => by
    rw [Stmt.emit]
    exact value.locates.bind fun _ => locates_emit _ _
  | .breaking pos => by
    cases loopEnd with
    | none => exact locates_fail (.placed rfl pos)
    | some l => exact locates_emitJump _ l
  | .conditional pos cond body rest => by
    rw [Stmt.emit]
    refine locates_newLabel.bind fun finish => locates_newLabel.bind fun next => ?_
    refine cond.locates.bind fun _ => (locates_emitJump _ next).bind fun _ => ?_
    refine (Stmt.locatesList loopEnd body).bind fun _ => ?_
    exact (Chain.locates loopEnd finish next rest).bind fun _ => locates_mark finish
  | .loop pos body => by
    rw [Stmt.emit]
    refine locates_newLabel.bind fun start => locates_newLabel.bind fun finish => ?_
    refine (locates_mark start).bind fun _ => ?_
    refine (Stmt.locatesList (some finish) body).bind fun _ => ?_
    exact (locates_emitJump _ start).bind fun _ => locates_mark finish
  | .fnDecl pos name params body => by
    rw [Stmt.emit]
    exact locates_fail (.placed rfl pos)
  | .misplaced kind => by
    rw [Stmt.emit]
    exact locates_fail (.nowhere rfl)

theorem Stmt.locatesList (loopEnd : Option Label) :
    ∀ ss : List Stmt, (Stmt.emitList loopEnd ss).Locates
  | [] => by
    rw [Stmt.emitList]
    exact locates_pure ()
  | s :: ss => by
    rw [Stmt.emitList]
    exact (Stmt.locates loopEnd s).bind fun _ => Stmt.locatesList loopEnd ss

theorem Chain.locates (loopEnd : Option Label) :
    ∀ (finish next : Label) (rest : Chain), (rest.emit loopEnd finish next).Locates
  | _, next, .done => by
    rw [Chain.emit]
    exact locates_mark next
  | finish, next, .otherwise body => by
    rw [Chain.emit]
    refine (locates_emitJump _ finish).bind fun _ => (locates_mark next).bind fun _ => ?_
    exact Stmt.locatesList loopEnd body
  | finish, next, .elseIf cond body rest => by
    rw [Chain.emit]
    refine (locates_emitJump _ finish).bind fun _ => (locates_mark next).bind fun _ => ?_
    refine locates_newLabel.bind fun later => cond.locates.bind fun _ => ?_
    refine (locates_emitJump _ later).bind fun _ => ?_
    refine (Stmt.locatesList loopEnd body).bind fun _ => ?_
    exact Chain.locates loopEnd finish later rest

end

/-- A fault of a program has the place of a node, or it is not one of a node. -/
theorem located_of_layOut {p : Program} {e : CompileError} {d : Draft}
    (h : p.layOut = (.error e, d)) : e.Located := by
  have hgenerate : (Draft.generate p).Locates := by
    refine (locates_modify _).bind fun _ => ?_
    refine (Stmt.locatesList none p.items).bind fun _ => locates_resolve.bind fun _ => ?_
    exact locates_get.bind fun _ => locates_pure _
  exact hgenerate {} e (congrArg Prod.fst h)

end Octet
