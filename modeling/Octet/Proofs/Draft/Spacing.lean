import Octet.Proofs.Draft.Renaming
import Octet.Proofs.Tree.Completeness

/-!
# Laying out does not depend on positions

To wipe out the positions of a tree is to move all of its nodes to one place and to rename nothing
(`Renaming.unplacing`).  So a tree without its positions leads to the same code, the same tables and
the same labels as the tree, and if they fail, they fail with the same fault.  This is
`perform_generate_renamed` with names and texts that stay the same.
-/

namespace Octet

open Draft

/-- Everything is moved to one place, and nothing is renamed. -/
def Renaming.unplacing : Renaming :=
  ⟨id, id, fun _ => .start⟩

theorem Renaming.unplacing_injective : Renaming.unplacing.Injective :=
  ⟨Function.injective_id, Function.injective_id⟩

/-- A text keeps its wording. -/
theorem Scalar.renamed_unplacing (v : Scalar) : v.renamed .unplacing = v := by
  cases v <;> rfl

mutual

theorem Expr.renamed_unplacing : ∀ e : Expr, e.renamed .unplacing = e.unplaced
  | .literal pos value => by
    have hvalue : value.map (Scalar.renamed .unplacing) = value := by
      cases value with
      | none => rfl
      | some v => rw [Option.map_some, v.renamed_unplacing]
    rw [Expr.renamed, Expr.unplaced, hvalue]
    rfl
  | .identifier pos name => rfl
  | .unary pos op operand => by
    rw [Expr.renamed, Expr.unplaced, Expr.renamed_unplacing operand]
    rfl
  | .binary pos left op right => by
    rw [Expr.renamed, Expr.unplaced, Expr.renamed_unplacing left, Expr.renamed_unplacing right]
    rfl
  | .call pos name args => by
    rw [Expr.renamed, Expr.unplaced, Expr.renamedList_unplacing args]
    rfl
  | .misplaced kind => rfl

theorem Expr.renamedList_unplacing : ∀ es : List Expr,
    Expr.renamedList .unplacing es = Expr.unplacedList es
  | [] => rfl
  | e :: es => by
    rw [Expr.renamedList, Expr.unplacedList, Expr.renamed_unplacing e,
      Expr.renamedList_unplacing es]

end

mutual

theorem Stmt.renamed_unplacing : ∀ s : Stmt, s.renamed .unplacing = s.unplaced
  | .exprStmt pos e => by
    rw [Stmt.renamed, Stmt.unplaced, e.renamed_unplacing]
    rfl
  | .letDecl pos name value => by
    rw [Stmt.renamed, Stmt.unplaced, value.renamed_unplacing]
    rfl
  | .assign pos name value => by
    rw [Stmt.renamed, Stmt.unplaced, value.renamed_unplacing]
    rfl
  | .returning pos none => rfl
  | .returning pos (some value) => by
    rw [Stmt.renamed, Stmt.unplaced, Option.map_some, Option.map_some, value.renamed_unplacing]
    rfl
  | .breaking pos => rfl
  | .conditional pos cond body rest => by
    rw [Stmt.renamed, Stmt.unplaced, cond.renamed_unplacing, Stmt.renamedList_unplacing body,
      Chain.renamed_unplacing rest]
    rfl
  | .loop pos body => by
    rw [Stmt.renamed, Stmt.unplaced, Stmt.renamedList_unplacing body]
    rfl
  | .fnDecl pos name params body => by
    rw [Stmt.renamed, Stmt.unplaced, Stmt.renamedList_unplacing body]
    rfl
  | .misplaced kind => rfl

theorem Stmt.renamedList_unplacing : ∀ ss : List Stmt,
    Stmt.renamedList .unplacing ss = Stmt.unplacedList ss
  | [] => rfl
  | s :: ss => by
    rw [Stmt.renamedList, Stmt.unplacedList, Stmt.renamed_unplacing s,
      Stmt.renamedList_unplacing ss]

theorem Chain.renamed_unplacing : ∀ c : Chain, c.renamed .unplacing = c.unplaced
  | .done => rfl
  | .otherwise body => by
    rw [Chain.renamed, Chain.unplaced, Stmt.renamedList_unplacing body]
  | .elseIf cond body rest => by
    rw [Chain.renamed, Chain.unplaced, cond.renamed_unplacing, Stmt.renamedList_unplacing body,
      Chain.renamed_unplacing rest]

end

theorem Program.renamed_unplacing (p : Program) : p.renamed .unplacing = p.unplaced := by
  rw [Program.renamed, Program.unplaced, Stmt.renamedList_unplacing]

/-- A fault that speaks of the same name is the same. -/
theorem CompileFault.renamed_unplacing (fault : CompileFault) :
    fault.renamed .unplacing = fault := by
  cases fault <;> rfl

/-- **A program without its positions is laid out alike.** -/
theorem compile_unplaced_eq (p : Program) :
    p.unplaced.compile.mapError CompileError.fault = p.compile.mapError CompileError.fault := by
  have hrenamed := congrArg Prod.fst (perform_generate_renamed Renaming.unplacing_injective p {})
  rw [p.renamed_unplacing] at hrenamed
  rw [Program.compile, Program.layOut, hrenamed, Program.compile, Program.layOut]
  cases ((generate p).perform {}).1 with
  | ok image =>
    have himage : image.renamed .unplacing = image :=
      congrArg (Image.mk image.code) (List.map_id image.constants)
    exact congrArg Except.ok himage
  | error e => exact congrArg Except.error e.fault.renamed_unplacing

/-- Programs that differ only in positions have the same image, or they are refused for the same
fault. -/
theorem compile_unplaced {p q : Program} (h : p.unplaced = q.unplaced) :
    (∃ image, p.compile = .ok image ∧ q.compile = .ok image) ∨
    ∃ e e', p.compile = .error e ∧ q.compile = .error e' ∧ e.fault = e'.fault := by
  have hcompile :
      p.compile.mapError CompileError.fault = q.compile.mapError CompileError.fault := by
    rw [← compile_unplaced_eq p, h, compile_unplaced_eq q]
  generalize p.compile = r, q.compile = r' at hcompile ⊢
  cases r with
  | ok image =>
    cases r' with
    | ok _ =>
      cases hcompile
      exact .inl ⟨image, rfl, rfl⟩
    | error _ => cases hcompile
  | error e =>
    cases r' with
    | ok _ => cases hcompile
    | error e' => exact .inr ⟨e, e', rfl, rfl, Except.error.inj hcompile⟩

end Octet
