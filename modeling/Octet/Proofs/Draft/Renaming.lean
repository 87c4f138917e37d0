import Octet.Draft.Emission
import Octet.Proofs.Layout.Cell
import Mathlib.Logic.Function.Basic

/-!
# Laying out does not depend on names, texts and positions

A draft compares names with names and texts with texts, and does nothing else with them; and it uses
the positions of a tree for the place of a fault only.  So if the variables of a program are given
other names, its texts are replaced by others and its nodes are moved, then the program is laid out
as before, as long as different names remain different and so do different texts.

A `Renaming` does all three at a time.  It is applied to trees, and in the same way to drafts, whose
tables hold names and texts, and to faults.  What is called or declared keeps its name: built-ins
are known by theirs.

`Emit.Renames ρ a b` relates two actions of which the second one does to the renamed draft what the
first one does to the draft, whether they fail or not.  Every primitive action is related to itself,
with its arguments renamed, and the relation follows the tree (`Stmt.renames`).  A table that is
renamed has each entry at its old place because the renaming is injective (`idxOf?_map`).
-/

namespace Octet

/-- Other names, texts and positions. -/
structure Renaming where
  /-- The new name of a variable. -/
  name : String → String
  /-- The new wording of a text. -/
  text : String → String
  /-- The new place of a node. -/
  place : Pos → Pos

/-- Names and texts remain different. -/
structure Renaming.Injective (ρ : Renaming) : Prop where
  name : Function.Injective ρ.name
  text : Function.Injective ρ.text

/-! ## Trees -/

/-- A literal with another wording, if it is a text. -/
def Scalar.renamed (ρ : Renaming) : Scalar → Scalar
  | .text s => .text (ρ.text s)
  | v => v

mutual

/-- An expression with other names, texts and positions. -/
def Expr.renamed (ρ : Renaming) : Expr → Expr
  | .literal pos value => .literal (ρ.place pos) (value.map (Scalar.renamed ρ))
  | .identifier pos name => .identifier (ρ.place pos) (ρ.name name)
  | .unary pos op operand => .unary (ρ.place pos) op (operand.renamed ρ)
  | .binary pos left op right => .binary (ρ.place pos) (left.renamed ρ) op (right.renamed ρ)
  | .call pos name args => .call (ρ.place pos) name (Expr.renamedList ρ args)
  | .misplaced kind => .misplaced kind

/-- Expressions with other names, texts and positions. -/
def Expr.renamedList (ρ : Renaming) : List Expr → List Expr
  | [] => []
  | e :: es => e.renamed ρ :: Expr.renamedList ρ es

end

mutual

/-- A statement with other names, texts and positions. -/
def Stmt.renamed (ρ : Renaming) : Stmt → Stmt
  | .exprStmt pos e => .exprStmt (ρ.place pos) (e.renamed ρ)
  | .letDecl pos name value => .letDecl (ρ.place pos) (ρ.name name) (value.renamed ρ)
  | .assign pos name value => .assign (ρ.place pos) (ρ.name name) (value.renamed ρ)
  | .returning pos value => .returning (ρ.place pos) (value.map (Expr.renamed ρ))
  | .breaking pos => .breaking (ρ.place pos)
  | .conditional pos cond body rest =>
    .conditional (ρ.place pos) (cond.renamed ρ) (Stmt.renamedList ρ body) (rest.renamed ρ)
  | .loop pos body => .loop (ρ.place pos) (Stmt.renamedList ρ body)
  | .fnDecl pos name params body => .fnDecl (ρ.place pos) name params (Stmt.renamedList ρ body)
  | .misplaced kind => .misplaced kind

/-- Statements with other names, texts and positions. -/
def Stmt.renamedList (ρ : Renaming) : List Stmt → List Stmt
  | [] => []
  | s :: ss => s.renamed ρ :: Stmt.renamedList ρ ss

/-- A chain with other names, texts and positions. -/
def Chain.renamed (ρ : Renaming) : Chain → Chain
  | .done => .done
  | .otherwise body => .otherwise (Stmt.renamedList ρ body)
  | .elseIf cond body rest =>
    .elseIf (cond.renamed ρ) (Stmt.renamedList ρ body) (rest.renamed ρ)

end

/-- A program with other names, texts and positions. -/
def Program.renamed (ρ : Renaming) (p : Program) : Program :=
  ⟨Stmt.renamedList ρ p.items⟩

/-! ## Drafts and faults -/

/-- A draft with other names and texts in its tables. -/
def Draft.renamed (ρ : Renaming) (d : Draft) : Draft :=
  { d with constants := d.constants.map ρ.text, registers := d.registers.map ρ.name }

/-- An image with other texts. -/
def Image.renamed (ρ : Renaming) (image : Image) : Image :=
  { image with constants := image.constants.map ρ.text }

/-- A fault that speaks of another name. -/
def CompileFault.renamed (ρ : Renaming) : CompileFault → CompileFault
  | .tooManyRegisters name => .tooManyRegisters (ρ.name name)
  | .undefinedVariable name => .undefinedVariable (ρ.name name)
  | fault => fault

/-- The place of a node that was moved. -/
def Site.moved (ρ : Renaming) : Site → Site
  | ⟨some line, some col⟩ => .ofPos (ρ.place ⟨line, col⟩)
  | site => site

/-- A fault that speaks of another name at another place. -/
def CompileError.renamed (ρ : Renaming) (e : CompileError) : CompileError :=
  ⟨e.fault.renamed ρ, e.site.moved ρ⟩

/-- A fault that speaks of another name is of the same kind. -/
@[simp] theorem kind?_renamed (ρ : Renaming) (fault : CompileFault) :
    (fault.renamed ρ).kind? = fault.kind? := by
  cases fault <;> rfl

/-- Where nothing moves, places stay. -/
theorem moved_of_place_id {ρ : Renaming} (h : ρ.place = id) (site : Site) :
    site.moved ρ = site := by
  obtain ⟨line, col⟩ := site
  cases line with
  | none => rfl
  | some line =>
    cases col with
    | none => rfl
    | some col => rw [Site.moved, h]; rfl

/-- An entry of a table is found at its old place. -/
theorem idxOf?_map {f : String → String} (hf : Function.Injective f) (l : List String)
    (x : String) : (l.map f).idxOf? (f x) = l.idxOf? x := by
  induction l with
  | nil => rfl
  | cons y l ih =>
    rw [List.map_cons, List.idxOf?_cons, List.idxOf?_cons, ih]
    simp only [beq_iff_eq, hf.eq_iff]

/-! ## Actions -/

namespace Emit

variable {α β : Type}

/-- The second action does to the renamed draft what the first one does to the draft. -/
def Renames (ρ : Renaming) (a b : Emit α) : Prop :=
  ∀ d, b.perform (d.renamed ρ) =
    ((a.perform d).1.mapError (CompileError.renamed ρ), (a.perform d).2.renamed ρ)

theorem Renames.bind {ρ : Renaming} {a b : Emit α} {f g : α → Emit β} (h : Renames ρ a b)
    (hf : ∀ x, Renames ρ (f x) (g x)) : Renames ρ (a >>= f) (b >>= g) := by
  intro d
  rw [perform_bind, perform_bind, h d]
  rcases a.perform d with ⟨e | x, d'⟩
  · rfl
  · exact hf x d'

theorem renames_pure (ρ : Renaming) (x : α) : Renames ρ (pure x : Emit α) (pure x) :=
  fun _ => rfl

end Emit

namespace Draft

open Emit

variable (ρ : Renaming)

theorem renames_fail {α : Type} (fault : CompileFault) (site : Site) :
    Renames ρ (fail fault site : Emit α) (fail (fault.renamed ρ) (site.moved ρ)) :=
  fun _ => rfl

theorem renames_newLabel : Renames ρ newLabel newLabel := fun _ => rfl

theorem renames_mark (l : Label) : Renames ρ (mark l) (mark l) := fun _ => rfl

theorem renames_emit (op : Opcode) (operand : List UInt8) :
    Renames ρ (emit op operand) (emit op operand) := by
  rw [emit]
  split
  · exact fun _ => rfl
  · exact renames_fail ρ _ _

theorem renames_emitByte (op : Opcode) (n : Int) :
    Renames ρ (emitByte op n) (emitByte op n) := by
  rw [emitByte]
  split
  · exact renames_emit ρ op _
  · exact renames_fail ρ _ _

theorem renames_emitWord (op : Opcode) (n : Int) :
    Renames ρ (emitWord op n) (emitWord op n) := by
  rw [emitWord]
  split
  · exact renames_emit ρ op _
  · exact renames_fail ρ _ _

theorem renames_emitJump (op : Opcode) (l : Label) :
    Renames ρ (emitJump op l) (emitJump op l) :=
  (renames_emitByte ρ op 0).bind fun _ _ => rfl

theorem renames_patch (f : Fixup) : Renames ρ (patch f) (patch f) := by
  intro d
  rw [patch, perform_get_bind, perform_get_bind]
  -- the addresses are not renamed
  have haddress : (d.renamed ρ).address? f.target = d.address? f.target := rfl
  rw [haddress]
  cases d.address? f.target with
  | none => rfl
  | some address =>
    dsimp only
    split
    · rfl
    · rfl

theorem renames_forM_patch (fixups : List Fixup) :
    Renames ρ (fixups.forM patch) (fixups.forM patch) := by
  induction fixups with
  | nil => exact renames_pure ρ ()
  | cons f fixups ih => exact (renames_patch ρ f).bind fun _ => ih

theorem renames_resolve : Renames ρ resolve resolve := by
  intro d
  rw [resolve, perform_get_bind, perform_get_bind]
  have hcode : (d.renamed ρ).code = d.code := rfl
  rw [hcode]
  split
  · rfl
  · exact renames_forM_patch ρ d.fixups d

variable {ρ} (hρ : ρ.Injective)
include hρ

omit hρ in
/-- A number is the same for a renamed entry if it is found at the same place. -/
theorem renames_takeNumber (found : Option Nat) (next most : Nat) (grown : Draft)
    (refusal : CompileError) (d : Draft) :
    perform (takeNumber found next most (grown.renamed ρ) (refusal.renamed ρ)) (d.renamed ρ) =
      ((perform (takeNumber found next most grown refusal) d).1.mapError (CompileError.renamed ρ),
        (perform (takeNumber found next most grown refusal) d).2.renamed ρ) := by
  cases found with
  | some i => rfl
  | none =>
    rw [takeNumber, takeNumber]
    split
    · rfl
    · rfl

theorem renames_constant (value : String) (site : Site) :
    Renames ρ (constant value site) (constant (ρ.text value) (site.moved ρ)) := by
  intro d
  have hidx : (d.renamed ρ).constants.idxOf? (ρ.text value) = d.constants.idxOf? value :=
    idxOf?_map hρ.text d.constants value
  have hlength : (d.renamed ρ).constants.length = d.constants.length := List.length_map ..
  have hsnoc : { d.renamed ρ with constants := (d.renamed ρ).constants ++ [ρ.text value] } =
      Draft.renamed ρ { d with constants := d.constants ++ [value] } := by
    simp [Draft.renamed]
  rw [constant, constant, perform_get_bind, perform_get_bind, hidx, hlength, hsnoc]
  exact renames_takeNumber _ _ _ _ ⟨.tooManyConstants, site⟩ d

theorem renames_allocate (name : String) (site : Site) :
    Renames ρ (allocate name site) (allocate (ρ.name name) (site.moved ρ)) := by
  intro d
  have hidx : (d.renamed ρ).registers.idxOf? (ρ.name name) = d.registers.idxOf? name :=
    idxOf?_map hρ.name d.registers name
  have hlength : (d.renamed ρ).registers.length = d.registers.length := List.length_map ..
  have hsnoc : { d.renamed ρ with registers := (d.renamed ρ).registers ++ [ρ.name name] } =
      Draft.renamed ρ { d with registers := d.registers ++ [name] } := by
    simp [Draft.renamed]
  rw [allocate, allocate, perform_get_bind, perform_get_bind, hidx, hlength, hsnoc]
  exact renames_takeNumber _ _ _ _ ⟨.tooManyRegisters name, site⟩ d

theorem renames_lookup (name : String) (site : Site) :
    Renames ρ (lookup name site) (lookup (ρ.name name) (site.moved ρ)) := by
  intro d
  have hidx : (d.renamed ρ).registers.idxOf? (ρ.name name) = d.registers.idxOf? name :=
    idxOf?_map hρ.name d.registers name
  rw [lookup, lookup, perform_get_bind, perform_get_bind, hidx]
  cases d.registers.idxOf? name with
  | some i => rfl
  | none => rfl

end Draft

open Draft Emit

variable {ρ : Renaming}

/-! ## Expressions -/

theorem isLeastMagnitude_renamed (ρ : Renaming) (e : Expr) :
    (e.renamed ρ).isLeastMagnitude = e.isLeastMagnitude := by
  cases e with
  | literal pos value =>
    match value with
    | some (.bool b) => rfl
    | some (.int n) | some (.text s) | some (.real x) => rfl
    | none => rfl
  | _ => rfl

theorem length_renamedList (ρ : Renaming) (es : List Expr) :
    (Expr.renamedList ρ es).length = es.length := by
  induction es with
  | nil => rfl
  | cons e es ih => rw [Expr.renamedList, List.length_cons, List.length_cons, ih]

theorem renames_emitLiteral (hρ : ρ.Injective) (pos : Pos) (value : Option Scalar) :
    Renames ρ (emitLiteral pos value)
      (emitLiteral (ρ.place pos) (value.map (Scalar.renamed ρ))) := by
  match value with
  | some (.bool b) => exact renames_emitByte ρ _ _
  | some (.int n) =>
    rw [Option.map_some, Scalar.renamed, emitLiteral, emitLiteral]
    split
    · exact renames_emitWord ρ _ _
    · exact renames_fail ρ _ _
    · simp
  | some (.text s) =>
    exact (renames_constant hρ s _).bind fun _ => renames_emitByte ρ _ _
  | some (.real x) => exact renames_fail ρ _ _
  | none => exact renames_fail ρ _ _

mutual

/-- Laying out an expression. -/
theorem Expr.renames (hρ : ρ.Injective) : ∀ e : Expr, Renames ρ e.emit (e.renamed ρ).emit
  | .literal pos value => by
    rw [Expr.renamed, Expr.emit, Expr.emit]
    exact renames_emitLiteral hρ pos value
  | .identifier pos name => by
    rw [Expr.renamed, Expr.emit, Expr.emit]
    exact (renames_lookup hρ name _).bind fun _ => renames_emitByte ρ _ _
  | .unary pos op operand => by
    rw [Expr.renamed, Expr.emit, Expr.emit, isLeastMagnitude_renamed]
    split
    · exact renames_emitWord ρ _ _
    · refine (Expr.renames hρ operand).bind fun _ => ?_
      split
      · exact renames_emit ρ _ _
      · exact renames_fail ρ _ _
  | .binary pos left op right => by
    rw [Expr.renamed, Expr.emit, Expr.emit]
    split
    · exact (Expr.renames hρ left).bind fun _ => (Expr.renames hρ right).bind fun _ =>
        renames_emit ρ _ _
    · exact renames_fail ρ _ _
  | .call pos name args => by
    rw [Expr.renamed, Expr.emit, Expr.emit, length_renamedList]
    split
    · split
      · exact (Expr.renamesList hρ args).bind fun _ => renames_emitByte ρ _ _
      · exact renames_fail ρ _ _
    · exact renames_fail ρ _ _
  | .misplaced kind => renames_fail ρ _ _

theorem Expr.renamesList (hρ : ρ.Injective) : ∀ es : List Expr,
    Renames ρ (Expr.emitList es) (Expr.emitList (Expr.renamedList ρ es))
  | [] => renames_pure ρ ()
  | e :: es => by
    rw [Expr.renamedList, Expr.emitList, Expr.emitList]
    exact (Expr.renames hρ e).bind fun _ => Expr.renamesList hρ es

end

/-! ## Statements -/

mutual

/-- Laying out a statement. -/
theorem Stmt.renames (hρ : ρ.Injective) (loopEnd : Option Label) : ∀ s : Stmt,
    Renames ρ (s.emit loopEnd) ((s.renamed ρ).emit loopEnd)
  | .exprStmt pos e => by
    rw [Stmt.renamed, Stmt.emit, Stmt.emit]
    exact e.renames hρ
  | .letDecl pos name value => by
    rw [Stmt.renamed, Stmt.emit, Stmt.emit]
    exact (value.renames hρ).bind fun _ => (renames_allocate hρ name _).bind fun _ =>
      renames_emitByte ρ _ _
  | .assign pos name value => by
    rw [Stmt.renamed, Stmt.emit, Stmt.emit]
    exact (renames_lookup hρ name _).bind fun _ => (value.renames hρ).bind fun _ =>
      renames_emitByte ρ _ _
  | .returning pos none => renames_emit ρ _ _
  | .returning pos (some value) => by
    rw [Stmt.renamed, Option.map_some, Stmt.emit, Stmt.emit]
    exact (value.renames hρ).bind fun _ => renames_emit ρ _ _
  | .breaking pos => by
    cases loopEnd with
    | none => exact renames_fail ρ _ _
    | some l => exact renames_emitJump ρ _ l
  | .conditional pos cond body rest => by
    rw [Stmt.renamed, Stmt.emit, Stmt.emit]
    refine (renames_newLabel ρ).bind fun finish => (renames_newLabel ρ).bind fun next => ?_
    refine (cond.renames hρ).bind fun _ => (renames_emitJump ρ _ next).bind fun _ => ?_
    refine (Stmt.renamesList hρ loopEnd body).bind fun _ => ?_
    exact (Chain.renames hρ loopEnd finish next rest).bind fun _ => renames_mark ρ finish
  | .loop pos body => by
    rw [Stmt.renamed, Stmt.emit, Stmt.emit]
    refine (renames_newLabel ρ).bind fun start => (renames_newLabel ρ).bind fun finish => ?_
    refine (renames_mark ρ start).bind fun _ => ?_
    refine (Stmt.renamesList hρ (some finish) body).bind fun _ => ?_
    exact (renames_emitJump ρ _ start).bind fun _ => renames_mark ρ finish
  | .fnDecl pos name params body => by
    rw [Stmt.renamed, Stmt.emit, Stmt.emit]
    exact renames_fail ρ _ _
  | .misplaced kind => renames_fail ρ _ _

theorem Stmt.renamesList (hρ : ρ.Injective) (loopEnd : Option Label) : ∀ ss : List Stmt,
    Renames ρ (Stmt.emitList loopEnd ss) (Stmt.emitList loopEnd (Stmt.renamedList ρ ss))
  | [] => renames_pure ρ ()
  | s :: ss => by
    rw [Stmt.renamedList, Stmt.emitList, Stmt.emitList]
    exact (Stmt.renames hρ loopEnd s).bind fun _ => Stmt.renamesList hρ loopEnd ss

theorem Chain.renames (hρ : ρ.Injective) (loopEnd : Option Label) :
    ∀ (finish next : Label) (rest : Chain),
      Renames ρ (rest.emit loopEnd finish next) ((rest.renamed ρ).emit loopEnd finish next)
  | _, next, .done => renames_mark ρ next
  | finish, next, .otherwise body => by
    rw [Chain.renamed, Chain.emit, Chain.emit]
    refine (renames_emitJump ρ _ finish).bind fun _ => (renames_mark ρ next).bind fun _ => ?_
    exact Stmt.renamesList hρ loopEnd body
  | finish, next, .elseIf cond body rest => by
    rw [Chain.renamed, Chain.emit, Chain.emit]
    refine (renames_emitJump ρ _ finish).bind fun _ => (renames_mark ρ next).bind fun _ => ?_
    refine (renames_newLabel ρ).bind fun later => (cond.renames hρ).bind fun _ => ?_
    refine (renames_emitJump ρ _ later).bind fun _ => ?_
    refine (Stmt.renamesList hρ loopEnd body).bind fun _ => ?_
    exact Chain.renames hρ loopEnd finish later rest

end

/-! ## Programs -/

/-- A program is laid out from empty tables, and its image is what the draft holds in the end. -/
theorem perform_generate_eq (p : Program) (d : Draft) :
    (generate p).perform d =
      match (Stmt.emitList none p.items >>= fun _ => resolve).perform { labels := d.labels } with
      | (.ok _, d') => (.ok ⟨d'.code, d'.constants⟩, d')
      | (.error e, d') => (.error e, d') := by
  have hreset : (generate p).perform d =
      (Stmt.emitList none p.items >>= fun _ => resolve >>= fun _ => get >>= fun d' =>
        (pure ⟨d'.code, d'.constants⟩ : Emit Image)).perform { labels := d.labels } := rfl
  rw [hreset, perform_bind, perform_bind]
  rcases (Stmt.emitList none p.items).perform { labels := d.labels } with ⟨e | u, d'⟩
  · rfl
  · dsimp only
    rw [perform_bind]
    rcases resolve.perform d' with ⟨e | u, d''⟩
    · rfl
    · rfl

/-- Laying out a renamed program, whatever draft it starts from. -/
theorem perform_generate_renamed (hρ : ρ.Injective) (p : Program) (d : Draft) :
    (generate (p.renamed ρ)).perform d =
      ((((generate p).perform d).1.map (Image.renamed ρ)).mapError (CompileError.renamed ρ),
        ((generate p).perform d).2.renamed ρ) := by
  have hbody := ((Stmt.renamesList hρ none p.items).bind fun _ => renames_resolve ρ)
    { labels := d.labels }
  -- the tables are empty at first, so there is nothing to rename in them
  have hempty : Draft.renamed ρ { labels := d.labels } = { labels := d.labels } := rfl
  rw [hempty] at hbody
  rw [perform_generate_eq, perform_generate_eq, Program.renamed, hbody]
  rcases (Stmt.emitList none p.items >>= fun _ => resolve).perform { labels := d.labels } with
    ⟨e | u, d'⟩
  · rfl
  · rfl

end Octet
