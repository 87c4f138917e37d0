import Octet.Proofs.Tree.Derivation

/-!
# Where spellings begin and end

What can stand at the front of a spelling depends on what is spelled, not on the style.  An
expression starts with one of eight kinds of tokens (`expressionStarts`), a statement with one of
these or with a word of its own, and a block with a brace.

A spelling takes its tokens from the front, so what it leaves is a suffix.
-/

namespace Octet
namespace Grammar

/-- What is spelled starts with a token of one of these kinds. -/
def Spelling.Begins {α : Type} (kinds : List TokenKind) (R : Spelling α) : Prop :=
  ∀ {a : α} {tokens rest : List Token}, R a tokens rest → Meets kinds tokens

/-- What is left behind a spelling is a suffix of the tokens. -/
def Spelling.Leaves {α : Type} (R : Spelling α) : Prop :=
  ∀ {a : α} {tokens rest : List Token}, R a tokens rest → rest <:+ tokens

/-- A token that is met is not one of others. -/
theorem Meets.avoids {kinds others : List TokenKind} {tokens : List Token}
    (h : Meets kinds tokens) (hdisjoint : ∀ kind ∈ kinds, kind ∉ others) : Avoids others tokens := by
  cases tokens with
  | nil => exact h.elim
  | cons t tokens => exact hdisjoint t.kind h

theorem Meets.mono {kinds others : List TokenKind} {tokens : List Token} (h : Meets kinds tokens)
    (hsub : ∀ kind ∈ kinds, kind ∈ others) : Meets others tokens := by
  cases tokens with
  | nil => exact h.elim
  | cons t tokens => exact hsub t.kind h

variable (S : Style)

/-! ## Lists -/

section

variable {α : Type} {R : Spelling α} {kinds : List TokenKind}

theorem ofKind_begins (kind : TokenKind) : (OfKind kind).Begins [kind] := by
  rintro t tokens rest ⟨hkind⟩
  simpa using hkind

theorem ofKind_leaves (kind : TokenKind) : (OfKind kind).Leaves := by
  rintro t tokens rest ⟨-⟩
  exact List.suffix_cons t rest

theorem Separated.begins (h : R.Begins kinds) : (Separated S R).Begins kinds := by
  intro as tokens rest hitems
  cases hitems with
  | one ha _ => exact h ha
  | more ha _ _ => exact h ha

theorem Separated.leaves (h : R.Leaves) : (Separated S R).Leaves := by
  intro as tokens rest hitems
  induction hitems with
  | one ha _ => exact h ha
  | more ha _ _ ih => exact (ih.trans (List.suffix_cons ..)).trans (h ha)

theorem Enclosed.leaves (h : R.Leaves) : (Enclosed S R).Leaves := by
  intro as tokens rest hitems
  cases hitems with
  | none _ => exact List.suffix_cons ..
  | some _ hitems _ => exact (List.suffix_cons ..).trans (Separated.leaves S h hitems)

end

/-! ## Expressions -/

/-- The kinds of tokens that an expression starts with. -/
def expressionStarts : List TokenKind :=
  [.bang, .minus, .falseWord, .trueWord, .number, .string, .identifier, .leftParen]

section

variable {R : Spelling Expr} {kinds : List TokenKind}

theorem Joined.leaves (h : R.Leaves) {ops : List TokenKind} {left whole : Expr}
    {tokens rest : List Token} (hjoined : Joined S ops R left whole tokens rest) :
    rest <:+ tokens := by
  induction hjoined with
  | done _ => exact List.suffix_rfl
  | more _ hright _ ih => exact (ih.trans (h hright)).trans (List.suffix_cons ..)

theorem Operation.begins (h : R.Begins kinds) : (Operation S R).Begins kinds := by
  rw [Operation]
  induction levels with
  | nil => exact h
  | cons ops others ih =>
    rintro e tokens rest ⟨hfirst, -⟩
    exact ih hfirst

theorem Operation.leaves (h : R.Leaves) : (Operation S R).Leaves := by
  rw [Operation]
  induction levels with
  | nil => exact h
  | cons ops others ih =>
    rintro e tokens rest ⟨hfirst, hjoined⟩
    exact (hjoined.leaves S ih).trans (ih hfirst)

theorem OperandOf.begins {nested inner : Spelling Expr} :
    (OperandOf S nested inner).Begins expressionStarts := by
  intro e tokens rest h
  cases h with
  | prefixed hkind _ => rcases hkind with hkind | hkind <;> simp [hkind, expressionStarts]
  | value hkind => rcases hkind with hkind | hkind <;> simp [hkind, expressionStarts]
  | falseWord hkind => simp [hkind, expressionStarts]
  | trueWord hkind => simp [hkind, expressionStarts]
  | identifier hkind _ => simp [hkind, expressionStarts]
  | call hkind _ _ => simp [hkind, expressionStarts]
  | group hkind _ _ => simp [hkind, expressionStarts]

theorem OperandOf.leaves {nested inner : Spelling Expr} (h : nested.Leaves) (h' : inner.Leaves) :
    (OperandOf S nested inner).Leaves := by
  intro e tokens rest hoperand
  cases hoperand with
  | prefixed _ ha => exact (h ha).trans (List.suffix_cons ..)
  | falseWord _ => exact List.suffix_cons ..
  | trueWord _ => exact List.suffix_cons ..
  | value _ => exact List.suffix_cons ..
  | identifier _ _ => exact List.suffix_cons ..
  | call _ _ hargs =>
    exact ((Enclosed.leaves S h' hargs).trans (List.suffix_cons ..)).trans (List.suffix_cons ..)
  | group _ ha _ => exact ((List.suffix_cons ..).trans (h' ha)).trans (List.suffix_cons ..)

theorem Operand.begins (room : Nat) : (Operand S room).Begins expressionStarts := by
  cases room with
  | zero => exact OperandOf.begins S
  | succ room => exact OperandOf.begins S

theorem Operand.leaves (room : Nat) : (Operand S room).Leaves := by
  induction room with
  | zero => exact OperandOf.leaves S False.elim False.elim
  | succ room ih => exact OperandOf.leaves S ih (Operation.leaves S ih)

theorem Expression.begins (room : Nat) : (Expression S room).Begins expressionStarts := by
  cases room with
  | zero => exact False.elim
  | succ room => exact Operation.begins S (Operand.begins S room)

theorem Expression.leaves (room : Nat) : (Expression S room).Leaves := by
  cases room with
  | zero => exact False.elim
  | succ room => exact Operation.leaves S (Operand.leaves S room)

end

/-! ## Statements -/

/-- The kinds of tokens that a statement starts with. -/
def statementStarts : List TokenKind :=
  expressionStarts ++ [.letWord, .loopWord, .ifWord, .returnWord, .breakWord]

section

variable {E : Spelling Expr} {B : Spelling (List Stmt)}

theorem Braced.begins : (Braced B).Begins [.leftBrace] := by
  rintro body tokens rest ⟨hkind, -⟩
  simpa using hkind

theorem Braced.leaves (h : B.Leaves) : (Braced B).Leaves := by
  rintro body tokens rest ⟨-, hbody⟩
  exact (h hbody).trans (List.suffix_cons ..)

theorem Statements.leaves {R : Spelling Stmt} (h : R.Leaves) : (Statements S R).Leaves := by
  intro ss tokens rest hstatements
  induction hstatements with
  | close _ => exact List.suffix_cons ..
  | skip _ _ ih => exact ih.trans (List.suffix_cons ..)
  | more _ hs _ _ ih => exact ih.trans (h hs)

theorem ChainOf.leaves (hE : E.Leaves) (hB : B.Leaves) : (ChainOf S E B).Leaves := by
  intro chain tokens rest h
  induction h with
  | done _ => exact List.suffix_rfl
  | otherwise _ _ hbody => exact (hB hbody).trans (List.suffix_cons ..)
  | elseIf _ _ hcond hbody _ ih =>
    exact (((ih.trans (hB hbody)).trans (hE hcond)).trans (List.suffix_cons ..)).trans
      (List.suffix_cons ..)

theorem StatementOf.begins (hE : E.Begins expressionStarts) :
    (StatementOf S E B).Begins statementStarts := by
  intro s tokens rest h
  cases h with
  | binding hword _ _ _ => simp [hword, statementStarts]
  | loop hword _ => simp [hword, statementStarts]
  | conditional hword _ _ _ => simp [hword, statementStarts]
  | bare hword _ => simp [hword, statementStarts]
  | valued hword _ _ => simp [hword, statementStarts]
  | leave hword => simp [hword, statementStarts]
  | assignment hname _ _ => simp [hname, statementStarts, expressionStarts]
  | plain _ _ he => exact (hE he).mono fun kind hkind => List.mem_append_left _ hkind

theorem StatementOf.leaves (hE : E.Leaves) (hB : B.Leaves) : (StatementOf S E B).Leaves := by
  intro s tokens rest h
  cases h with
  | binding _ _ _ hvalue =>
    exact (((hE hvalue).trans (List.suffix_cons ..)).trans (List.suffix_cons ..)).trans
      (List.suffix_cons ..)
  | loop _ hbody => exact (hB hbody).trans (List.suffix_cons ..)
  | conditional _ hcond hbody hchain =>
    exact (((ChainOf.leaves S hE hB hchain).trans (hB hbody)).trans (hE hcond)).trans
      (List.suffix_cons ..)
  | bare _ _ => exact List.suffix_cons ..
  | valued _ _ hvalue => exact (hE hvalue).trans (List.suffix_cons ..)
  | leave _ => exact List.suffix_cons ..
  | assignment _ _ hvalue =>
    exact ((hE hvalue).trans (List.suffix_cons ..)).trans (List.suffix_cons ..)
  | plain _ _ he => exact hE he

end

theorem Statement.begins (room : Nat) : (Statement S room).Begins statementStarts := by
  cases room with
  | zero => exact StatementOf.begins S (Expression.begins S 0)
  | succ room => exact StatementOf.begins S (Expression.begins S (room + 1))

theorem Statement.leaves (room : Nat) : (Statement S room).Leaves := by
  induction room with
  | zero => exact StatementOf.leaves S (Expression.leaves S 0) (Braced.leaves False.elim)
  | succ room ih =>
    exact StatementOf.leaves S (Expression.leaves S (room + 1))
      (Braced.leaves (Statements.leaves S ih))

theorem Block.leaves (room : Nat) : (Block S room).Leaves := by
  cases room with
  | zero => exact Braced.leaves False.elim
  | succ room => exact Braced.leaves (Statements.leaves S (Statement.leaves S room))

theorem Declaration.leaves {room : Nat} {pos : Pos} : (Declaration S room pos).Leaves := by
  rintro f tokens rest ⟨-, -, hparams, hbody⟩
  exact (((Block.leaves S room hbody).trans
    (Enclosed.leaves S (ofKind_leaves .identifier) hparams)).trans (List.suffix_cons ..)).trans
    (List.suffix_cons ..)

end Grammar
end Octet
