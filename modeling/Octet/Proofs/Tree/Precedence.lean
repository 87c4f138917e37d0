import Octet.Proofs.Tree.Derivation

/-!
# Levels of operators

The grammar has one rule for each level of binary operators.  What these rules come to is said here
by a single one: an operator of some level stands between an operand that may be of the same level,
on its left, and one that has to be of a tighter level, on its right.  Where a looser operand is
wanted it takes parentheses, which an operand in the sense of `OperandOf` may have as it likes.

`Ranked R n` are the spellings made of operators of the level `n` and tighter ones.  In a style
that asks nothing of what stands behind an operand, they are what the rules from this level on spell,
and all of them together are the spellings of `Operation` (`operation_iff`).
-/

namespace Octet
namespace Grammar

/-- Operands, and operators between them of the given level or of a tighter one. -/
inductive Ranked (R : Spelling Expr) : Nat → Spelling Expr
  | operand {n : Nat} {e : Expr} {tokens rest : List Token} :
      R e tokens rest → Ranked R n e tokens rest
  | binary {m n : Nat} {ops : List TokenKind} {left right : Expr} {op : Token}
      {tokens later rest : List Token} :
      n ≤ m → levels[m]? = some ops → op.kind ∈ ops →
      Ranked R m left tokens (op :: later) → Ranked R (m + 1) right later rest →
      Ranked R n (.binary op.pos left op.lexeme right) tokens rest

/-- The spellings of the rules for the levels from the given one on. -/
def OperationFrom (S : Style) (R : Spelling Expr) (n : Nat) : Spelling Expr :=
  (levels.drop n).foldr (LeftAssoc S) R

variable {S : Style} {R : Spelling Expr}

theorem operationFrom_of_level {n : Nat} {ops : List TokenKind} (h : levels[n]? = some ops) :
    OperationFrom S R n = LeftAssoc S ops (OperationFrom S R (n + 1)) := by
  obtain ⟨hn, rfl⟩ := List.getElem?_eq_some_iff.1 h
  rw [OperationFrom, List.drop_eq_getElem_cons hn, List.foldr_cons]
  rfl

theorem operationFrom_of_le {n : Nat} (h : levels.length ≤ n) : OperationFrom S R n = R := by
  rw [OperationFrom, List.drop_eq_nil_of_le h, List.foldr_nil]

/-- What may stand on a tighter level may stand on a looser one. -/
theorem Ranked.mono {m n : Nat} (h : n ≤ m) {e : Expr} {tokens rest : List Token}
    (he : Ranked R m e tokens rest) : Ranked R n e tokens rest := by
  cases he with
  | operand ha => exact .operand ha
  | binary hm hops hop hleft hright => exact .binary (Nat.le_trans h hm) hops hop hleft hright

/-- What the rules from some level on spell, the single rule spells. -/
theorem ranked_of_operationFrom {n : Nat} {e : Expr} {tokens rest : List Token}
    (h : OperationFrom S R n e tokens rest) : Ranked R n e tokens rest := by
  induction hlength : levels.length - n generalizing n e tokens rest with
  | zero =>
    rw [operationFrom_of_le (by omega)] at h
    exact .operand h
  | succ k ih =>
    have hn : n < levels.length := by omega
    have hlevel : levels[n]? = some levels[n] := List.getElem?_eq_getElem hn
    rw [operationFrom_of_level hlevel] at h
    obtain ⟨hfirst, hjoined⟩ := h
    -- the operands of this level are ranked on the next one; the operators in between are put
    -- around them from the left
    have hleft := (ih hfirst (by omega)).mono (Nat.le_succ n)
    clear hfirst
    induction hjoined with
    | done _ => exact hleft
    | more hop hright _ ih' =>
      exact ih' (.binary (Nat.le_refl n) hlevel hop hleft (ih hright (by omega)))

section

variable (hS : ∀ {kinds : List TokenKind} {tokens : List Token}, S.avoids kinds tokens)
include hS

/-- Joining one more operand at the end. -/
theorem Joined.snoc {ops : List TokenKind} {left whole right : Expr} {op : Token}
    {tokens later rest : List Token} (h : Joined S ops R left whole tokens (op :: later))
    (hop : op.kind ∈ ops) (hright : R right later rest) :
    Joined S ops R left (.binary op.pos whole op.lexeme right) tokens rest := by
  generalize hlater : op :: later = later' at h
  induction h with
  | done _ =>
    subst hlater
    exact .more hop hright (.done hS)
  | more hop' hright' _ ih => exact .more hop' hright' (ih hlater)

theorem OperationFrom.mono {m n : Nat} (h : n ≤ m) {e : Expr} {tokens rest : List Token}
    (he : OperationFrom S R m e tokens rest) : OperationFrom S R n e tokens rest := by
  induction h with
  | refl => exact he
  | @step m _ ih =>
    refine ih ?_
    by_cases hm : m < levels.length
    · rw [operationFrom_of_level (List.getElem?_eq_getElem hm)]
      exact .intro he (.done hS)
    · rw [operationFrom_of_le (Nat.le_of_not_lt hm)]
      rwa [operationFrom_of_le (by omega)] at he

/-- What the single rule spells, the rules from some level on spell. -/
theorem operationFrom_of_ranked {n : Nat} {e : Expr} {tokens rest : List Token}
    (h : Ranked R n e tokens rest) : OperationFrom S R n e tokens rest := by
  induction h with
  | @operand n e tokens rest he =>
    have hlast : OperationFrom S R (max n levels.length) e tokens rest := by
      rw [operationFrom_of_le (Nat.le_max_right ..)]
      exact he
    exact hlast.mono hS (Nat.le_max_left ..)
  | binary hm hlevel hop _ _ ihleft ihright =>
    refine OperationFrom.mono hS hm ?_
    rw [operationFrom_of_level hlevel] at ihleft ⊢
    obtain ⟨hfirst, hjoined⟩ := ihleft
    exact .intro hfirst (hjoined.snoc hS hop ihright)

/-- **The rules for the levels and the single rule spell the same.** -/
theorem operation_iff {e : Expr} {tokens rest : List Token} :
    Operation S R e tokens rest ↔ Ranked R 0 e tokens rest :=
  ⟨fun h => ranked_of_operationFrom (S := S) (n := 0) h, operationFrom_of_ranked hS⟩

end

end Grammar
end Octet
