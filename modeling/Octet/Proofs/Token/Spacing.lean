import Octet.Tree.Reader

/-!
# Tokens and where they stand

Where the tokens of a text stand is a matter of layout: of blanks, of the ends of lines and of
comments.  Two texts spell the same tokens if nothing but the positions differs (`Token.unplaced`).

There is one thing that a program says by its layout.  A `return` has a value if one starts on the
same line, so it matters whether the token behind a `return` stands on the line of the `return`
(`returnLines`).  Tokens are `SameButSpacing` if they agree in this as well.
-/

namespace Octet

/-- A token with its position wiped out. -/
def Token.unplaced (t : Token) : Token :=
  { t with pos := .start }

/-- Whether the next token stands on the line of this one. -/
def followsOnLine (t : Token) : List Token → Bool
  | [] => false
  | next :: _ => next.pos.line == t.pos.line

/-- For each `return`, whether the next token stands on its line. -/
def returnLines : List Token → List Bool
  | [] => []
  | t :: ts =>
    if t.kind = .returnWord then followsOnLine t ts :: returnLines ts else returnLines ts

/-- The same tokens, which differ at most in where they stand; but what stands on the line of a
`return` does so in both. -/
structure SameButSpacing (ts us : List Token) : Prop where
  spelled : ts.map Token.unplaced = us.map Token.unplaced
  returns : returnLines ts = returnLines us

namespace SameButSpacing

variable {t u : Token} {ts us : List Token}

theorem length_eq (h : SameButSpacing ts us) : ts.length = us.length := by
  simpa using congrArg List.length h.spelled

/-- Either both are empty, or both have a first token. -/
theorem cases_on (h : SameButSpacing ts us) :
    (ts = [] ∧ us = []) ∨ ∃ t ts' u us', ts = t :: ts' ∧ us = u :: us' := by
  have hlength := h.length_eq
  cases ts with
  | nil => exact .inl ⟨rfl, List.length_eq_zero_iff.1 hlength.symm⟩
  | cons t ts' =>
    cases us with
    | nil => cases hlength
    | cons u us' => exact .inr ⟨t, ts', u, us', rfl, rfl⟩

theorem unplaced (h : SameButSpacing (t :: ts) (u :: us)) : t.unplaced = u.unplaced :=
  (List.cons.inj h.spelled).1

theorem kind (h : SameButSpacing (t :: ts) (u :: us)) : t.kind = u.kind :=
  (Token.mk.inj h.unplaced).1

theorem lexeme (h : SameButSpacing (t :: ts) (u :: us)) : t.lexeme = u.lexeme :=
  (Token.mk.inj h.unplaced).2.1

theorem tail (h : SameButSpacing (t :: ts) (u :: us)) : SameButSpacing ts us := by
  refine ⟨(List.cons.inj h.spelled).2, ?_⟩
  have hreturns := h.returns
  rw [returnLines, returnLines, ← h.kind] at hreturns
  split at hreturns
  · exact (List.cons.inj hreturns).2
  · exact hreturns

/-- What follows a `return` stands on its line in both, or in neither. -/
theorem followsOnLine_eq (h : SameButSpacing (t :: ts) (u :: us)) (hkind : t.kind = .returnWord) :
    followsOnLine t ts = followsOnLine u us := by
  have hreturns := h.returns
  rw [returnLines, returnLines, ← h.kind, if_pos hkind, if_pos hkind] at hreturns
  exact (List.cons.inj hreturns).1

/-- The tokens in front of the end differ in spacing only if all tokens do. -/
theorem takeWhile_ne_eof (h : SameButSpacing ts us) :
    SameButSpacing (ts.takeWhile (·.kind != .eof)) (us.takeWhile (·.kind != .eof)) := by
  induction ts generalizing us with
  | nil =>
    rcases h.cases_on with ⟨-, rfl⟩ | ⟨_, _, _, _, hts, -⟩
    · exact h
    · cases hts
  | cons t ts ih =>
    obtain ⟨hnil, -⟩ | ⟨_, _, u, us, heq, rfl⟩ := h.cases_on
    · cases hnil
    obtain ⟨rfl, rfl⟩ := List.cons.inj heq
    have hlater := ih h.tail
    rw [List.takeWhile_cons, List.takeWhile_cons, ← h.kind]
    split
    · refine ⟨by rw [List.map_cons, List.map_cons, h.unplaced, hlater.spelled], ?_⟩
      rw [returnLines, returnLines, ← h.kind, hlater.returns]
      split
      · rename_i hreturn
        -- the token behind the `return` is taken in both, or is the end in both
        have hline := h.followsOnLine_eq hreturn
        congr 1
        obtain ⟨rfl, rfl⟩ | ⟨next, ts', next', us', rfl, rfl⟩ := h.tail.cases_on
        · rfl
        · rw [List.takeWhile_cons, List.takeWhile_cons, ← h.tail.kind]
          split
          · exact hline
          · rfl
      · rfl
    · exact ⟨rfl, rfl⟩

/-- A `return` has a value in both, or in neither. -/
theorem returnsValue_eq (h : SameButSpacing (t :: ts) (u :: us)) (hkind : t.kind = .returnWord) :
    Grammar.returnsValue t ts = Grammar.returnsValue u us := by
  have hline := h.followsOnLine_eq hkind
  obtain ⟨rfl, rfl⟩ | ⟨next, ts', next', us', rfl, rfl⟩ := h.tail.cases_on
  · rfl
  · rw [followsOnLine, followsOnLine] at hline
    rw [Grammar.returnsValue, Grammar.returnsValue, h.tail.kind, hline]

end SameButSpacing

/-- Tokens at the same place in two lists that are the same but for positions. -/
theorem getD_unplaced {t u : Token} {ts us : List Token}
    (h : ts.map Token.unplaced = us.map Token.unplaced) (i : Nat)
    (hdefault : t.unplaced = u.unplaced) : (ts.getD i t).unplaced = (us.getD i u).unplaced := by
  have hsame : ts[i]?.map Token.unplaced = us[i]?.map Token.unplaced := by
    rw [← List.getElem?_map, h, List.getElem?_map]
  rw [List.getD_eq_getElem?_getD, List.getD_eq_getElem?_getD, ← Option.getD_map Token.unplaced,
    hsame, hdefault, Option.getD_map]

end Octet
