import Octet.Proofs.Token.Spacing
import Octet.Proofs.Tree.Completeness

/-!
# Reading does not depend on spacing

Two readings of tokens that are the same but for spacing go the same way.  Either both find
something, and what they find differs at most in positions, or both fail for the same reason and in
front of the same token.  `Agree` is this relation between the outcomes of two readings, and a rule
that has it for all such tokens is one that `Ignores` spacing.

The relation is put together along the rules.  A failure has to be part of it, since a rule that
fails on one text must fail on the other one too.  Positions get into the trees and into nothing
else, but for the value of a `return`, and there `SameButSpacing.returnsValue_eq` says that the two
readings decide alike.
-/

namespace Octet
namespace Grammar

variable {α β : Type}

/-- Two readings go the same way: `wipe` takes the positions out of what they find. -/
inductive Agree (wipe : α → α) {m n : Nat} :
    Except Failure (Parsed α m) → Except Failure (Parsed α n) → Prop
  | found {p : Parsed α m} {q : Parsed α n} : wipe p.value = wipe q.value →
      SameButSpacing p.rest q.rest → Agree wipe (.ok p) (.ok q)
  | failed {f g : Failure} : f.fault = g.fault → SameButSpacing f.rest g.rest →
      Agree wipe (.error f) (.error g)

/-- A rule reads tokens in the same way however they are spaced. -/
def Ignores (wipe : α → α) (rule : Rule α) : Prop :=
  ∀ {ts us : List Token}, SameButSpacing ts us → Agree wipe (rule ts) (rule us)

/-- Two readings after two others. -/
theorem Agree.bind {wipe : α → α} {wipe' : β → β} {k l m n : Nat}
    {r : Except Failure (Parsed α k)} {r' : Except Failure (Parsed α l)}
    {f : Parsed α k → Except Failure (Parsed β m)} {f' : Parsed α l → Except Failure (Parsed β n)}
    (h : Agree wipe r r')
    (hf : ∀ p q, wipe p.value = wipe q.value → SameButSpacing p.rest q.rest →
      Agree wipe' (f p) (f' q)) : Agree wipe' (r >>= f) (r' >>= f') := by
  cases h with
  | found hvalue hrest => exact hf _ _ hvalue hrest
  | failed hfault hrest => exact .failed hfault hrest

/-- The same token, wherever it stands. -/
theorem exists_pos_of_unplaced {t u : Token} (h : t.unplaced = u.unplaced) :
    ∃ pos, u = { t with pos := pos } := by
  obtain ⟨kind, lexeme, pos, value⟩ := t
  obtain ⟨kind', lexeme', pos', value'⟩ := u
  cases h
  exact ⟨pos', rfl⟩

theorem ignores_expect (kind : TokenKind) (what : Expectation) :
    Ignores Token.unplaced (expect kind what) := by
  intro ts us h
  obtain ⟨rfl, rfl⟩ | ⟨t, ts, u, us, rfl, rfl⟩ := h.cases_on
  · exact .failed rfl h
  · rw [expect, expect, ← h.kind]
    split
    · exact .found h.unplaced h.tail
    · exact .failed rfl h

theorem ignores_tooDeep (wipe : α → α) : Ignores wipe tooDeep :=
  fun h => .failed rfl h

/-! ## Lists -/

section

variable {wipe : α → α} {item : Rule α}

theorem ignores_separated (h : Ignores wipe item) :
    Ignores (List.map wipe) (separated item) := by
  intro ts us hsame
  obtain ⟨n, hn⟩ : ∃ n, ts.length < n := ⟨_, Nat.lt_succ_self _⟩
  induction n generalizing ts us with
  | zero => exact absurd hn (Nat.not_lt_zero _)
  | succ n ih =>
    rw [separated, separated]
    refine (h hsame).bind fun p q hvalue hrest => ?_
    obtain ⟨value, rest, hlt⟩ := p
    obtain ⟨value', rest', hlt'⟩ := q
    have hone : List.map wipe [value] = List.map wipe [value'] := by
      rw [List.map_singleton, List.map_singleton, hvalue]
    dsimp only at hrest ⊢
    obtain ⟨rfl, rfl⟩ | ⟨t, rest, u, rest', rfl, rfl⟩ := hrest.cases_on
    · exact .found hone hrest
    · dsimp only
      rw [← hrest.kind]
      split
      · have hless : rest.length < ts.length := Nat.lt_of_succ_lt hlt
        refine (ih hrest.tail (Nat.lt_of_lt_of_le hless (Nat.le_of_lt_succ hn))).bind
          fun later later' hlater hrest' => .found ?_ hrest'
        rw [List.map_cons, List.map_cons, hvalue, hlater]
      · exact .found hone hrest

theorem ignores_enclosed (h : Ignores wipe item) (close : Expectation) :
    Ignores (List.map wipe) (enclosed item close) := by
  have hgo : ∀ {ts us : List Token}, SameButSpacing ts us →
      Agree (List.map wipe) (enclosed.go item close ts) (enclosed.go item close us) := by
    intro ts us hsame
    rw [enclosed.go, enclosed.go]
    exact (ignores_separated h hsame).bind fun items items' hitems hrest =>
      (ignores_expect _ close hrest).bind fun _ _ _ hrest' => .found hitems hrest'
  intro ts us hsame
  obtain ⟨rfl, rfl⟩ | ⟨t, ts, u, us, rfl, rfl⟩ := hsame.cases_on
  · exact hgo hsame
  · rw [enclosed, enclosed, ← hsame.kind]
    split
    · exact .found rfl hsame.tail
    · exact hgo hsame

end

/-! ## Expressions -/

theorem unplacedList_eq_map (es : List Expr) : Expr.unplacedList es = es.map Expr.unplaced := by
  induction es with
  | nil => rw [Expr.unplacedList, List.map_nil]
  | cons e es ih => rw [Expr.unplacedList, List.map_cons, ih]

section

variable {next : Rule Expr}

theorem agree_joined (h : Ignores Expr.unplaced next) (ops : List TokenKind) {left left' : Expr}
    (hleft : left.unplaced = left'.unplaced) {ts us : List Token} (hsame : SameButSpacing ts us) :
    Agree Expr.unplaced (joined ops next left ts) (joined ops next left' us) := by
  obtain ⟨n, hn⟩ : ∃ n, ts.length < n := ⟨_, Nat.lt_succ_self _⟩
  induction n generalizing left left' ts us with
  | zero => exact absurd hn (Nat.not_lt_zero _)
  | succ n ih =>
    obtain ⟨rfl, rfl⟩ | ⟨op, ts, op', us, rfl, rfl⟩ := hsame.cases_on
    · rw [joined, joined]
      exact .found hleft hsame
    · rw [joined, joined, ← hsame.kind]
      split
      · refine (h hsame.tail).bind fun p q hright hrest => ?_
        have hboth : (Expr.binary op.pos left op.lexeme p.value).unplaced =
            (Expr.binary op'.pos left' op'.lexeme q.value).unplaced := by
          rw [Expr.unplaced, Expr.unplaced, hleft, hright, hsame.lexeme]
        exact (ih hboth hrest (Nat.lt_trans p.lt (Nat.lt_of_succ_lt_succ hn))).bind
          fun _ _ hwhole hrest' => .found hwhole hrest'
      · exact .found hleft hsame

theorem ignores_level (h : Ignores Expr.unplaced next) (ops : List TokenKind) :
    Ignores Expr.unplaced (level ops next) := by
  intro ts us hsame
  rw [level, level]
  exact (h hsame).bind fun p q hfirst hrest =>
    (agree_joined h ops hfirst hrest).bind fun _ _ hwhole hrest' => .found hwhole hrest'

theorem ignores_operation (h : Ignores Expr.unplaced next) :
    Ignores Expr.unplaced (operation next) := by
  rw [operation]
  induction levels with
  | nil => exact h
  | cons ops others ih => exact ignores_level ih ops

theorem ignores_operandOf {nested inner : Rule Expr} (h : Ignores Expr.unplaced nested)
    (h' : Ignores Expr.unplaced inner) : Ignores Expr.unplaced (operandOf nested inner) := by
  intro ts us hsame
  obtain ⟨rfl, rfl⟩ | ⟨t, ts, u, us, rfl, rfl⟩ := hsame.cases_on
  · exact .failed rfl hsame
  obtain ⟨pos', rfl⟩ := exists_pos_of_unplaced hsame.unplaced
  obtain ⟨kind, lexeme, pos, value⟩ := t
  cases kind with
  | bang | minus =>
    refine (h hsame.tail).bind fun p q hvalue hrest => .found ?_ hrest
    rw [Expr.unplaced, Expr.unplaced, hvalue]
  | falseWord | trueWord | number | string => exact .found rfl hsame.tail
  | identifier =>
    obtain ⟨rfl, rfl⟩ | ⟨paren, ts, paren', us, rfl, rfl⟩ := hsame.tail.cases_on
    · exact .found rfl hsame.tail
    · unfold operandOf
      dsimp only
      rw [← hsame.tail.kind]
      split
      · refine (ignores_enclosed h' _ hsame.tail.tail).bind fun p q hargs hrest => .found ?_ hrest
        rw [Expr.unplaced, Expr.unplaced, unplacedList_eq_map, unplacedList_eq_map, hargs]
      · exact .found rfl hsame.tail
  | leftParen =>
    exact (h' hsame.tail).bind fun p q hvalue hrest =>
      (ignores_expect _ _ hrest).bind fun _ _ _ hrest' => .found hvalue hrest'
  | _ => exact .failed rfl hsame

theorem ignores_operand (room : Nat) : Ignores Expr.unplaced (operand room) := by
  induction room with
  | zero => exact ignores_operandOf (ignores_tooDeep _) (ignores_tooDeep _)
  | succ room ih => exact ignores_operandOf ih (ignores_operation ih)

theorem ignores_expression (room : Nat) : Ignores Expr.unplaced (expression room) := by
  cases room with
  | zero => exact ignores_tooDeep _
  | succ room => exact ignores_operation (ignores_operand room)

end

/-! ## Statements -/

section

variable {expression : Rule Expr} {block : Rule (List Stmt)}

theorem ignores_braced {inside : Rule (List Stmt)} (h : Ignores Stmt.unplacedList inside) :
    Ignores Stmt.unplacedList (braced inside) := by
  intro ts us hsame
  rw [braced, braced]
  exact (ignores_expect _ _ hsame).bind fun _ _ _ hrest =>
    (h hrest).bind fun _ _ hbody hrest' => .found hbody hrest'

theorem ignores_statements {statement : Rule Stmt} (h : Ignores Stmt.unplaced statement) :
    Ignores Stmt.unplacedList (statements statement) := by
  intro ts us hsame
  obtain ⟨n, hn⟩ : ∃ n, ts.length < n := ⟨_, Nat.lt_succ_self _⟩
  induction n generalizing ts us with
  | zero => exact absurd hn (Nat.not_lt_zero _)
  | succ n ih =>
    obtain ⟨rfl, rfl⟩ | ⟨t, ts, u, us, rfl, rfl⟩ := hsame.cases_on
    · rw [statements]
      exact .failed rfl hsame
    · rw [statements, statements, ← hsame.kind]
      split
      · exact (ih hsame.tail (Nat.lt_of_succ_lt_succ hn)).bind
          fun _ _ hlater hrest => .found hlater hrest
      · split
        · exact .found rfl hsame.tail
        · refine (h hsame).bind fun p q hfirst hrest => ?_
          refine (ih hrest (Nat.lt_of_lt_of_le p.lt (Nat.le_of_lt_succ hn))).bind
            fun _ _ hlater hrest' => .found ?_ hrest'
          rw [Stmt.unplacedList, Stmt.unplacedList, hfirst, hlater]

theorem agree_final (hB : Ignores Stmt.unplacedList block) {m n : Nat} {ts us : List Token}
    (hm : ts.length < m) (hn : us.length < n) (hsame : SameButSpacing ts us) :
    Agree Chain.unplaced (chain.final block ts hm) (chain.final block us hn) := by
  rw [chain.final, chain.final]
  refine (hB hsame).bind fun p q hbody hrest => .found ?_ hrest
  rw [Chain.unplaced, Chain.unplaced, hbody]

theorem agree_chain (hE : Ignores Expr.unplaced expression) (hB : Ignores Stmt.unplacedList block)
    {ts us : List Token} (hsame : SameButSpacing ts us) :
    Agree Chain.unplaced (chain expression block ts) (chain expression block us) := by
  obtain ⟨n, hn⟩ : ∃ n, ts.length < n := ⟨_, Nat.lt_succ_self _⟩
  induction n generalizing ts us with
  | zero => exact absurd hn (Nat.not_lt_zero _)
  | succ n ih =>
    obtain ⟨rfl, rfl⟩ | ⟨word, ts, word', us, rfl, rfl⟩ := hsame.cases_on
    · rw [chain]
      exact .found rfl hsame
    unfold chain
    dsimp only
    rw [← hsame.kind]
    split
    · have htail := hsame.tail
      obtain ⟨rfl, rfl⟩ | ⟨next, ts, next', us, rfl, rfl⟩ := htail.cases_on
      · exact agree_final hB _ _ htail
      dsimp only
      rw [← htail.kind]
      split
      · refine (hE htail.tail).bind fun cond cond' hcond hrest => ?_
        refine (hB hrest).bind fun body body' hbody hrest' => ?_
        have hless : body.rest.length < (word :: next :: ts).length :=
          Nat.lt_succ_of_lt (Nat.lt_succ_of_lt (Nat.lt_trans body.lt cond.lt))
        refine (ih hrest' (Nat.lt_of_lt_of_le hless (Nat.le_of_lt_succ hn))).bind
          fun _ _ hlater hrest'' => .found ?_ hrest''
        rw [Chain.unplaced, Chain.unplaced, hcond, hbody, hlater]
      · exact agree_final hB _ _ htail
    · exact .found rfl hsame

theorem agree_bareExpression (hE : Ignores Expr.unplaced expression) (pos pos' : Pos)
    {ts us : List Token} (hsame : SameButSpacing ts us) :
    Agree Stmt.unplaced (bareExpression expression pos ts) (bareExpression expression pos' us) := by
  rw [bareExpression, bareExpression]
  refine (hE hsame).bind fun p q hvalue hrest => .found ?_ hrest
  show (Stmt.exprStmt pos p.value).unplaced = (Stmt.exprStmt pos' q.value).unplaced
  rw [Stmt.unplaced, Stmt.unplaced, hvalue]

theorem ignores_statementOf (hE : Ignores Expr.unplaced expression)
    (hB : Ignores Stmt.unplacedList block) :
    Ignores Stmt.unplaced (statementOf expression block) := by
  intro ts us hsame
  obtain ⟨rfl, rfl⟩ | ⟨t, ts, u, us, rfl, rfl⟩ := hsame.cases_on
  · exact .failed rfl hsame
  obtain ⟨pos', rfl⟩ := exists_pos_of_unplaced hsame.unplaced
  obtain ⟨kind, lexeme, pos, value⟩ := t
  cases kind with
  | letWord =>
    refine (ignores_expect _ _ hsame.tail).bind fun name name' hname hrest => ?_
    refine (ignores_expect _ _ hrest).bind fun sign sign' _ hrest' => ?_
    refine (hE hrest').bind fun p q hvalue hrest'' => .found ?_ hrest''
    have hlexeme : name.value.lexeme = name'.value.lexeme := (Token.mk.inj hname).2.1
    rw [Stmt.unplaced, Stmt.unplaced, hlexeme, hvalue]
  | loopWord =>
    refine (hB hsame.tail).bind fun p q hbody hrest => .found ?_ hrest
    rw [Stmt.unplaced, Stmt.unplaced, hbody]
  | ifWord =>
    refine (hE hsame.tail).bind fun cond cond' hcond hrest => ?_
    refine (hB hrest).bind fun body body' hbody hrest' => ?_
    refine (agree_chain hE hB hrest').bind fun later later' hlater hrest'' => .found ?_ hrest''
    rw [Stmt.unplaced, Stmt.unplaced, hcond, hbody, hlater]
  | returnWord =>
    unfold statementOf
    dsimp only
    rw [← hsame.returnsValue_eq rfl]
    split
    · refine (hE hsame.tail).bind fun p q hvalue hrest => .found ?_ hrest
      rw [Stmt.unplaced, Stmt.unplaced, Option.map_some, hvalue, Option.map_some]
    · exact .found rfl hsame.tail
  | breakWord => exact .found rfl hsame.tail
  | fnWord => exact .failed rfl hsame
  | identifier =>
    obtain ⟨rfl, rfl⟩ | ⟨sign, ts, sign', us, rfl, rfl⟩ := hsame.tail.cases_on
    · exact agree_bareExpression hE pos pos' hsame
    · unfold statementOf
      dsimp only
      rw [← hsame.tail.kind]
      split
      · refine (hE hsame.tail.tail).bind fun p q hvalue hrest => .found ?_ hrest
        rw [Stmt.unplaced, Stmt.unplaced, hvalue]
      · exact agree_bareExpression hE pos pos' hsame
  | _ => exact agree_bareExpression hE pos pos' hsame

end

theorem ignores_statement (room : Nat) : Ignores Stmt.unplaced (statement room) := by
  induction room with
  | zero => exact ignores_statementOf (ignores_expression 0) (ignores_braced (ignores_tooDeep _))
  | succ room ih =>
    exact ignores_statementOf (ignores_expression (room + 1))
      (ignores_braced (ignores_statements ih))

theorem ignores_block (room : Nat) : Ignores Stmt.unplacedList (block room) := by
  cases room with
  | zero => exact ignores_braced (ignores_tooDeep _)
  | succ room => exact ignores_braced (ignores_statements (ignores_statement room))

/-! ## Programs -/

theorem agree_function (room : Nat) (word word' : Token) {ts us : List Token}
    (hsame : SameButSpacing ts us) :
    Agree Stmt.unplaced (function room word ts) (function room word' us) := by
  rw [function, function]
  refine (ignores_expect _ _ hsame).bind fun name name' hname hrest => ?_
  refine (ignores_expect _ _ hrest).bind fun paren paren' _ hrest' => ?_
  refine (ignores_enclosed (ignores_expect _ _) _ hrest').bind
    fun params params' hparams later => ?_
  refine (ignores_block room later).bind fun body body' hbody later' => .found ?_ later'
  have hlexeme : name.value.lexeme = name'.value.lexeme := (Token.mk.inj hname).2.1
  have hnames : params.value.map Token.lexeme = params'.value.map Token.lexeme := by
    have hboth := congrArg (List.map Token.lexeme) hparams
    rwa [List.map_map, List.map_map] at hboth
  rw [Stmt.unplaced, Stmt.unplaced, hlexeme, hnames, hbody]

/-- Two readings of a whole program go the same way. -/
inductive AgreeOnProgram : Except Failure (List Stmt) → Except Failure (List Stmt) → Prop
  | found {items items' : List Stmt} : Stmt.unplacedList items = Stmt.unplacedList items' →
      AgreeOnProgram (.ok items) (.ok items')
  | failed {f g : Failure} : f.fault = g.fault → SameButSpacing f.rest g.rest →
      AgreeOnProgram (.error f) (.error g)

/-- An item, and the items behind it. -/
theorem Agree.cons {m n : Nat} {r : Except Failure (Parsed Stmt m)}
    {r' : Except Failure (Parsed Stmt n)} {f : Parsed Stmt m → Except Failure (List Stmt)}
    {f' : Parsed Stmt n → Except Failure (List Stmt)} (h : Agree Stmt.unplaced r r')
    (hf : ∀ p q, SameButSpacing p.rest q.rest → AgreeOnProgram (f p) (f' q)) :
    AgreeOnProgram (r >>= fun p => f p >>= fun later => .ok (p.value :: later))
      (r' >>= fun q => f' q >>= fun later => .ok (q.value :: later)) := by
  cases h with
  | failed hfault hrest => exact .failed hfault hrest
  | @found p q hvalue hrest =>
    show AgreeOnProgram (f p >>= _) (f' q >>= _)
    have hlater := hf p q hrest
    generalize f p = r, f' q = r' at hlater ⊢
    cases hlater with
    | failed hfault hrest => exact .failed hfault hrest
    | found hitems =>
      refine .found ?_
      rw [Stmt.unplacedList, Stmt.unplacedList, hvalue, hitems]

/-- **Programs are read in the same way however their tokens are spaced.** -/
theorem agree_program (room : Nat) {ts us : List Token} (hsame : SameButSpacing ts us) :
    AgreeOnProgram (program room ts) (program room us) := by
  induction hlength : ts.length using Nat.strongRecOn generalizing ts us with
  | _ n ih =>
    subst hlength
    obtain ⟨rfl, rfl⟩ | ⟨t, ts, u, us, rfl, rfl⟩ := hsame.cases_on
    · rw [program]
      exact .found rfl
    · rw [program, program, ← hsame.kind]
      split
      · exact ih ts.length (Nat.lt_succ_self _) hsame.tail rfl
      · split
        · exact (agree_function room t u hsame.tail).cons fun p q hrest =>
            ih p.rest.length (Nat.lt_succ_of_lt p.lt) hrest rfl
        · exact (ignores_statement room hsame).cons fun p q hrest =>
            ih p.rest.length p.lt hrest rfl

end Grammar

/-- The tokens of two readers that were given the same tokens. -/
theorem Reader.tokens_sameButSpacing {ts us : List Token} (h : SameButSpacing ts us) :
    (Reader.ofTokens ts).tokens.map Token.unplaced =
        (Reader.ofTokens us).tokens.map Token.unplaced ∧
      (Reader.ofTokens ts).final.unplaced = (Reader.ofTokens us).final.unplaced := by
  have hlast : ts.getLast?.map Token.unplaced = us.getLast?.map Token.unplaced := by
    rw [← List.getLast?_map, h.spelled, List.getLast?_map]
  rw [Reader.ofTokens, Reader.ofTokens]
  cases hts : ts.getLast? with
  | none =>
    rw [hts] at hlast
    rw [Option.map_eq_none_iff.1 hlast.symm]
    exact ⟨rfl, rfl⟩
  | some t =>
    rw [hts] at hlast
    obtain ⟨u, hus, hu⟩ := Option.map_eq_some_iff.1 hlast.symm
    have hkind : u.kind = t.kind := (Token.mk.inj hu).1
    rw [hus]
    dsimp only
    rw [hkind]
    split
    · have hinit : ts.dropLast.map Token.unplaced = us.dropLast.map Token.unplaced := by
        rw [List.map_dropLast, h.spelled, List.map_dropLast]
      exact ⟨by rw [tokens, tokens, List.map_append, List.map_append, hinit,
        List.map_singleton, List.map_singleton, hu], hu.symm⟩
    · exact ⟨by rw [tokens, tokens, List.map_append, List.map_append, h.spelled]; rfl, rfl⟩

/-- **A program is read in the same way however its tokens are spaced**: it is the same program but
for the positions in it, or the same fault is found at the same token. -/
theorem ofTokens_sameButSpacing {ts us : List Token} (h : SameButSpacing ts us) :
    (∃ p q, Program.ofTokens ts = .ok p ∧ Program.ofTokens us = .ok q ∧
      p.unplaced = q.unplaced) ∨
    ∃ e e', Program.ofTokens ts = .error e ∧ Program.ofTokens us = .error e' ∧
      e.fault = e'.fault ∧ e.found.unplaced = e'.found.unplaced := by
  have hahead : SameButSpacing (Reader.ofTokens ts).ahead (Reader.ofTokens us).ahead := by
    rw [Reader.ahead_ofTokens, Reader.ahead_ofTokens]
    exact h.takeWhile_ne_eof
  have hread := Grammar.agree_program maxNesting hahead
  rw [Program.ofTokens, Program.ofTokens, Reader.parse, Reader.parse,
    (Reader.ofTokens_final ts).2.1, (Reader.ofTokens_final ts).2.2,
    (Reader.ofTokens_final us).2.1, (Reader.ofTokens_final us).2.2, Nat.sub_zero]
  have hlength := hahead.length_eq
  obtain ⟨htokens, hfinal⟩ := Reader.tokens_sameButSpacing h
  generalize Grammar.program maxNesting (Reader.ofTokens ts).ahead = r,
    Grammar.program maxNesting (Reader.ofTokens us).ahead = r' at hread ⊢
  cases hread with
  | @found items items' hitems =>
    refine .inl ⟨⟨items⟩, ⟨items'⟩, rfl, rfl, ?_⟩
    rw [Program.unplaced, Program.unplaced, hitems]
  | @failed f g hfault hrest =>
    refine .inr ⟨_, _, rfl, rfl, hfault, ?_⟩
    rw [hlength, hrest.length_eq]
    exact getD_unplaced htokens _ hfinal

end Octet
