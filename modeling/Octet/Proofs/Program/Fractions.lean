import Octet.Proofs.Program.Acceptance
import Octet.Source

/-!
# Programs with fractional numbers

The machine has no fractional numbers, so a literal that is one is refused.  There is one way around
the check.  A minus in front of a literal that equals `2 ^ 31` is laid out as the least word,
without a look at the literal itself, and a fractional number may equal `2 ^ 31` as well as an
integer does.

So a program is laid out just as the program with `2 ^ 31` written as an integer in these places
(`Program.exact`), and if a fractional number is left in that one, it is refused (`generate_exact`).
A program with fractional numbers is accepted exactly if all of them are such magnitudes and the
program with integers in their places is accepted.
-/

namespace Octet

open Demand Draft

/-! ## Fractional numbers in trees -/

mutual

/-- Whether there is a fractional number in an expression. -/
def Expr.hasReal : Expr → Bool
  | .literal _ (some (.real _)) => true
  | .unary _ _ operand => operand.hasReal
  | .binary _ left _ right => left.hasReal || right.hasReal
  | .call _ _ args => Expr.listHasReal args
  | _ => false

/-- Whether there is a fractional number in one of some expressions. -/
def Expr.listHasReal : List Expr → Bool
  | [] => false
  | e :: es => e.hasReal || Expr.listHasReal es

end

mutual

/-- Whether there is a fractional number in a statement. -/
def Stmt.hasReal : Stmt → Bool
  | .exprStmt _ e | .letDecl _ _ e | .assign _ _ e | .returning _ (some e) => e.hasReal
  | .conditional _ cond body rest => cond.hasReal || (Stmt.listHasReal body || rest.hasReal)
  | .loop _ body | .fnDecl _ _ _ body => Stmt.listHasReal body
  | _ => false

/-- Whether there is a fractional number in one of some statements. -/
def Stmt.listHasReal : List Stmt → Bool
  | [] => false
  | s :: ss => s.hasReal || Stmt.listHasReal ss

/-- Whether there is a fractional number behind a condition. -/
def Chain.hasReal : Chain → Bool
  | .done => false
  | .otherwise body => Stmt.listHasReal body
  | .elseIf cond body rest => cond.hasReal || (Stmt.listHasReal body || rest.hasReal)

end

/-- Whether there is a fractional number anywhere in a program. -/
def Program.hasReal (p : Program) : Bool :=
  Stmt.listHasReal p.items

/-! ## The magnitude of the least word as an integer -/

/-- The magnitude of the least word in place of a literal. -/
def Expr.leastMagnitude : Expr → Expr
  | .literal pos _ => .literal pos (some (.int (-Word32.least)))
  | e => e

mutual

/-- An expression with `2 ^ 31` written as an integer wherever a minus makes it the least word. -/
def Expr.exact : Expr → Expr
  | .unary pos op operand =>
    if op = "-" ∧ operand.isLeastMagnitude then .unary pos op operand.leastMagnitude
    else .unary pos op operand.exact
  | .binary pos left op right => .binary pos left.exact op right.exact
  | .call pos name args => .call pos name (Expr.exactList args)
  | .literal pos value => .literal pos value
  | .identifier pos name => .identifier pos name
  | .misplaced kind => .misplaced kind

/-- Expressions with `2 ^ 31` written as an integer wherever a minus makes it the least word. -/
def Expr.exactList : List Expr → List Expr
  | [] => []
  | e :: es => e.exact :: Expr.exactList es

end

mutual

/-- A statement with `2 ^ 31` written as an integer wherever a minus makes it the least word. -/
def Stmt.exact : Stmt → Stmt
  | .exprStmt pos e => .exprStmt pos e.exact
  | .letDecl pos name value => .letDecl pos name value.exact
  | .assign pos name value => .assign pos name value.exact
  | .returning pos value => .returning pos (value.map Expr.exact)
  | .conditional pos cond body rest =>
    .conditional pos cond.exact (Stmt.exactList body) rest.exact
  | .loop pos body => .loop pos (Stmt.exactList body)
  | .breaking pos => .breaking pos
  | .fnDecl pos name params body => .fnDecl pos name params body
  | .misplaced kind => .misplaced kind

/-- Statements with `2 ^ 31` written as an integer wherever a minus makes it the least word. -/
def Stmt.exactList : List Stmt → List Stmt
  | [] => []
  | s :: ss => s.exact :: Stmt.exactList ss

/-- A chain with `2 ^ 31` written as an integer wherever a minus makes it the least word. -/
def Chain.exact : Chain → Chain
  | .done => .done
  | .otherwise body => .otherwise (Stmt.exactList body)
  | .elseIf cond body rest => .elseIf cond.exact (Stmt.exactList body) rest.exact

end

/-- A program with `2 ^ 31` written as an integer wherever a minus makes it the least word. -/
def Program.exact (p : Program) : Program :=
  ⟨Stmt.exactList p.items⟩

@[simp] theorem Expr.length_exactList (es : List Expr) :
    (Expr.exactList es).length = es.length := by
  induction es with
  | nil => rfl
  | cons e es ih => rw [Expr.exactList, List.length_cons, List.length_cons, ih]

/-- What equals the magnitude is a literal, and still does as an integer. -/
theorem Expr.isLeastMagnitude_leastMagnitude {e : Expr} (h : e.isLeastMagnitude = true) :
    e.leastMagnitude.isLeastMagnitude = true ∧ e.leastMagnitude.hasReal = false := by
  cases e with
  | literal pos value => exact ⟨rfl, rfl⟩
  | _ => cases h

/-- An expression that does not equal the magnitude does not do so with integers either. -/
theorem Expr.isLeastMagnitude_exact (e : Expr) : e.exact.isLeastMagnitude = e.isLeastMagnitude := by
  cases e with
  | unary pos op operand =>
    rw [Expr.exact]
    split <;> rfl
  | _ => rw [Expr.exact] <;> rfl

/-! ## Laying out -/

mutual

/-- An expression is laid out in the same way with integers. -/
theorem Expr.emit_exact : ∀ e : Expr, e.exact.emit = e.emit
  | .literal .. | .identifier .. | .misplaced _ => by rw [Expr.exact]
  | .unary pos op operand => by
    rw [Expr.exact]
    split
    · rename_i hleast
      rw [Expr.emit, Expr.emit, if_pos hleast,
        if_pos ⟨hleast.1, (Expr.isLeastMagnitude_leastMagnitude hleast.2).1⟩]
    · rw [Expr.emit, Expr.emit, Expr.isLeastMagnitude_exact, Expr.emit_exact operand]
  | .binary pos left op right => by
    rw [Expr.exact, Expr.emit, Expr.emit, Expr.emit_exact left, Expr.emit_exact right]
  | .call pos name args => by
    rw [Expr.exact, Expr.emit, Expr.emit, Expr.length_exactList, Expr.emitList_exact args]

theorem Expr.emitList_exact : ∀ es : List Expr, Expr.emitList (Expr.exactList es) = Expr.emitList es
  | [] => by rw [Expr.exactList]
  | e :: es => by
    rw [Expr.exactList, Expr.emitList, Expr.emitList, Expr.emit_exact e, Expr.emitList_exact es]

end

mutual

/-- A statement is laid out in the same way with integers. -/
theorem Stmt.emit_exact (loopEnd : Option Label) : ∀ s : Stmt,
    s.exact.emit loopEnd = s.emit loopEnd
  | .exprStmt pos e => by rw [Stmt.exact, Stmt.emit, Stmt.emit, e.emit_exact]
  | .letDecl pos name value => by rw [Stmt.exact, Stmt.emit, Stmt.emit, value.emit_exact]
  | .assign pos name value => by rw [Stmt.exact, Stmt.emit, Stmt.emit, value.emit_exact]
  | .returning pos none => by rw [Stmt.exact, Option.map_none]
  | .returning pos (some value) => by
    rw [Stmt.exact, Option.map_some, Stmt.emit, Stmt.emit, value.emit_exact]
  | .breaking _ | .fnDecl .. | .misplaced _ => by rw [Stmt.exact]
  | .conditional pos cond body rest => by
    rw [Stmt.exact, Stmt.emit, Stmt.emit, cond.emit_exact, Stmt.emitList_exact loopEnd body]
    simp only [Chain.emit_exact loopEnd _ _ rest]
  | .loop pos body => by
    rw [Stmt.exact, Stmt.emit, Stmt.emit]
    simp only [fun finish => Stmt.emitList_exact (some finish) body]

theorem Stmt.emitList_exact (loopEnd : Option Label) : ∀ ss : List Stmt,
    Stmt.emitList loopEnd (Stmt.exactList ss) = Stmt.emitList loopEnd ss
  | [] => by rw [Stmt.exactList]
  | s :: ss => by
    rw [Stmt.exactList, Stmt.emitList, Stmt.emitList, Stmt.emit_exact loopEnd s,
      Stmt.emitList_exact loopEnd ss]

theorem Chain.emit_exact (loopEnd : Option Label) (finish next : Label) : ∀ rest : Chain,
    rest.exact.emit loopEnd finish next = rest.emit loopEnd finish next
  | .done => by rw [Chain.exact]
  | .otherwise body => by
    rw [Chain.exact, Chain.emit, Chain.emit, Stmt.emitList_exact loopEnd body]
  | .elseIf cond body rest => by
    rw [Chain.exact, Chain.emit, Chain.emit, cond.emit_exact, Stmt.emitList_exact loopEnd body]
    simp only [fun later => Chain.emit_exact loopEnd finish later rest]

end

/-- A program is laid out in the same way with integers. -/
theorem Draft.generate_of_exact (p : Program) : Draft.generate p.exact = Draft.generate p := by
  rw [Draft.generate, Draft.generate, Program.exact, Stmt.emitList_exact]

/-! ## Demands -/

/-- One of these demands is met behind no others. -/
def Hopeless (demands : List Demand) : Prop :=
  ∃ demand ∈ demands, ∀ earlier, ¬ demand.Met earlier

theorem Hopeless.mono {demands others : List Demand} (h : Hopeless demands)
    (hsub : demands ⊆ others) : Hopeless others := by
  obtain ⟨demand, hmem, hunmet⟩ := h
  exact ⟨demand, hsub hmem, hunmet⟩

theorem Hopeless.left {demands : List Demand} (h : Hopeless demands) (others : List Demand) :
    Hopeless (demands ++ others) :=
  h.mono (List.subset_append_left ..)

theorem Hopeless.right {demands : List Demand} (h : Hopeless demands) (others : List Demand) :
    Hopeless (others ++ demands) :=
  h.mono (List.subset_append_right ..)

theorem Hopeless.not_allMet {demands : List Demand} (h : Hopeless demands) : ¬ AllMet demands := by
  obtain ⟨demand, hmem, hunmet⟩ := h
  obtain ⟨front, back, heq⟩ := List.append_of_mem hmem
  exact fun hall => hunmet front (hall heq)

mutual

/-- A fractional number that is left in an expression with integers cannot be laid out. -/
theorem Expr.hopeless : ∀ e : Expr, e.exact.hasReal = true → Hopeless e.demands
  | .literal pos value, h => by
    rw [Expr.exact] at h
    match value with
    | some (.real x) => exact ⟨_, List.mem_singleton_self _, fun _ => id⟩
    | some (.bool _) | some (.int _) | some (.text _) | none => cases h
  | .identifier .., h | .misplaced _, h => by cases h
  | .unary pos op operand, h => by
    rw [Expr.exact] at h
    rw [Expr.demands]
    split
    · rename_i hleast
      rw [if_pos hleast, Expr.hasReal, (Expr.isLeastMagnitude_leastMagnitude hleast.2).2] at h
      cases h
    · rename_i hleast
      rw [if_neg hleast, Expr.hasReal] at h
      exact (Expr.hopeless operand h).left _
  | .binary pos left op right, h => by
    rw [Expr.exact, Expr.hasReal, Bool.or_eq_true] at h
    rw [Expr.demands]
    rcases h with h | h
    · exact ((Expr.hopeless left h).left _).right _
    · exact ((Expr.hopeless right h).right _).right _
  | .call pos name args, h => by
    rw [Expr.exact, Expr.hasReal] at h
    rw [Expr.demands]
    exact (Expr.hopelessList args h).mono (List.subset_cons_self ..)

theorem Expr.hopelessList : ∀ es : List Expr, Expr.listHasReal (Expr.exactList es) = true →
    Hopeless (Expr.demandsList es)
  | [], h => by cases h
  | e :: es, h => by
    rw [Expr.exactList, Expr.listHasReal, Bool.or_eq_true] at h
    rw [Expr.demandsList]
    rcases h with h | h
    · exact (Expr.hopeless e h).left _
    · exact (Expr.hopelessList es h).right _

end

mutual

/-- A fractional number that is left in a statement with integers cannot be laid out. -/
theorem Stmt.hopeless (inLoop : Bool) : ∀ s : Stmt, s.exact.hasReal = true →
    Hopeless (s.demands inLoop)
  | .exprStmt pos e, h => by
    rw [Stmt.exact, Stmt.hasReal] at h
    rw [Stmt.demands]
    exact e.hopeless h
  | .letDecl pos name value, h => by
    rw [Stmt.exact, Stmt.hasReal] at h
    rw [Stmt.demands]
    exact (value.hopeless h).left _
  | .assign pos name value, h => by
    rw [Stmt.exact, Stmt.hasReal] at h
    rw [Stmt.demands]
    exact (value.hopeless h).mono (List.subset_cons_self ..)
  | .returning pos none, h | .breaking _, h | .misplaced _, h => by cases h
  | .returning pos (some value), h => by
    rw [Stmt.exact, Option.map_some, Stmt.hasReal] at h
    rw [Stmt.demands]
    exact value.hopeless h
  | .conditional pos cond body rest, h => by
    rw [Stmt.exact, Stmt.hasReal, Bool.or_eq_true, Bool.or_eq_true] at h
    rw [Stmt.demands]
    rcases h with h | h | h
    · exact (cond.hopeless h).left _
    · exact ((Stmt.hopelessList inLoop body h).left _).right _
    · exact ((Chain.hopeless inLoop rest h).right _).right _
  | .loop pos body, h => by
    rw [Stmt.exact, Stmt.hasReal] at h
    rw [Stmt.demands]
    exact Stmt.hopelessList true body h
  | .fnDecl pos name params body, _ => ⟨_, List.mem_singleton_self _, fun _ => id⟩

theorem Stmt.hopelessList (inLoop : Bool) : ∀ ss : List Stmt,
    Stmt.listHasReal (Stmt.exactList ss) = true → Hopeless (Stmt.demandsList inLoop ss)
  | [], h => by cases h
  | s :: ss, h => by
    rw [Stmt.exactList, Stmt.listHasReal, Bool.or_eq_true] at h
    rw [Stmt.demandsList]
    rcases h with h | h
    · exact (Stmt.hopeless inLoop s h).left _
    · exact (Stmt.hopelessList inLoop ss h).right _

theorem Chain.hopeless (inLoop : Bool) : ∀ rest : Chain, rest.exact.hasReal = true →
    Hopeless (rest.demands inLoop)
  | .done, h => by cases h
  | .otherwise body, h => by
    rw [Chain.exact, Chain.hasReal] at h
    rw [Chain.demands]
    exact Stmt.hopelessList inLoop body h
  | .elseIf cond body rest, h => by
    rw [Chain.exact, Chain.hasReal, Bool.or_eq_true, Bool.or_eq_true] at h
    rw [Chain.demands]
    rcases h with h | h | h
    · exact (cond.hopeless h).left _
    · exact ((Stmt.hopelessList inLoop body h).left _).right _
    · exact ((Chain.hopeless inLoop rest h).right _).right _

end

/-! ## Programs -/

/-- **Fractional numbers are refused, but for the magnitude of the least word under its sign.**  A
program is laid out just as the program with an integer in place of such a magnitude, and if that
one has a fractional number in it, both are refused with a fault of the program. -/
theorem generate_exact (p : Program) (d : Draft) :
    (Draft.generate p).perform d = (Draft.generate p.exact).perform d ∧
    (p.exact.hasReal = true → ∃ e d' kind, (Draft.generate p).perform d = (.error e, d') ∧
      e.fault.kind? = some kind ∧ kind ≠ .internal) := by
  refine ⟨by rw [Draft.generate_of_exact], fun hreal => ?_⟩
  have hunmet : ¬ AllMet p.demands := (Stmt.hopelessList false p.items hreal).not_allMet
  cases hreached : (Draft.generate p).perform d with
  | mk r d' =>
    cases r with
    | ok image =>
      have hcomes := comesTo_generate p d
      rw [hreached] at hcomes
      cases hcomes with
      | image hall _ _ _ _ => exact absurd hall hunmet
    | error e =>
      obtain ⟨kind, hkind, hinternal⟩ := (warranted_of_generate hreached).kind
      exact ⟨e, d', kind, rfl, hkind, hinternal⟩

/-- **A text with a fractional number in it has an image**: the number equals `2 ^ 31`, and a minus
stands in front of it. -/
theorem compile_leastReal :
    (Source.parse "return -2147483648.0").toOption.map Program.hasReal = some true ∧
      (Source.compile "return -2147483648.0").toOption =
        some ⟨[0x01, 0x80, 0x00, 0x00, 0x00, 0xff], []⟩ := by
  decide +kernel

end Octet
