import Octet.Proofs.Tree.Ends
import Octet.Proofs.Tree.Greedy
import Octet.Proofs.Tree.Precedence
import Octet.Proofs.Tree.Reader

/-!
# Terminated programs are read back

A program whose statements all end in a semicolon, on a single line, is read back from its tokens.
The tokens may have as many parentheses as one likes, as long as they have the ones that the levels
of the operators ask for.

The rules find the greedy spellings, so what has to be shown is that a terminated spelling is a
greedy one.  A spelling is greedy if what stands behind it cannot continue it.

* An expression is continued by an operator, and by an opening parenthesis if it ends in a name
  (`continuing`).  Behind an expression stands a semicolon, a brace, a closing parenthesis or a
  comma, and none of these continues one.
* Inside an expression, an operator that joins operands of one level does not continue an operand
  of this level, since every operator is of one level only.
* A conditional is continued by `else`, and behind a conditional stands a semicolon.
-/

namespace Octet
namespace Grammar

/-- A spelling with this behind it is a spelling of another kind. -/
def Spelling.Becomes {α : Type} (behind : List Token → Prop) (R Q : Spelling α) : Prop :=
  ∀ ⦃a : α⦄ ⦃tokens rest : List Token⦄, R a tokens rest → behind rest → Q a tokens rest

variable {S : Style}

/-! ## Lists -/

section

variable {α : Type} {R Q : Spelling α} {behind : List Token → Prop}

theorem Separated.becomes (h : Spelling.Becomes behind R Q)
    (hcomma : ∀ {tokens : List Token}, Meets [.comma] tokens → behind tokens) :
    Spelling.Becomes (fun rest => behind rest ∧ Avoids [.comma] rest) (Separated S R)
      (Separated .greedy Q) := by
  rintro as tokens rest hitems ⟨hbehind, hrest⟩
  induction hitems with
  | one ha _ => exact .one (h ha hbehind) hrest
  | more ha hkind _ ih => exact .more (h ha (hcomma (by simpa using hkind))) hkind (ih hbehind hrest)

theorem Enclosed.becomes {kinds : List TokenKind} (h : Spelling.Becomes behind R Q)
    (hbegins : R.Begins kinds) (hkinds : TokenKind.rightParen ∉ kinds)
    (hbehind : ∀ {tokens : List Token}, Meets [.comma, .rightParen] tokens → behind tokens) :
    Spelling.Becomes (fun _ => True) (Enclosed S R) (Enclosed .greedy Q) := by
  intro as tokens rest hitems _
  cases hitems with
  | none hclose => exact .none hclose
  | some _ hitems hclose =>
    have hfront : Avoids [.rightParen] tokens := by
      refine (Separated.begins S hbegins hitems).avoids fun kind hkind hparen => ?_
      exact hkinds (List.mem_singleton.1 hparen ▸ hkind)
    have hcomma : ∀ {tokens : List Token}, Meets [.comma] tokens → behind tokens :=
      fun hmeets => hbehind (hmeets.mono (by simp))
    refine .some hfront (Separated.becomes h hcomma hitems ⟨hbehind ?_, ?_⟩) hclose
    · simp [hclose]
    · simp [hclose]

end

/-! ## Expressions -/

/-- The kinds of tokens that continue an expression. -/
def continuing : List TokenKind :=
  levels.flatten ++ [.leftParen]

section

variable {R Q : Spelling Expr} {behind : List Token → Prop}

/-- Behind an operand stands an operator of its level, or what stands behind the whole. -/
theorem Joined.meets {ops : List TokenKind} {left whole : Expr} {tokens rest : List Token}
    (h : Joined S ops R left whole tokens rest) : tokens = rest ∨ Meets ops tokens := by
  cases h with
  | done _ => exact .inl rfl
  | more hop _ _ => exact .inr hop

theorem Joined.becomes {ops : List TokenKind} (h : Spelling.Becomes behind R Q)
    (hops : ∀ {tokens : List Token}, Meets ops tokens → behind tokens) {left whole : Expr}
    {tokens rest : List Token} (hjoined : Joined S ops R left whole tokens rest)
    (hbehind : behind rest) (hrest : Avoids ops rest) :
    Joined .greedy ops Q left whole tokens rest := by
  induction hjoined with
  | done _ => exact .done hrest
  | more hop hright hjoined ih =>
    refine .more hop (h hright ?_) (ih hbehind hrest)
    rcases hjoined.meets with rfl | hmeets
    · exact hbehind
    · exact hops hmeets

theorem LeftAssoc.becomes {ops : List TokenKind} (h : Spelling.Becomes behind R Q)
    (hops : ∀ {tokens : List Token}, Meets ops tokens → behind tokens) :
    Spelling.Becomes (fun rest => behind rest ∧ Avoids ops rest) (LeftAssoc S ops R)
      (LeftAssoc .greedy ops Q) := by
  rintro e tokens rest ⟨hfirst, hjoined⟩ ⟨hbehind, hrest⟩
  refine .intro (h hfirst ?_) (hjoined.becomes h hops hbehind hrest)
  rcases hjoined.meets with rfl | hmeets
  · exact hbehind
  · exact hops hmeets

/-- An operator of one level continues no operand of a tighter level. -/
theorem foldr_becomes {others : List (List TokenKind)}
    (hnodup : (others.flatten ++ [TokenKind.leftParen]).Nodup)
    (h : Spelling.Becomes (Avoids [.leftParen]) R Q) :
    Spelling.Becomes (Avoids (others.flatten ++ [.leftParen]))
      (others.foldr (LeftAssoc S) R) (others.foldr (LeftAssoc .greedy) Q) := by
  induction others with
  | nil => exact h
  | cons ops others ih =>
    rw [List.flatten_cons, List.append_assoc] at hnodup ⊢
    obtain ⟨-, hnodup', hdisjoint⟩ := List.nodup_append.1 hnodup
    have hops : ∀ {tokens : List Token}, Meets ops tokens →
        Avoids (others.flatten ++ [.leftParen]) tokens :=
      fun hmeets => hmeets.avoids fun kind hkind hmem => hdisjoint kind hkind kind hmem rfl
    intro e tokens rest he hrest
    obtain ⟨hhere, hothers⟩ := avoids_append.1 hrest
    exact LeftAssoc.becomes (ih hnodup') hops he ⟨hothers, hhere⟩

theorem Operation.becomes (h : Spelling.Becomes (Avoids [.leftParen]) R Q) :
    Spelling.Becomes (Avoids continuing) (Operation S R) (Operation .greedy Q) :=
  foldr_becomes (by decide) h

theorem OperandOf.becomes {nested nested' inner inner' : Spelling Expr}
    (h : Spelling.Becomes (Avoids [.leftParen]) nested nested')
    (h' : Spelling.Becomes (Avoids continuing) inner inner')
    (hbegins : inner.Begins expressionStarts) :
    Spelling.Becomes (Avoids [.leftParen]) (OperandOf S nested inner)
      (OperandOf .greedy nested' inner') := by
  intro e tokens rest hoperand hrest
  cases hoperand with
  | prefixed hkind ha => exact .prefixed hkind (h ha hrest)
  | falseWord hkind => exact .falseWord hkind
  | trueWord hkind => exact .trueWord hkind
  | value hkind => exact .value hkind
  | identifier hkind _ => exact .identifier hkind hrest
  | call hkind hopen hargs =>
    have hargs' := Enclosed.becomes h' hbegins (by decide)
      (fun hmeets => hmeets.avoids (by decide)) hargs trivial
    exact .call hkind hopen hargs'
  | group hopen ha hclose =>
    refine .group hopen (h' ha ?_) hclose
    rw [avoids_cons, hclose]
    decide

theorem Operand.becomes (room : Nat) :
    Spelling.Becomes (Avoids [.leftParen]) (Operand S room) (Operand .greedy room) := by
  induction room with
  | zero => exact OperandOf.becomes (fun _ _ _ h _ => h) (fun _ _ _ h _ => h) False.elim
  | succ room ih =>
    exact OperandOf.becomes ih (Operation.becomes ih) (Operation.begins S (Operand.begins S room))

theorem Expression.becomes (room : Nat) :
    Spelling.Becomes (Avoids continuing) (Expression S room) (Expression .greedy room) := by
  cases room with
  | zero => exact fun _ _ _ h _ => h
  | succ room => exact Operation.becomes (Operand.becomes room)

end

/-! ## Names in front of an expression -/

/-- Behind a name that an expression starts with, the expression ends or is continued. -/
def Spelling.Continues (kinds : List TokenKind) (R : Spelling Expr) : Prop :=
  ∀ ⦃e : Expr⦄ ⦃t : Token⦄ ⦃tokens rest : List Token⦄, R e (t :: tokens) rest →
    t.kind = .identifier → tokens = rest ∨ Meets kinds tokens

theorem OperandOf.continues {nested inner : Spelling Expr} :
    Spelling.Continues [.leftParen] (OperandOf S nested inner) := by
  intro e t tokens rest h hname
  cases h with
  | identifier _ _ => exact .inl rfl
  | call _ hopen _ => exact .inr (by simpa using hopen)
  | prefixed hkind _ => rcases hkind with hkind | hkind <;> cases hname.symm.trans hkind
  | value hkind => rcases hkind with hkind | hkind <;> cases hname.symm.trans hkind
  | falseWord hkind => cases hname.symm.trans hkind
  | trueWord hkind => cases hname.symm.trans hkind
  | group hkind _ _ => cases hname.symm.trans hkind

theorem foldr_continues {R : Spelling Expr} {kinds : List TokenKind} (h : R.Continues kinds)
    (others : List (List TokenKind)) :
    Spelling.Continues (others.flatten ++ kinds) (others.foldr (LeftAssoc S) R) := by
  induction others with
  | nil => exact h
  | cons ops others ih =>
    rw [List.flatten_cons, List.append_assoc]
    rintro e t tokens rest ⟨hfirst, hjoined⟩ hname
    rcases ih hfirst hname with rfl | hmeets
    · exact hjoined.meets.imp_right fun hmeets =>
        hmeets.mono fun kind hkind => List.mem_append_left _ hkind
    · exact .inr (hmeets.mono fun kind hkind => List.mem_append_right _ hkind)

theorem Expression.continues (room : Nat) : (Expression S room).Continues continuing := by
  cases room with
  | zero => exact fun _ _ _ _ h _ => h.elim
  | succ room =>
    refine foldr_continues ?_ levels
    cases room with
    | zero => exact OperandOf.continues
    | succ room => exact OperandOf.continues

/-! ## Statements -/

/-- All tokens are on one line. -/
def OnLine (line : Nat) (tokens : List Token) : Prop :=
  ∀ t ∈ tokens, t.pos.line = line

variable {line : Nat}

theorem OnLine.leave {tokens rest : List Token} (h : OnLine line tokens) (hrest : rest <:+ tokens) :
    OnLine line rest :=
  fun t ht => h t (hrest.subset ht)

theorem OnLine.tail {t : Token} {tokens : List Token} (h : OnLine line (t :: tokens)) :
    OnLine line tokens :=
  h.leave (List.suffix_cons t tokens)

/-- A spelling on one line, with this behind it, is a spelling of another kind. -/
def Spelling.BecomesOn {α : Type} (line : Nat) (behind : List Token → Prop) (R Q : Spelling α) :
    Prop :=
  ∀ ⦃a : α⦄ ⦃tokens rest : List Token⦄, R a tokens rest → OnLine line tokens → behind rest →
    Q a tokens rest

/-- A value on the line of its `return` is seen. -/
theorem returnsValue_of_onLine {word : Token} {tokens : List Token}
    (hmeets : Meets expressionStarts tokens) (hline : OnLine line (word :: tokens)) :
    returnsValue word tokens = true := by
  cases tokens with
  | nil => exact hmeets.elim
  | cons t tokens =>
    have hstarts : ∀ kind ∈ expressionStarts,
        kind ≠ .rightBrace ∧ kind ≠ .semicolon ∧ kind.startsStatement = false := by decide
    obtain ⟨hbrace, hsep, hword⟩ := hstarts t.kind hmeets
    have ht : t.pos.line = word.pos.line := by
      rw [hline t (by simp), hline word (by simp)]
    simp [returnsValue, hbrace, hsep, hword, ht]

section

variable {E E' : Spelling Expr} {B B' : Spelling (List Stmt)}
  (hE : Spelling.Becomes (Avoids continuing) E E') (hEbegins : E.Begins expressionStarts)
  (hEleaves : E.Leaves) (hB : Spelling.BecomesOn line (fun _ => True) B B')
  (hBbegins : B.Begins [.leftBrace]) (hBleaves : B.Leaves)
include hE hEleaves hB hBbegins hBleaves

theorem ChainOf.becomesOn : Spelling.BecomesOn line (Meets [.semicolon]) (ChainOf S E B)
    (ChainOf .greedy E' B') := by
  intro chain tokens rest h hline hrest
  induction h with
  | done _ => exact .done (hrest.avoids (by decide))
  | otherwise hword _ hbody =>
    exact .otherwise hword ((hBbegins hbody).avoids (by decide)) (hB hbody hline.tail trivial)
  | elseIf hword hword' hcond hbody _ ih =>
    have hlater : OnLine line _ := hline.tail.tail.leave (hEleaves hcond)
    exact .elseIf hword hword' (hE hcond ((hBbegins hbody).avoids (by decide)))
      (hB hbody hlater trivial) (ih (hlater.leave (hBleaves hbody)) hrest)

include hEbegins

theorem StatementOf.becomesOn (hEcontinues : E.Continues continuing) :
    Spelling.BecomesOn line (Meets [.semicolon]) (StatementOf S E B)
      (StatementOf .greedy E' B') := by
  intro s tokens rest h hline hrest
  have hstops : Avoids continuing rest := hrest.avoids (by decide)
  cases h with
  | binding hword hname hsign hvalue => exact .binding hword hname hsign (hE hvalue hstops)
  | loop hword hbody => exact .loop hword (hB hbody hline.tail trivial)
  | conditional hword hcond hbody hchain =>
    have hlater : OnLine line _ := hline.tail.leave (hEleaves hcond)
    exact .conditional hword (hE hcond ((hBbegins hbody).avoids (by decide)))
      (hB hbody hlater trivial)
      (ChainOf.becomesOn hE hEleaves hB hBbegins hBleaves hchain
        (hlater.leave (hBleaves hbody)) hrest)
  | bare hword _ =>
    refine .bare hword ?_
    cases rest with
    | nil => exact hrest.elim
    | cons t rest =>
      have hkind : t.kind = .semicolon := by simpa using hrest
      simp [Style.greedy, returnsValue, hkind]
  | valued hword _ hvalue =>
    exact .valued hword (returnsValue_of_onLine (hEbegins hvalue) hline) (hE hvalue hstops)
  | leave hword => exact .leave hword
  | assignment hname hsign hvalue => exact .assignment hname hsign (hE hvalue hstops)
  | plain _ _ he =>
    refine .plain ((hEbegins he).avoids (by decide)) (fun hname => ?_) (hE he hstops)
    rcases hEcontinues he hname with rfl | hmeets
    · exact hrest.avoids (by decide)
    · exact hmeets.avoids (by decide)

end

theorem Braced.becomesOn {R Q : Spelling (List Stmt)}
    (h : R.BecomesOn line (fun _ => True) Q) :
    Spelling.BecomesOn line (fun _ => True) (Braced R) (Braced Q) := by
  rintro body tokens rest ⟨hopen, hbody⟩ hline _
  exact .intro hopen (h hbody hline.tail trivial)

section

variable (hS : ∀ {tokens : List Token}, S.behind tokens → Meets [.semicolon] tokens)
include hS

theorem Statements.becomesOn {R Q : Spelling Stmt} (h : R.BecomesOn line (Meets [.semicolon]) Q)
    (hbegins : R.Begins statementStarts) (hleaves : R.Leaves) :
    Spelling.BecomesOn line (fun _ => True) (Statements S R) (Statements .greedy Q) := by
  intro ss tokens rest hstatements hline _
  induction hstatements with
  | close hclose => exact .close hclose
  | skip hsep _ ih => exact .skip hsep (ih hline.tail)
  | more _ hs hbehind _ ih =>
    exact .more ((hbegins hs).avoids (by decide)) (h hs hline (hS hbehind)) trivial
      (ih (hline.leave (hleaves hs)))

theorem Statement.becomesOn (room : Nat) :
    Spelling.BecomesOn line (Meets [.semicolon]) (Statement S room) (Statement .greedy room) := by
  induction room with
  | zero =>
    exact StatementOf.becomesOn (Expression.becomes 0) (Expression.begins S 0)
      (Expression.leaves S 0) (Braced.becomesOn fun _ _ _ h _ _ => h) Braced.begins
      (Braced.leaves False.elim) (Expression.continues 0)
  | succ room ih =>
    have hinside := Statements.becomesOn hS ih (Statement.begins S room) (Statement.leaves S room)
    exact StatementOf.becomesOn (Expression.becomes (room + 1)) (Expression.begins S (room + 1))
      (Expression.leaves S (room + 1)) (Braced.becomesOn hinside) Braced.begins
      (Braced.leaves (Statements.leaves S (Statement.leaves S room)))
      (Expression.continues (room + 1))

theorem Block.becomesOn (room : Nat) :
    Spelling.BecomesOn line (fun _ => True) (Block S room) (Block .greedy room) := by
  cases room with
  | zero => exact Braced.becomesOn fun _ _ _ h _ _ => h
  | succ room =>
    exact Braced.becomesOn (Statements.becomesOn hS (Statement.becomesOn hS room)
      (Statement.begins S room) (Statement.leaves S room))

theorem Declaration.becomesOn {room : Nat} {pos : Pos} :
    Spelling.BecomesOn line (fun _ => True) (Declaration S room pos)
      (Declaration .greedy room pos) := by
  rintro f tokens rest ⟨hname, hopen, hparams, hbody⟩ hline _
  have hlater : OnLine line _ :=
    hline.tail.tail.leave (Enclosed.leaves S (ofKind_leaves .identifier) hparams)
  have hparams' := Enclosed.becomes (fun _ _ _ h (_ : True) => h) (ofKind_begins .identifier)
    (by decide) (fun _ => trivial) hparams trivial
  exact .intro hname hopen hparams' (Block.becomesOn hS room hbody hlater trivial)

/-- **A terminated spelling of a program on one line is a greedy one.** -/
theorem Items.becomesOn {room : Nat} {items : List Stmt} {tokens : List Token}
    (h : Items S room items tokens) (hline : OnLine line tokens) :
    Items .greedy room items tokens := by
  induction h with
  | done => exact .done
  | skip hsep _ ih => exact .skip hsep (ih hline.tail)
  | statement _ hs hbehind _ ih =>
    exact .statement ((Statement.begins S room hs).avoids (by decide))
      (Statement.becomesOn hS room hs hline (hS hbehind)) trivial
      (ih (hline.leave (Statement.leaves S room hs)))
  | function hword hf _ _ ih =>
    exact .function hword (Declaration.becomesOn hS hf hline.tail trivial) trivial
      (ih (hline.tail.leave (Declaration.leaves S hf)))

end

end Grammar

/-! ## Programs without their positions -/

mutual

/-- An expression with its positions wiped out. -/
def Expr.unplaced : Expr → Expr
  | .literal _ value => .literal .start value
  | .identifier _ name => .identifier .start name
  | .unary _ op operand => .unary .start op operand.unplaced
  | .binary _ left op right => .binary .start left.unplaced op right.unplaced
  | .call _ name args => .call .start name (Expr.unplacedList args)
  | .misplaced kind => .misplaced kind

/-- Expressions with their positions wiped out. -/
def Expr.unplacedList : List Expr → List Expr
  | [] => []
  | e :: es => e.unplaced :: Expr.unplacedList es

end

mutual

/-- A statement with its positions wiped out. -/
def Stmt.unplaced : Stmt → Stmt
  | .exprStmt _ e => .exprStmt .start e.unplaced
  | .letDecl _ name value => .letDecl .start name value.unplaced
  | .assign _ name value => .assign .start name value.unplaced
  | .returning _ value => .returning .start (value.map Expr.unplaced)
  | .breaking _ => .breaking .start
  | .conditional _ cond body rest =>
    .conditional .start cond.unplaced (Stmt.unplacedList body) rest.unplaced
  | .loop _ body => .loop .start (Stmt.unplacedList body)
  | .fnDecl _ name params body => .fnDecl .start name params (Stmt.unplacedList body)
  | .misplaced kind => .misplaced kind

/-- Statements with their positions wiped out. -/
def Stmt.unplacedList : List Stmt → List Stmt
  | [] => []
  | s :: ss => s.unplaced :: Stmt.unplacedList ss

/-- A chain with its positions wiped out. -/
def Chain.unplaced : Chain → Chain
  | .done => .done
  | .otherwise body => .otherwise (Stmt.unplacedList body)
  | .elseIf cond body rest => .elseIf cond.unplaced (Stmt.unplacedList body) rest.unplaced

end

/-- A program with its positions wiped out. -/
def Program.unplaced (p : Program) : Program :=
  ⟨Stmt.unplacedList p.items⟩

open Grammar

/-- Tokens on one line that spell a program, whatever its positions, with a semicolon behind every
statement and every function and with no more than `maxNesting` blocks, expressions and prefixed
operators open at a time. -/
structure Program.RenderedBy (p : Program) (tokens : List Token) : Prop where
  line : ∃ line, OnLine line tokens
  spelled : ∃ q : Program, q.unplaced = p.unplaced ∧ Items .terminated maxNesting q.items tokens

/-- **A program is read back from its tokens**, up to its positions. -/
theorem ofTokens_of_renderedBy {p : Program} {tokens : List Token}
    (h : p.RenderedBy (tokens.takeWhile (·.kind != .eof))) :
    ∃ q, Program.ofTokens tokens = .ok q ∧ q.unplaced = p.unplaced := by
  obtain ⟨⟨line, hline⟩, q, hq, hitems⟩ := h
  have hprogram := program_iff.2 (Items.becomesOn id hitems hline)
  refine ⟨q, ?_, hq⟩
  rw [Program.ofTokens, Reader.parse, Reader.ahead_ofTokens, (Reader.ofTokens_final tokens).2.2,
    Nat.sub_zero, hprogram]

/-! ## An example -/

/-- The tokens of `r = a - b - (-c);`. -/
def subtraction : List Token :=
  [⟨.identifier, "r", ⟨1, 1⟩, none⟩, ⟨.equal, "=", ⟨1, 3⟩, none⟩, ⟨.identifier, "a", ⟨1, 5⟩, none⟩,
    ⟨.minus, "-", ⟨1, 7⟩, none⟩, ⟨.identifier, "b", ⟨1, 9⟩, none⟩, ⟨.minus, "-", ⟨1, 11⟩, none⟩,
    ⟨.leftParen, "(", ⟨1, 13⟩, none⟩, ⟨.minus, "-", ⟨1, 14⟩, none⟩,
    ⟨.identifier, "c", ⟨1, 15⟩, none⟩, ⟨.rightParen, ")", ⟨1, 16⟩, none⟩,
    ⟨.semicolon, ";", ⟨1, 17⟩, none⟩]

/-- The program of these tokens, with its positions. -/
def subtractionPlaced : Program :=
  ⟨[.assign ⟨1, 1⟩ "r"
    (.binary ⟨1, 11⟩ (.binary ⟨1, 7⟩ (.identifier ⟨1, 5⟩ "a") "-" (.identifier ⟨1, 9⟩ "b")) "-"
      (.unary ⟨1, 14⟩ "-" (.identifier ⟨1, 15⟩ "c")))]⟩

theorem items_subtraction : Items .terminated maxNesting subtractionPlaced.items subtraction := by
  have hname : ∀ (room col : Nat) (name : String) (rest : List Token),
      Operand .terminated room (.identifier ⟨1, col⟩ name)
        (⟨.identifier, name, ⟨1, col⟩, none⟩ :: rest) rest := by
    intro room col name rest
    cases room with
    | zero => exact OperandOf.identifier (S := .terminated) (t := ⟨_, _, _, _⟩) rfl trivial
    | succ room => exact OperandOf.identifier (S := .terminated) (t := ⟨_, _, _, _⟩) rfl trivial
  have hnegated : Operand .terminated 46 (.unary ⟨1, 14⟩ "-" (.identifier ⟨1, 15⟩ "c"))
      (subtraction.drop 7) (subtraction.drop 9) :=
    OperandOf.prefixed (t := ⟨.minus, "-", ⟨1, 14⟩, none⟩) (.inr rfl) (hname 45 15 "c" _)
  have hgroup : Operand .terminated 47 (.unary ⟨1, 14⟩ "-" (.identifier ⟨1, 15⟩ "c"))
      (subtraction.drop 6) (subtraction.drop 10) :=
    OperandOf.group rfl ((operation_iff trivial).2 (.operand hnegated)) rfl
  have hleft : Ranked (Operand .terminated 47) 4 _ (subtraction.drop 2) (subtraction.drop 5) :=
    .binary (Nat.le_refl 4) rfl (by decide) (.operand (hname 47 5 "a" _))
      (.operand (hname 47 9 "b" _))
  have hvalue : Expression .terminated maxNesting _ (subtraction.drop 2) (subtraction.drop 10) :=
    (operation_iff trivial).2 (.binary (Nat.zero_le 4) rfl (by decide) hleft (.operand hgroup))
  have hassign : StatementOf .terminated (Expression .terminated maxNesting)
      (Braced (Statements .terminated (Statement .terminated 47))) _ subtraction
      (subtraction.drop 10) :=
    .assignment rfl rfl hvalue
  have hend : Items .terminated maxNesting [] (subtraction.drop 10) := .skip rfl .done
  exact .statement trivial hassign (List.mem_singleton_self _) hend

theorem ofTokens_of_renderedBy_subtraction :
    subtractionPlaced.unplaced.RenderedBy (subtraction.takeWhile (·.kind != .eof)) ∧
      ∃ q, Program.ofTokens subtraction = .ok q ∧
        q.unplaced = subtractionPlaced.unplaced.unplaced := by
  have hrendered : subtractionPlaced.unplaced.RenderedBy
      (subtraction.takeWhile (·.kind != .eof)) :=
    ⟨⟨1, by unfold OnLine; decide⟩, subtractionPlaced, rfl, items_subtraction⟩
  exact ⟨hrendered, ofTokens_of_renderedBy hrendered⟩

end Octet
