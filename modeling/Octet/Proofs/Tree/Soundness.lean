import Octet.Proofs.Tree.Greedy
import Octet.Proofs.Tree.Reader

/-!
# A program that is read is spelled by its tokens

If a list of tokens is read as a program, then the tokens up to the first end token are a spelling of
this program in the grammar of the language: none of them is left out, used twice or moved
(`items_of_ofTokens`).

The rules find greedy spellings, and a greedy spelling is a free one, as less has to be known of the
tokens around it.  More generally a spelling in one style is one in any other style that asks for
less (`Style.Within`).
-/

namespace Octet
namespace Grammar

/-- The second style asks for nothing that the first does not ask for. -/
structure Style.Within (S T : Style) : Prop where
  avoids : ∀ {kinds : List TokenKind} {tokens : List Token}, S.avoids kinds tokens →
    T.avoids kinds tokens
  behind : ∀ {tokens : List Token}, S.behind tokens → T.behind tokens
  bare : ∀ {word : Token} {tokens : List Token}, S.bare word tokens → T.bare word tokens
  valued : ∀ {word : Token} {tokens : List Token}, S.valued word tokens → T.valued word tokens

/-- What is spelled in one way is spelled in another. -/
def Spelling.Within {α : Type} (R Q : Spelling α) : Prop :=
  ∀ {a : α} {tokens rest : List Token}, R a tokens rest → Q a tokens rest

section

variable {S T : Style} (hST : S.Within T)
include hST

section

variable {α : Type} {R Q : Spelling α} (hRQ : Spelling.Within R Q)
include hRQ

theorem Separated.within : Spelling.Within (Separated S R) (Separated T Q) := by
  intro as tokens rest h
  induction h with
  | one ha hrest => exact .one (hRQ ha) (hST.avoids hrest)
  | more ha hcomma _ ih => exact .more (hRQ ha) hcomma ih

theorem Enclosed.within : Spelling.Within (Enclosed S R) (Enclosed T Q) := by
  intro as tokens rest h
  cases h with
  | none hclose => exact .none hclose
  | some hfront hitems hclose =>
    exact .some (hST.avoids hfront) (Separated.within hST hRQ hitems) hclose

end

/-! ## Expressions -/

section

variable {R Q R' Q' : Spelling Expr}

theorem Joined.within (hRQ : Spelling.Within R Q) {ops : List TokenKind} {left whole : Expr}
    {tokens rest : List Token} (h : Joined S ops R left whole tokens rest) :
    Joined T ops Q left whole tokens rest := by
  induction h with
  | done hrest => exact .done (hST.avoids hrest)
  | more hop hright _ ih => exact .more hop (hRQ hright) ih

theorem LeftAssoc.within (hRQ : Spelling.Within R Q) {ops : List TokenKind} :
    Spelling.Within (LeftAssoc S ops R) (LeftAssoc T ops Q) := by
  intro e tokens rest h
  obtain ⟨hfirst, hjoined⟩ := h
  exact .intro (hRQ hfirst) (hjoined.within hST hRQ)

theorem Operation.within (hRQ : Spelling.Within R Q) :
    Spelling.Within (Operation S R) (Operation T Q) := by
  rw [Operation, Operation]
  induction levels with
  | nil => exact hRQ
  | cons ops others ih => exact LeftAssoc.within hST ih

theorem OperandOf.within (hRQ : Spelling.Within R Q) (hRQ' : Spelling.Within R' Q') :
    Spelling.Within (OperandOf S R R') (OperandOf T Q Q') := by
  intro e tokens rest h
  cases h with
  | prefixed hkind ha => exact .prefixed hkind (hRQ ha)
  | falseWord hkind => exact .falseWord hkind
  | trueWord hkind => exact .trueWord hkind
  | value hkind => exact .value hkind
  | identifier hkind hrest => exact .identifier hkind (hST.avoids hrest)
  | call hkind hopen hargs => exact .call hkind hopen (Enclosed.within hST hRQ' hargs)
  | group hopen ha hclose => exact .group hopen (hRQ' ha) hclose

end

theorem Operand.within (room : Nat) : Spelling.Within (Operand S room) (Operand T room) := by
  induction room with
  | zero => exact OperandOf.within hST id id
  | succ room ih => exact OperandOf.within hST ih (Operation.within hST ih)

theorem Expression.within (room : Nat) :
    Spelling.Within (Expression S room) (Expression T room) := by
  cases room with
  | zero => exact id
  | succ room => exact Operation.within hST (Operand.within hST room)

/-! ## Statements -/

section

variable {E E' : Spelling Expr} {B B' : Spelling (List Stmt)}

omit hST in
theorem Braced.within (hB : Spelling.Within B B') :
    Spelling.Within (Braced B) (Braced B') := by
  intro body tokens rest h
  obtain ⟨hopen, hbody⟩ := h
  exact .intro hopen (hB hbody)

theorem Statements.within {R Q : Spelling Stmt} (hRQ : Spelling.Within R Q) :
    Spelling.Within (Statements S R) (Statements T Q) := by
  intro ss tokens rest h
  induction h with
  | close hclose => exact .close hclose
  | skip hsep _ ih => exact .skip hsep ih
  | more hfront hs hbehind _ ih =>
    exact .more (hST.avoids hfront) (hRQ hs) (hST.behind hbehind) ih

theorem ChainOf.within (hE : Spelling.Within E E') (hB : Spelling.Within B B') :
    Spelling.Within (ChainOf S E B) (ChainOf T E' B') := by
  intro chain tokens rest h
  induction h with
  | done hrest => exact .done (hST.avoids hrest)
  | otherwise hword hfront hbody => exact .otherwise hword (hST.avoids hfront) (hB hbody)
  | elseIf hword hword' hcond hbody _ ih => exact .elseIf hword hword' (hE hcond) (hB hbody) ih

theorem StatementOf.within (hE : Spelling.Within E E') (hB : Spelling.Within B B') :
    Spelling.Within (StatementOf S E B) (StatementOf T E' B') := by
  intro s tokens rest h
  cases h with
  | binding hword hname hsign hvalue => exact .binding hword hname hsign (hE hvalue)
  | loop hword hbody => exact .loop hword (hB hbody)
  | conditional hword hcond hbody hchain =>
    exact .conditional hword (hE hcond) (hB hbody) (ChainOf.within hST hE hB hchain)
  | bare hword hrest => exact .bare hword (hST.bare hrest)
  | valued hword hrest hvalue => exact .valued hword (hST.valued hrest) (hE hvalue)
  | leave hword => exact .leave hword
  | assignment hname hsign hvalue => exact .assignment hname hsign (hE hvalue)
  | plain hfront hsign he =>
    exact .plain (hST.avoids hfront) (fun hkind => hST.avoids (hsign hkind)) (hE he)

end

theorem Statement.within (room : Nat) :
    Spelling.Within (Statement S room) (Statement T room) := by
  induction room with
  | zero => exact StatementOf.within hST (Expression.within hST 0) (Braced.within id)
  | succ room ih =>
    exact StatementOf.within hST (Expression.within hST (room + 1))
      (Braced.within (Statements.within hST ih))

theorem Block.within (room : Nat) : Spelling.Within (Block S room) (Block T room) := by
  cases room with
  | zero => exact Braced.within id
  | succ room => exact Braced.within (Statements.within hST (Statement.within hST room))

/-! ## Programs -/

theorem Declaration.within {room : Nat} {pos : Pos} :
    Spelling.Within (Declaration S room pos) (Declaration T room pos) := by
  intro f tokens rest h
  obtain ⟨hname, hopen, hparams, hbody⟩ := h
  exact .intro hname hopen (Enclosed.within hST id hparams) (Block.within hST room hbody)

theorem Items.within {room : Nat} {items : List Stmt} {tokens : List Token}
    (h : Items S room items tokens) : Items T room items tokens := by
  induction h with
  | done => exact .done
  | skip hsep _ ih => exact .skip hsep ih
  | statement hfront hs hbehind _ ih =>
    exact .statement (hST.avoids hfront) (Statement.within hST room hs) (hST.behind hbehind) ih
  | function hword hf hbehind _ ih =>
    exact .function hword (Declaration.within hST hf) (hST.behind hbehind) ih

end

/-! ## Greedy spellings are free -/

/-- What `returnsValue` decides. -/
theorem returnsValue_eq_false_iff {word : Token} {tokens : List Token} :
    returnsValue word tokens = false ↔ EndsReturn word tokens := by
  cases tokens with
  | nil => simp [returnsValue, EndsReturn]
  | cons t tokens =>
    simp only [returnsValue, EndsReturn, Bool.and_eq_false_iff, bne_eq_false_iff_eq,
      Bool.not_eq_false', beq_eq_false_iff_ne, or_assoc]

theorem Style.greedy_within_free : Style.greedy.Within Style.free where
  avoids _ := trivial
  behind _ := trivial
  bare h := returnsValue_eq_false_iff.1 h
  valued h hends := by
    have hfalse := returnsValue_eq_false_iff.2 hends
    rw [show returnsValue _ _ = true from h] at hfalse
    cases hfalse

end Grammar

open Grammar

/-- **A program that is read is spelled by the tokens up to the first end token.**  They are a
spelling in the grammar of the language, with the positions that the program has, and nothing in it
is nested too deeply. -/
theorem items_of_ofTokens {tokens : List Token} {p : Program}
    (h : Program.ofTokens tokens = .ok p) :
    Items .free maxNesting p.items (tokens.takeWhile (·.kind != .eof)) := by
  rw [Program.ofTokens, Reader.parse, Reader.ahead_ofTokens, (Reader.ofTokens_final tokens).2.2] at h
  split at h
  · rename_i items hprogram
    cases h
    exact Items.within Style.greedy_within_free (program_iff.1 hprogram)
  · cases h

/-- The tokens of `return`, `-1` and `f()`; the last two stand on a line of their own, with nothing
between them. -/
def juxtaposed : List Token :=
  [⟨.returnWord, "return", ⟨1, 1⟩, none⟩, ⟨.minus, "-", ⟨2, 1⟩, none⟩,
    ⟨.number, "1", ⟨2, 2⟩, some (.int 1)⟩, ⟨.identifier, "f", ⟨2, 4⟩, none⟩,
    ⟨.leftParen, "(", ⟨2, 5⟩, none⟩, ⟨.rightParen, ")", ⟨2, 6⟩, none⟩, .eof ⟨2, 7⟩]

theorem items_of_ofTokens_juxtaposed :
    ∃ p, Program.ofTokens juxtaposed = .ok p ∧ p.items.length = 3 ∧
      Items .free maxNesting p.items (juxtaposed.takeWhile (·.kind != .eof)) := by
  have hlength : (Program.ofTokens juxtaposed).toOption.map (·.items.length) = some 3 := by
    decide +kernel
  cases h : Program.ofTokens juxtaposed with
  | error e =>
    rw [h] at hlength
    cases hlength
  | ok p =>
    rw [h] at hlength
    exact ⟨p, rfl, Option.some.inj hlength, items_of_ofTokens h⟩

end Octet
