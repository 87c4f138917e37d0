import Octet.Proofs.Tree.Completeness
import Octet.Proofs.Tree.Stuck

/-!
# How far rules look ahead

What a rule reads is settled by the tokens that it takes and by the first token behind them, and a
rule that gets stuck in front of some token has not looked behind that token.

* The tail of a greedy spelling may be replaced by one with the same first token, or by one that
  could not continue the spelling (`Spelling.Local`).  What continues an expression are the kinds
  `continuing`; what continues a statement, or makes of a `return` without a value one that has a
  value, is in front of no `Harmless` tail.
* Where reading gets stuck, the tokens behind the first one that is left may be replaced
  (`Stuck.Local`).  The rules look at a second token in one place only, to tell an assignment from
  an expression that starts with a name.  If they get stuck in such an expression then behind the
  name, at a token that continues it (`Stuck.Continues`), and so not at an equals sign.
  This is not so if it was room that was missing.
-/

namespace Octet
namespace Grammar

/-! ## Tails -/

/-- Tokens with the same first one. -/
inductive SameHead : List Token → List Token → Prop
  | intro (t : Token) (tokens tokens' : List Token) : SameHead (t :: tokens) (t :: tokens')

/-- Tokens that may replace others: the first token is the same, or they may stand there anyway. -/
def Alike (behind : List Token → Prop) (rest rest' : List Token) : Prop :=
  SameHead rest rest' ∨ behind rest'

section

variable {behind behind' : List Token → Prop} {kinds : List TokenKind}
  {rest rest' tokens : List Token}

theorem SameHead.append (h : SameHead rest rest') (front : List Token) :
    SameHead (front ++ rest) (front ++ rest') := by
  cases front with
  | nil => exact h
  | cons t front => exact .intro ..

theorem alike_cons {t : Token} : Alike behind (t :: rest) (t :: rest') :=
  .inl (.intro ..)

/-- Behind the same tokens. -/
theorem Alike.append (h : Alike behind rest rest') (front : List Token) :
    Alike behind (front ++ rest) (front ++ rest') := by
  cases front with
  | nil => exact h
  | cons t front => exact alike_cons

theorem Alike.mono (h : Alike behind rest rest')
    (hmono : ∀ {tokens : List Token}, behind tokens → behind' tokens) : Alike behind' rest rest' :=
  h.imp_right hmono

theorem SameHead.avoids (h : SameHead rest rest') (hrest : Avoids kinds rest) :
    Avoids kinds rest' := by
  cases h
  exact hrest

theorem Alike.avoids (h : Alike behind rest rest')
    (hbehind : ∀ {tokens : List Token}, behind tokens → Avoids kinds tokens)
    (hrest : Avoids kinds rest) : Avoids kinds rest' :=
  h.elim (fun hsame => hsame.avoids hrest) hbehind

end

/-- The front of what is spelled, with any tail of this sort, spells the same; and there is a
front. -/
def Spelling.Local {α : Type} (behind : List Token → Prop) (R : Spelling α) : Prop :=
  ∀ ⦃a : α⦄ ⦃tokens rest : List Token⦄, R a tokens rest →
    ∃ t front, tokens = t :: (front ++ rest) ∧
      ∀ rest', Alike behind rest rest' → R a (t :: (front ++ rest')) rest'

/-- The front of what is spelled, which may be empty, with any tail of this sort spells the same. -/
def Spelling.LocalTail {α : Type} (behind : List Token → Prop) (R : Spelling α) : Prop :=
  ∀ ⦃a : α⦄ ⦃tokens rest : List Token⦄, R a tokens rest →
    ∃ front, tokens = front ++ rest ∧
      ∀ rest', Alike behind rest rest' → R a (front ++ rest') rest'

theorem Spelling.Local.mono {α : Type} {behind behind' : List Token → Prop} {R : Spelling α}
    (h : R.Local behind) (hmono : ∀ {tokens : List Token}, behind' tokens → behind tokens) :
    R.Local behind' := by
  intro a tokens rest ha
  obtain ⟨t, front, rfl, hlocal⟩ := h ha
  exact ⟨t, front, rfl, fun rest' halike => hlocal rest' (halike.mono hmono)⟩

theorem nowhere_local {α : Type} {behind : List Token → Prop} :
    (Nowhere : Spelling α).Local behind :=
  fun _ _ _ h => False.elim h

/-! ## Lists -/

section

variable {α : Type} {R : Spelling α} {behind : List Token → Prop}

theorem ofKind_local (kind : TokenKind) : (OfKind kind).Local behind := by
  rintro t tokens rest ⟨hkind⟩
  exact ⟨t, [], rfl, fun _ _ => .intro hkind⟩

theorem Separated.local (hR : R.Local behind) :
    (Separated .greedy R).Local fun rest => behind rest ∧ Avoids [.comma] rest := by
  intro as tokens rest h
  induction h with
  | one ha hrest =>
    obtain ⟨t, front, rfl, hlocal⟩ := hR ha
    refine ⟨t, front, rfl, fun rest' halike => .one (hlocal rest' (halike.mono And.left)) ?_⟩
    exact halike.avoids And.right hrest
  | @more a as comma tokens later rest ha hcomma _ ih =>
    obtain ⟨t, front, rfl, hlocal⟩ := hR ha
    obtain ⟨t', front', rfl, hlocal'⟩ := ih
    refine ⟨t, front ++ comma :: t' :: front', by simp, fun rest' halike => ?_⟩
    rw [List.append_assoc]
    exact .more (hlocal _ alike_cons) hcomma (hlocal' rest' halike)

theorem Enclosed.local (hR : R.Local behind) :
    (Enclosed .greedy R).Local fun _ => True := by
  intro as tokens rest h
  cases h with
  | @none paren _ hclose => exact ⟨paren, [], rfl, fun _ _ => .none hclose⟩
  | @some _ paren _ _ hfront has hclose =>
    obtain ⟨t, front, rfl, hlocal⟩ := Separated.local hR has
    refine ⟨t, front ++ [paren], by simp, fun rest' _ => ?_⟩
    rw [List.append_assoc]
    exact .some hfront (hlocal _ alike_cons) hclose

end

/-! ## Expressions -/

section

variable {R : Spelling Expr} {behind : List Token → Prop}

theorem Joined.local (hR : R.Local behind) (ops : List TokenKind) (left : Expr) :
    Spelling.LocalTail (fun rest => behind rest ∧ Avoids ops rest)
      (Joined .greedy ops R left) := by
  intro whole tokens rest h
  induction h with
  | done hrest => exact ⟨[], rfl, fun rest' halike => .done (halike.avoids And.right hrest)⟩
  | @more left right whole op tokens later rest hop hright _ ih =>
    obtain ⟨t, front, rfl, hlocal⟩ := hR hright
    obtain ⟨front', rfl, hlocal'⟩ := ih
    refine ⟨op :: t :: (front ++ front'), by simp, fun rest' halike => ?_⟩
    simp only [List.cons_append, List.append_assoc]
    exact .more hop (hlocal _ ((halike.mono And.left).append front')) (hlocal' rest' halike)

theorem LeftAssoc.local (hR : R.Local behind) (ops : List TokenKind) :
    (LeftAssoc .greedy ops R).Local fun rest => behind rest ∧ Avoids ops rest := by
  rintro whole tokens rest ⟨hfirst, hjoined⟩
  obtain ⟨t, front, rfl, hlocal⟩ := hR hfirst
  obtain ⟨front', rfl, hlocal'⟩ := Joined.local hR ops _ hjoined
  refine ⟨t, front ++ front', by simp, fun rest' halike => ?_⟩
  rw [List.append_assoc]
  exact .intro (hlocal _ ((halike.mono And.left).append front')) (hlocal' rest' halike)

theorem foldr_local {kinds : List TokenKind} (hR : R.Local (Avoids kinds))
    (others : List (List TokenKind)) :
    Spelling.Local (Avoids (others.flatten ++ kinds)) (others.foldr (LeftAssoc .greedy) R) := by
  induction others with
  | nil => exact hR
  | cons ops others ih =>
    refine (LeftAssoc.local ih ops).mono fun hrest => ?_
    rw [List.flatten_cons, List.append_assoc] at hrest
    exact (avoids_append.1 hrest).symm

theorem Operation.local (hR : R.Local (Avoids [.leftParen])) :
    (Operation .greedy R).Local (Avoids continuing) :=
  foldr_local hR levels

theorem OperandOf.local {nested inner : Spelling Expr}
    (hnested : nested.Local (Avoids [.leftParen])) (hinner : inner.Local behind) :
    (OperandOf .greedy nested inner).Local (Avoids [.leftParen]) := by
  intro e tokens rest h
  cases h with
  | @prefixed t e tokens _ hkind ha =>
    obtain ⟨t', front, rfl, hlocal⟩ := hnested ha
    exact ⟨t, t' :: front, rfl, fun rest' halike => .prefixed hkind (hlocal rest' halike)⟩
  | @falseWord t _ hkind => exact ⟨t, [], rfl, fun _ _ => .falseWord hkind⟩
  | @trueWord t _ hkind => exact ⟨t, [], rfl, fun _ _ => .trueWord hkind⟩
  | @value t _ hkind => exact ⟨t, [], rfl, fun _ _ => .value hkind⟩
  | @identifier t _ hkind hrest =>
    exact ⟨t, [], rfl, fun rest' halike => .identifier hkind (halike.avoids id hrest)⟩
  | @call t paren args _ _ hkind hopen hargs =>
    obtain ⟨t', front, rfl, hlocal⟩ := Enclosed.local hinner hargs
    refine ⟨t, paren :: t' :: front, rfl, fun rest' _ => ?_⟩
    exact .call hkind hopen (hlocal rest' (.inr trivial))
  | @group paren paren' _ _ _ hopen ha hclose =>
    obtain ⟨t, front, rfl, hlocal⟩ := hinner ha
    refine ⟨paren, t :: (front ++ [paren']), by simp, fun rest' _ => ?_⟩
    rw [List.cons_append, List.append_assoc]
    exact .group hopen (hlocal _ alike_cons) hclose

theorem Operand.local (room : Nat) : (Operand .greedy room).Local (Avoids [.leftParen]) := by
  induction room with
  | zero =>
    have hinner : (Nowhere : Spelling Expr).Local (Avoids continuing) := nowhere_local
    exact OperandOf.local nowhere_local hinner
  | succ room ih => exact OperandOf.local ih (Operation.local ih)

theorem Expression.local (room : Nat) : (Expression .greedy room).Local (Avoids continuing) := by
  cases room with
  | zero => exact nowhere_local
  | succ room => exact Operation.local (Operand.local room)

end

/-! ## Statements -/

/-- Tokens that continue no statement: no expression, no conditional, no name that is assigned to
and no `return`. -/
structure Harmless (tokens : List Token) : Prop where
  stops : Avoids continuing tokens
  noElse : Avoids [.elseWord] tokens
  noEqual : Avoids [.equal] tokens
  bare : ∀ word, returnsValue word tokens = false

namespace Harmless

/-- The end of the tokens, a closing brace, a semicolon and a word that starts a statement are
harmless. -/
theorem nil : Harmless [] :=
  ⟨trivial, trivial, trivial, fun _ => rfl⟩

theorem cons {t : Token}
    (h : t.kind = .rightBrace ∨ t.kind = .breakWord ∨ t.kind = .semicolon) (tokens : List Token) :
    Harmless (t :: tokens) := by
  rcases h with h | h | h
  all_goals
    refine ⟨?_, ?_, ?_, fun word => by simp [returnsValue, h, TokenKind.startsStatement]⟩
    all_goals
      rw [avoids_cons, h]
      decide

end Harmless

/-- A `return` that has no value has none in front of such a tail. -/
theorem Alike.returnsValue_eq_false {word : Token} {rest rest' : List Token}
    (h : Alike Harmless rest rest') (hbare : returnsValue word rest = false) :
    returnsValue word rest' = false := by
  rcases h with ⟨t, tokens, tokens'⟩ | hharmless
  · exact hbare
  · exact hharmless.bare word

section

variable {E : Spelling Expr} {B : Spelling (List Stmt)} (hE : E.Local (Avoids continuing))
  (hB : B.Local fun _ => True)

theorem Braced.local {R : Spelling (List Stmt)} (hR : R.Local fun _ => True) :
    (Braced R).Local fun _ => True := by
  rintro body tokens rest ⟨hopen, hbody⟩
  rename_i brace tokens
  obtain ⟨t, front, rfl, hlocal⟩ := hR hbody
  exact ⟨brace, t :: front, rfl, fun rest' halike => .intro hopen (hlocal rest' halike)⟩

theorem Statements.local {R : Spelling Stmt} (hR : R.Local Harmless) :
    (Statements .greedy R).Local fun _ => True := by
  intro ss tokens rest h
  induction h with
  | @close brace _ hclose => exact ⟨brace, [], rfl, fun _ _ => .close hclose⟩
  | @skip sep _ _ _ hsep _ ih =>
    obtain ⟨t, front, rfl, hlocal⟩ := ih
    exact ⟨sep, t :: front, rfl, fun rest' halike => .skip hsep (hlocal rest' halike)⟩
  | more hfront hs _ _ ih =>
    obtain ⟨t, front, rfl, hlocal⟩ := hR hs
    obtain ⟨t', front', rfl, hlocal'⟩ := ih
    refine ⟨t, front ++ t' :: front', by simp, fun rest' halike => ?_⟩
    rw [List.append_assoc]
    exact .more hfront (hlocal _ alike_cons) trivial (hlocal' rest' halike)

include hE hB

theorem ChainOf.local : Spelling.LocalTail Harmless (ChainOf .greedy E B) := by
  intro chain tokens rest h
  induction h with
  | done hrest => exact ⟨[], rfl, fun rest' halike => .done (halike.avoids Harmless.noElse hrest)⟩
  | @otherwise word _ _ _ hword hfront hbody =>
    obtain ⟨t, front, rfl, hlocal⟩ := hB hbody
    exact ⟨word :: t :: front, rfl,
      fun rest' _ => .otherwise hword hfront (hlocal rest' (.inr trivial))⟩
  | @elseIf word word' _ _ _ _ _ _ _ hword hword' hcond hbody _ ih =>
    obtain ⟨t, front, rfl, hlocal⟩ := hE hcond
    obtain ⟨t', front', rfl, hlocal'⟩ := hB hbody
    obtain ⟨front'', rfl, hlocal''⟩ := ih
    refine ⟨word :: word' :: t :: (front ++ t' :: (front' ++ front'')), by simp,
      fun rest' halike => ?_⟩
    simp only [List.cons_append, List.append_assoc]
    exact .elseIf hword hword' (hlocal _ alike_cons) (hlocal' _ (.inr trivial))
      (hlocal'' rest' halike)

theorem StatementOf.local : (StatementOf .greedy E B).Local Harmless := by
  intro s tokens rest h
  cases h with
  | @binding word name sign _ _ _ hword hname hsign hvalue =>
    obtain ⟨t, front, rfl, hlocal⟩ := hE hvalue
    refine ⟨word, name :: sign :: t :: front, rfl, fun rest' halike => ?_⟩
    exact .binding hword hname hsign (hlocal rest' (halike.mono Harmless.stops))
  | @loop word _ _ _ hword hbody =>
    obtain ⟨t, front, rfl, hlocal⟩ := hB hbody
    exact ⟨word, t :: front, rfl, fun rest' _ => .loop hword (hlocal rest' (.inr trivial))⟩
  | @conditional word _ _ _ _ _ _ _ hword hcond hbody hchain =>
    obtain ⟨t, front, rfl, hlocal⟩ := hE hcond
    obtain ⟨t', front', rfl, hlocal'⟩ := hB hbody
    obtain ⟨front'', rfl, hlocal''⟩ := ChainOf.local hE hB hchain
    refine ⟨word, t :: (front ++ t' :: (front' ++ front'')), by simp, fun rest' halike => ?_⟩
    simp only [List.cons_append, List.append_assoc]
    exact .conditional hword (hlocal _ alike_cons) (hlocal' _ (.inr trivial))
      (hlocal'' rest' halike)
  | @bare word _ hword hbare =>
    exact ⟨word, [], rfl, fun rest' halike => .bare hword (halike.returnsValue_eq_false hbare)⟩
  | @valued word _ _ _ hword hvalued hvalue =>
    obtain ⟨t, front, rfl, hlocal⟩ := hE hvalue
    refine ⟨word, t :: front, rfl, fun rest' halike => ?_⟩
    exact .valued hword hvalued (hlocal rest' (halike.mono Harmless.stops))
  | @leave word _ hword => exact ⟨word, [], rfl, fun _ _ => .leave hword⟩
  | @assignment name sign _ _ _ hname hsign hvalue =>
    obtain ⟨t, front, rfl, hlocal⟩ := hE hvalue
    refine ⟨name, sign :: t :: front, rfl, fun rest' halike => ?_⟩
    exact .assignment hname hsign (hlocal rest' (halike.mono Harmless.stops))
  | @plain t _ _ _ hfront hsign he =>
    obtain ⟨t', front, heq, hlocal⟩ := hE he
    obtain ⟨rfl, rfl⟩ := List.cons.inj heq
    refine ⟨t, front, rfl, fun rest' halike => .plain hfront (fun hname => ?_)
      (hlocal rest' (halike.mono Harmless.stops))⟩
    exact (halike.append front).avoids Harmless.noEqual (hsign hname)

end

theorem Statement.local (room : Nat) : (Statement .greedy room).Local Harmless := by
  induction room with
  | zero =>
    exact StatementOf.local (Expression.local 0) (Braced.local nowhere_local)
  | succ room ih =>
    exact StatementOf.local (Expression.local (room + 1)) (Braced.local (Statements.local ih))

theorem Block.local (room : Nat) : (Block .greedy room).Local fun _ => True := by
  cases room with
  | zero => exact Braced.local nowhere_local
  | succ room => exact Braced.local (Statements.local (Statement.local room))

theorem Declaration.local (room : Nat) (pos : Pos) :
    (Declaration .greedy room pos).Local fun _ => True := by
  rintro f tokens rest ⟨hname, hopen, hparams, hbody⟩
  rename_i name paren params body tokens later
  have hname' : (OfKind .identifier).Local fun _ => True := ofKind_local _
  obtain ⟨t, front, rfl, hlocal⟩ := Enclosed.local hname' hparams
  obtain ⟨t', front', rfl, hlocal'⟩ := Block.local room hbody
  refine ⟨name, paren :: t :: (front ++ t' :: front'), by simp, fun rest' halike => ?_⟩
  simp only [List.cons_append, List.append_assoc]
  exact .intro hname hopen (hlocal _ (.inr trivial)) (hlocal' rest' halike)

/-! ## Where reading gets stuck -/

namespace Stuck

/-- Reading that starts at a name gets stuck behind a token that continues the name, unless it is
room that is missing. -/
def Continues (kinds : List TokenKind) (F : Stuck Nat) : Prop :=
  ∀ ⦃fault : ParseFault⦄ ⦃n : Nat⦄ ⦃t : Token⦄ ⦃tokens rest : List Token⦄,
    F fault n (t :: tokens) rest → fault ≠ .tooDeep → t.kind = .identifier → Meets kinds tokens

theorem OperandOf.continues {inner : Spelling Expr} {F G : Stuck Nat} :
    Continues [.leftParen] (OperandOf inner F G) := by
  intro fault n t tokens rest h _ hname
  cases h with
  | prefixed hkind _ => rcases hkind with hkind | hkind <;> cases hname.symm.trans hkind
  | argument _ hopen _ => simpa using hopen
  | group hkind _ => cases hname.symm.trans hkind
  | groupClose hkind _ _ => cases hname.symm.trans hkind
  | expression hfront => exact absurd hname (kind_ne hfront (by decide))

theorem Joined.meets {ops : List TokenKind} {R : Spelling Expr} {F : Stuck Nat}
    {fault : ParseFault} {n : Nat} {tokens rest : List Token}
    (h : Joined ops R F fault n tokens rest) : Meets ops tokens := by
  cases h with
  | operand hop _ => exact hop
  | later hop _ _ => exact hop

theorem LeftAssoc.continues {ops kinds : List TokenKind} {R : Spelling Expr} {F : Stuck Nat}
    (hR : R.Continues kinds) (hF : Continues kinds F) :
    Continues (ops ++ kinds) (LeftAssoc ops R F) := by
  intro fault n t tokens rest h hfault hname
  cases h with
  | first hd =>
    exact (hF hd hfault hname).mono fun kind hkind => List.mem_append_right ops hkind
  | later hfirst hjoined =>
    rcases hR hfirst hname with rfl | hmeets
    · exact hjoined.meets.mono fun kind hkind => List.mem_append_left kinds hkind
    · exact hmeets.mono fun kind hkind => List.mem_append_right ops hkind

theorem Expression.continues (room : Nat) : Continues continuing (Expression room) := by
  cases room with
  | zero =>
    rintro fault n t tokens rest ⟨⟩ hfault
    exact absurd rfl hfault
  | succ room =>
    have hR : (Grammar.Operand .greedy room).Continues [.leftParen] := by
      cases room <;> exact Grammar.OperandOf.continues
    have hF : Continues [.leftParen] (Operand room) := by
      cases room <;> exact OperandOf.continues
    have hclimbing : ∀ others : List (List TokenKind),
        Continues (others.flatten ++ [.leftParen])
          (Climbing (Grammar.Operand .greedy room) (Operand room) others) := by
      intro others
      induction others with
      | nil => exact hF
      | cons ops others ih =>
        rw [List.flatten_cons, List.append_assoc]
        exact LeftAssoc.continues (foldr_continues hR others) ih
    exact hclimbing levels

/-- Reading gets stuck in this way whatever stands behind the first token that is left. -/
def Settled (P : List Token → List Token → Prop) (tokens rest : List Token) : Prop :=
  ∃ front, tokens = front ++ rest ∧ ∀ rest', SameHead rest rest' → P (front ++ rest') rest'

namespace Settled

variable {P Q : List Token → List Token → Prop} {tokens later rest : List Token}

/-- At the front. -/
theorem here (h : ∀ rest, SameHead tokens rest → P rest rest) : Settled P tokens tokens :=
  ⟨[], rfl, h⟩

/-- At the end nothing is left. -/
theorem ending (tokens : List Token) : Settled P tokens [] :=
  ⟨tokens, (List.append_nil tokens).symm, fun _ hsame => nomatch hsame⟩

theorem map (h : Settled P tokens rest)
    (hPQ : ∀ {tokens rest : List Token}, P tokens rest → Q tokens rest) :
    Settled Q tokens rest := by
  obtain ⟨front, rfl, hP⟩ := h
  exact ⟨front, rfl, fun rest' hsame => hPQ (hP rest' hsame)⟩

/-- Behind some more tokens. -/
theorem after (h : Settled P tokens rest) (more : List Token)
    (hPQ : ∀ {tokens rest : List Token}, P tokens rest → Q (more ++ tokens) rest) :
    Settled Q (more ++ tokens) rest := by
  obtain ⟨front, rfl, hP⟩ := h
  refine ⟨more ++ front, (List.append_assoc ..).symm, fun rest' hsame => ?_⟩
  rw [List.append_assoc]
  exact hPQ (hP rest' hsame)

/-- Behind something that is spelled. -/
theorem past {α : Type} {R : Spelling α} {behind : List Token → Prop} {a : α}
    (h : Settled P later rest) (hR : R.Local behind) (ha : R a tokens later)
    (hPQ : ∀ {tokens later rest : List Token}, R a tokens later → P later rest → Q tokens rest) :
    Settled Q tokens rest := by
  obtain ⟨front', rfl, hP⟩ := h
  obtain ⟨t, front, rfl, hlocal⟩ := hR ha
  refine ⟨t :: (front ++ front'), by simp, fun rest' hsame => ?_⟩
  rw [List.cons_append, List.append_assoc]
  have halike : Alike behind rest rest' := .inl hsame
  exact hPQ (hlocal _ (halike.append front')) (hP rest' hsame)

/-- Something is spelled in front of the token. -/
theorem behind {α : Type} {R : Spelling α} {behind : List Token → Prop} {a : α}
    (hR : R.Local behind) (ha : R a tokens rest)
    (hP : ∀ {tokens rest' : List Token}, R a tokens rest' → SameHead rest rest' →
      P tokens rest') : Settled P tokens rest := by
  obtain ⟨t, front, rfl, hlocal⟩ := hR ha
  exact ⟨t :: front, rfl, fun rest' hsame => hP (hlocal rest' (.inl hsame)) hsame⟩

/-- The first token stays the same. -/
theorem head (h : Settled P tokens rest)
    (hPQ : ∀ {tokens' rest' : List Token}, SameHead tokens tokens' → P tokens' rest' →
      Q tokens' rest') : Settled Q tokens rest := by
  obtain ⟨front, rfl, hP⟩ := h
  exact ⟨front, rfl, fun rest' hsame => hPQ (hsame.append front) (hP rest' hsame)⟩

end Settled

/-- Unless it is room that is missing, it does not matter what stands behind the first token that is
left. -/
def Local {δ : Type} (F : Stuck δ) : Prop :=
  ∀ ⦃fault : ParseFault⦄ ⦃d : δ⦄ ⦃tokens rest : List Token⦄, F fault d tokens rest →
    fault ≠ .tooDeep → Settled (F fault d) tokens rest

theorem Crowded.local {δ : Type} {here : δ} : Local (Crowded here) := by
  rintro fault d tokens rest ⟨⟩ hfault
  exact absurd rfl hfault

theorem Lacks.local {δ : Type} {kind : TokenKind} {what : Expectation} {here : δ} :
    Local (Lacks kind what here) := by
  rintro fault d tokens rest ⟨h⟩ _
  exact .here fun rest hsame => .intro (hsame.avoids h)

theorem Within.local {F : Stuck Nat} (hF : Local F) : Local (Within F) := by
  rintro fault _ tokens rest ⟨hd⟩ hfault
  exact (hF hd hfault).map .intro

section

variable {α : Type} {R : Spelling α} {F : Stuck Nat} {behind : List Token → Prop}
  (hR : R.Local behind) (hF : Local F)
include hR hF

theorem Separated.local : Local (Separated R F) := by
  intro fault n tokens rest h hfault
  induction h with
  | item hd => exact (hF hd hfault).map .item
  | @later a comma fault n tokens later rest ha hcomma _ ih =>
    have hlater : Settled (fun tokens rest => ∃ later, tokens = comma :: later ∧
        Separated R F fault n later rest) ([comma] ++ later) rest :=
      (ih hfault).after [comma] fun hd => ⟨_, rfl, hd⟩
    refine hlater.past hR ha ?_
    rintro tokens _ rest ha ⟨later, rfl, hd⟩
    exact .later ha hcomma hd

theorem Enclosed.local {close : Expectation} : Local (Enclosed R F close) := by
  intro fault n tokens rest h hfault
  cases h with
  | item hfront hd =>
    exact (Separated.local hR hF hd hfault).head fun hsame hd => .item (hsame.avoids hfront) hd
  | @close as _ _ hfront has hclose =>
    have hsettled : Settled (fun tokens rest => Grammar.Separated .greedy R as tokens rest ∧
        Avoids [.rightParen] rest) tokens rest :=
      .behind (Grammar.Separated.local hR) has fun has hsame => ⟨has, hsame.avoids hclose⟩
    exact hsettled.head fun hsame h => .close (hsame.avoids hfront) h.1 h.2

end

theorem LeftAssoc.local {ops : List TokenKind} {R : Spelling Expr} {F : Stuck Nat}
    {behind : List Token → Prop} (hR : R.Local behind) (hF : Local F) :
    Local (LeftAssoc ops R F) := by
  have hjoined : Local (Joined ops R F) := by
    intro fault n tokens rest h hfault
    induction h with
    | operand hop hd => exact (hF hd hfault).after [_] (.operand hop)
    | @later right op fault n tokens later rest hop hright _ ih =>
      have hright' : Settled (fun tokens rest => Joined ops R F fault n (op :: tokens) rest)
          tokens rest := (ih hfault).past hR hright (.later hop)
      exact hright'.after [op] id
  intro fault n tokens rest h hfault
  cases h with
  | first hd => exact (hF hd hfault).map .first
  | later hfirst hd => exact (hjoined hd hfault).past hR hfirst .later

theorem Operation.local {R : Spelling Expr} {F : Stuck Nat} (hR : R.Local (Avoids [.leftParen]))
    (hF : Local F) : Local (Operation R F) := by
  have hclimbing : ∀ others : List (List TokenKind), Local (Climbing R F others) := by
    intro others
    induction others with
    | nil => exact hF
    | cons ops others ih => exact LeftAssoc.local (foldr_local hR others) ih
  exact hclimbing levels

theorem OperandOf.local {inner : Spelling Expr} {F G : Stuck Nat} {behind : List Token → Prop}
    (hinner : inner.Local behind) (hF : Local F) (hG : Local G) :
    Local (OperandOf inner F G) := by
  intro fault n tokens rest h hfault
  cases h with
  | prefixed hkind hd => exact (Within.local hF hd hfault).after [_] (.prefixed hkind)
  | argument hkind hopen hd =>
    exact (Enclosed.local hinner (Within.local hG) hd hfault).after [_, _] (.argument hkind hopen)
  | group hopen hd => exact (Within.local hG hd hfault).after [_] (.group hopen)
  | @groupClose paren _ tokens _ hopen he hclose =>
    have hinside : Settled (fun tokens rest =>
        OperandOf inner F G (.expected .groupClose) 0 (paren :: tokens) rest) tokens rest :=
      .behind hinner he fun he hsame => .groupClose hopen he (hsame.avoids hclose)
    exact hinside.after [paren] id
  | expression hfront => exact .here fun rest hsame => .expression (hsame.avoids hfront)

theorem Operand.local (room : Nat) : Local (Operand room) := by
  induction room with
  | zero =>
    have hinner : (Nowhere : Spelling Expr).Local (Avoids continuing) := nowhere_local
    exact OperandOf.local hinner Crowded.local Crowded.local
  | succ room ih =>
    have hR := Grammar.Operand.local room
    exact OperandOf.local (Grammar.Operation.local hR) ih (Operation.local hR ih)

theorem Expression.local (room : Nat) : Local (Expression room) := by
  cases room with
  | zero => exact Crowded.local
  | succ room => exact Operation.local (Grammar.Operand.local room) (Operand.local room)

section

variable {R : Spelling Stmt} {F : Stuck Nesting}

theorem Braced.local {unclosed : List Token → Prop} (hF : Local F) : Local (Braced unclosed F) := by
  intro fault d tokens rest h hfault
  cases h with
  | brace hopen => exact .here fun rest hsame => .brace (hsame.avoids hopen)
  | inside hopen hd => exact (hF hd hfault).after [_] (.inside hopen)
  | close _ _ => exact .ending _

theorem Statements.local (hR : R.Local Harmless) (hF : Local F) : Local (Statements R F) := by
  intro fault d tokens rest h hfault
  induction h with
  | statement hfront hd =>
    refine (hF hd hfault).head fun hsame hd => ?_
    obtain ⟨t, tokens, tokens'⟩ := hsame
    exact .statement hfront hd
  | skip hsep _ ih => exact (ih hfault).after [_] (.skip hsep)
  | @later s fault d tokens later rest hfront hs _ ih =>
    have hlater : Settled (fun tokens rest => ∃ later, R s tokens later ∧
        Statements R F fault d later rest) tokens rest :=
      (ih hfault).past hR hs fun hs hd => ⟨_, hs, hd⟩
    refine hlater.head ?_
    rintro tokens' rest hsame ⟨later, hs, hd⟩
    exact .later (hsame.avoids hfront) hs hd

end

section

variable {E : Spelling Expr} {B : Spelling (List Stmt)} {F : Stuck Nat} {G : Stuck Nesting}
  {behind : List Token → Prop} (hE : E.Local behind) (hB : B.Local fun _ => True)

/-- Behind a condition and its block. -/
theorem Settled.guarded {P Q : List Token → List Token → Prop} {cond : Expr} {body : List Stmt}
    {tokens later later' rest : List Token} (h : Settled P later' rest) (hE : E.Local behind)
    (hB : B.Local fun _ => True) (hcond : E cond tokens later) (hbody : B body later later')
    (hPQ : ∀ {tokens later later' rest : List Token}, E cond tokens later → B body later later' →
      P later' rest → Q tokens rest) : Settled Q tokens rest := by
  have hlater : Settled (fun later rest => ∃ later', B body later later' ∧ P later' rest)
      later rest := h.past hB hbody fun hbody hd => ⟨_, hbody, hd⟩
  refine hlater.past hE hcond ?_
  rintro tokens later rest hcond ⟨later', hbody, hd⟩
  exact hPQ hcond hbody hd

variable (hF : Local F) (hG : Local G)
include hE hB hF hG

theorem ChainOf.local : Local (ChainOf E B F G) := by
  intro fault d tokens rest h hfault
  induction h with
  | @otherwise word fault d tokens rest hword hfront hd =>
    have hblock : Settled (fun tokens rest => ChainOf E B F G fault d (word :: tokens) rest)
        tokens rest :=
      (hG hd hfault).head fun hsame hd => .otherwise hword (hsame.avoids hfront) hd
    exact hblock.after [word] id
  | condition hword hword' hd => exact (hF hd hfault).after [_, _] (.condition hword hword')
  | @body word word' cond fault d tokens _ rest hword hword' hcond hd =>
    have hbody : Settled (fun tokens rest => ChainOf E B F G fault d
        (word :: word' :: tokens) rest) tokens rest :=
      (hG hd hfault).past hE hcond (.body hword hword')
    exact hbody.after [word, word'] id
  | @later word word' cond body fault d tokens _ _ rest hword hword' hcond hbody _ ih =>
    have hlater : Settled (fun tokens rest => ChainOf E B F G fault d
        (word :: word' :: tokens) rest) tokens rest :=
      (ih hfault).guarded hE hB hcond hbody (.later hword hword')
    exact hlater.after [word, word'] id

theorem StatementOf.local (hcontinues : Continues continuing F) :
    Local (StatementOf E B F G) := by
  intro fault d tokens rest h hfault
  cases h with
  | @name word _ hword hlacks =>
    have hname : Settled (fun tokens rest => StatementOf E B F G (.expected .variableName)
        .outside (word :: tokens) rest) rest rest :=
      .here fun rest hsame => .name hword (hsame.avoids hlacks)
    exact hname.after [word] id
  | @sign word name _ hword hname hlacks =>
    have hsign : Settled (fun tokens rest => StatementOf E B F G (.expected .bindingEqual)
        .outside (word :: name :: tokens) rest) rest rest :=
      .here fun rest hsame => .sign hword hname (hsame.avoids hlacks)
    exact hsign.after [word, name] id
  | binding hword hname hsign hd =>
    exact (hF hd hfault).after [_, _, _] (.binding hword hname hsign)
  | loop hword hd => exact (hG hd hfault).after [_] (.loop hword)
  | condition hword hd => exact (hF hd hfault).after [_] (.condition hword)
  | @body word _ _ _ tokens _ _ hword hcond hd =>
    have hbody : Settled (fun tokens rest => StatementOf E B F G fault d
        (word :: tokens) rest) tokens rest := (hG hd hfault).past hE hcond (.body hword)
    exact hbody.after [word] id
  | @chain word _ _ _ _ tokens _ _ _ hword hcond hbody hd =>
    have hchain : Settled (fun tokens rest => StatementOf E B F G fault d
        (word :: tokens) rest) tokens rest :=
      (ChainOf.local hE hB hF hG hd hfault).guarded hE hB hcond hbody (.chain hword)
    exact hchain.after [word] id
  | @returned word _ n tokens _ hword hvalued hd =>
    have hvalue : Settled (fun tokens rest => StatementOf E B F G fault (.inExpression n)
        (word :: tokens) rest) tokens rest := by
      refine (hF hd hfault).head fun hsame hd => ?_
      obtain ⟨t, tokens, tokens'⟩ := hsame
      exact .returned hword hvalued hd
    exact hvalue.after [word] id
  | function hword =>
    refine .here fun rest hsame => ?_
    obtain ⟨word, tokens, tokens'⟩ := hsame
    exact .function hword
  | assignment hname hsign hd => exact (hF hd hfault).after [_, _] (.assignment hname hsign)
  | plain hfront hsign hd =>
    refine (hF hd hfault).head fun hsame hd => ?_
    obtain ⟨t, tokens, tokens'⟩ := hsame
    exact .plain hfront (fun hname => (hcontinues hd hfault hname).avoids (by decide)) hd

end

theorem Statement.local (room : Nat) : Local (Statement room) := by
  induction room with
  | zero =>
    exact StatementOf.local (Grammar.Expression.local 0) (Grammar.Block.local 0)
      (Expression.local 0) (Braced.local Crowded.local) (Expression.continues 0)
  | succ room ih =>
    exact StatementOf.local (Grammar.Expression.local (room + 1)) (Grammar.Block.local (room + 1))
      (Expression.local (room + 1))
      (Braced.local (Statements.local (Grammar.Statement.local room) ih))
      (Expression.continues (room + 1))

theorem Block.local (room : Nat) : Local (Block room) := by
  cases room with
  | zero => exact Braced.local Crowded.local
  | succ room =>
    exact Braced.local (Statements.local (Grammar.Statement.local room) (Statement.local room))

/-! ## Programs -/

theorem Declaration.local (room : Nat) : Local (Declaration room) := by
  intro fault d tokens rest h hfault
  cases h with
  | name hlacks => exact .here fun rest hsame => .name (hsame.avoids hlacks)
  | @paren name _ hname hlacks =>
    have hparen : Settled (fun tokens rest => Declaration room (.expected .parametersOpen)
        .outside (name :: tokens) rest) rest rest :=
      .here fun rest hsame => .paren hname (hsame.avoids hlacks)
    exact hparen.after [name] id
  | parameter hname hopen hd =>
    have hR : (OfKind .identifier).Local (fun _ => True) := ofKind_local _
    exact (Enclosed.local hR Lacks.local hd hfault).after [_, _] (.parameter hname hopen)
  | @body name paren _ _ _ tokens _ _ hname hopen hparams hd =>
    have hR : (OfKind .identifier).Local (fun _ => True) := ofKind_local _
    have hbody : Settled (fun tokens rest => Declaration room fault d
        (name :: paren :: tokens) rest) tokens rest :=
      (Block.local room hd hfault).past (Grammar.Enclosed.local hR) hparams (.body hname hopen)
    exact hbody.after [name, paren] id

/-- **What stands behind the first token that is left does not matter**, unless it is room that is
missing. -/
theorem Items.local (room : Nat) : Local (Items room) := by
  intro fault d tokens rest h hfault
  induction h with
  | statement hfront hd =>
    refine (Statement.local room hd hfault).head fun hsame hd => ?_
    obtain ⟨t, tokens, tokens'⟩ := hsame
    exact .statement hfront hd
  | function hword hd => exact (Declaration.local room hd hfault).after [_] (.function hword)
  | skip hsep _ ih => exact (ih hfault).after [_] (.skip hsep)
  | @laterStatement s fault d tokens later rest hfront hs _ ih =>
    have hlater : Settled (fun tokens rest => ∃ later,
        Grammar.Statement .greedy room s tokens later ∧ Items room fault d later rest) tokens rest :=
      (ih hfault).past (Grammar.Statement.local room) hs fun hs hd => ⟨_, hs, hd⟩
    refine hlater.head ?_
    rintro tokens' rest hsame ⟨later, hs, hd⟩
    exact .laterStatement (hsame.avoids hfront) hs hd
  | @laterFunction word f fault d tokens later rest hword hf _ ih =>
    have hlater : Settled (fun tokens rest => Items room fault d (word :: tokens) rest) tokens rest :=
      (ih hfault).past (Grammar.Declaration.local room word.pos) hf (.laterFunction hword)
    exact hlater.after [word] id

end Stuck
end Grammar
end Octet
