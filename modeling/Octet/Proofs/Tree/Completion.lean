import Octet.Proofs.Tree.Failure
import Octet.Proofs.Tree.Lookahead

/-!
# Tokens that can be completed

Where reading gets stuck, the tokens in front of that point are the beginning of something, and some
tokens in place of those that are left complete it: the pieces that are unfinished take what they
lack, from the innermost to the outermost (`Completable`).  A missing expression becomes `true`, a
missing block an empty one, and where no statement can start there is a `break`.

Two things have to be looked after.

* What was read in front of the point has to stay what it was.  Its tail changes, and only to one
  that starts with the same token, or that continues nothing (`Local`).  So a completion that starts
  at the point itself starts with a token that continues nothing of the kind in front of it: `true`
  on the line of the token that it replaces, so that a `return` in front of it has a value as
  before, a brace, or `break`.
* Completing may open one level more, for a missing block or value, so there has to be room for it.
-/

namespace Octet
namespace Grammar

/-- Some tokens in place of those that are left complete what was read, whatever tail of this sort
follows.  The first token remains the same, or it is one that may stand in its place. -/
def Completable {α : Type} (R : Spelling α) (behind : List Token → Prop)
    (fresh : List Token → List Token → Prop) (tokens rest : List Token) : Prop :=
  ∃ front cs, tokens = front ++ rest ∧ (∀ t ∈ cs, t.kind ≠ .eof) ∧
    ∀ tail, behind tail →
      (SameHead tokens (front ++ (cs ++ tail)) ∨ fresh tokens (front ++ (cs ++ tail))) ∧
        ∃ a, R a (front ++ (cs ++ tail)) tail

namespace Completable

variable {α β : Type} {R : Spelling α} {Q : Spelling β} {behind behind' : List Token → Prop}
  {fresh fresh' : List Token → List Token → Prop} {tokens later rest : List Token}

/-- Nothing was read. -/
theorem here (cs : List Token) (hcs : ∀ t ∈ cs, t.kind ≠ .eof)
    (h : ∀ tail, behind tail → fresh tokens (cs ++ tail) ∧ ∃ a, R a (cs ++ tail) tail) :
    Completable R behind fresh tokens tokens :=
  ⟨[], cs, rfl, hcs, fun tail htail => ⟨.inr (h tail htail).1, (h tail htail).2⟩⟩

/-- Something was read, and is followed by the completion. -/
theorem following {a : α} (hR : R.Local behind) (ha : R a tokens rest) (cs : List Token)
    (hcs : ∀ t ∈ cs, t.kind ≠ .eof) (hbehind : ∀ tail, behind (cs ++ tail))
    (h : ∀ {tokens' tail : List Token}, SameHead tokens tokens' → R a tokens' (cs ++ tail) →
      ∃ b, Q b tokens' tail) : Completable Q behind' fresh tokens rest := by
  obtain ⟨t, front, rfl, hlocal⟩ := hR ha
  exact ⟨t :: front, cs, rfl, hcs, fun tail _ =>
    ⟨.inl (.intro ..), h (.intro ..) (hlocal _ (.inr (hbehind tail)))⟩⟩

/-- The completion of a part is followed by more tokens. -/
theorem closed (h : Completable R behind fresh tokens rest) (cs : List Token)
    (hcs : ∀ t ∈ cs, t.kind ≠ .eof) (hbehind : ∀ tail, behind' tail → behind (cs ++ tail))
    (hfresh : ∀ {tokens' : List Token}, fresh tokens tokens' → fresh' tokens tokens')
    (hRQ : ∀ {a : α} {tokens' tail : List Token},
      SameHead tokens tokens' ∨ fresh tokens tokens' → behind' tail →
        R a tokens' (cs ++ tail) → ∃ b, Q b tokens' tail) :
    Completable Q behind' fresh' tokens rest := by
  obtain ⟨front, cs', rfl, hcs', hR⟩ := h
  refine ⟨front, cs' ++ cs, rfl, ?_, fun tail htail => ?_⟩
  · exact fun t ht => (List.mem_append.1 ht).elim (hcs' t) (hcs t)
  · obtain ⟨hhead, a, ha⟩ := hR (cs ++ tail) (hbehind tail htail)
    rw [List.append_assoc]
    exact ⟨hhead.imp_right hfresh, hRQ hhead htail ha⟩

/-- The completion of a part completes something else. -/
theorem map (h : Completable R behind fresh tokens rest)
    (hbehind : ∀ tail, behind' tail → behind tail)
    (hfresh : ∀ {tokens' : List Token}, fresh tokens tokens' → fresh' tokens tokens')
    (hRQ : ∀ {a : α} {tokens' tail : List Token},
      SameHead tokens tokens' ∨ fresh tokens tokens' → behind' tail →
        R a tokens' tail → ∃ b, Q b tokens' tail) :
    Completable Q behind' fresh' tokens rest :=
  h.closed [] (List.forall_mem_nil _) hbehind hfresh hRQ

theorem mono (h : Completable R behind fresh tokens rest)
    (hbehind : ∀ tail, behind' tail → behind tail)
    (hfresh : ∀ {tokens' : List Token}, fresh tokens tokens' → fresh' tokens tokens') :
    Completable R behind' fresh' tokens rest :=
  h.map hbehind hfresh fun _ _ ha => ⟨_, ha⟩

/-- The part that is completed stands behind more tokens. -/
theorem after (h : Completable R behind fresh tokens rest) (t : Token) (more : List Token)
    (hRQ : ∀ {a : α} {tokens' tail : List Token},
      SameHead tokens tokens' ∨ fresh tokens tokens' → behind tail →
        R a tokens' tail → ∃ b, Q b (t :: (more ++ tokens')) tail) :
    Completable Q behind fresh' (t :: (more ++ tokens)) rest := by
  obtain ⟨front, cs, rfl, hcs, hR⟩ := h
  refine ⟨t :: (more ++ front), cs, by simp, hcs, fun tail htail => ?_⟩
  obtain ⟨hhead, a, ha⟩ := hR tail htail
  rw [List.cons_append, List.append_assoc]
  exact ⟨.inl (.intro ..), hRQ hhead htail ha⟩

/-- The part that is completed stands behind something that was read. -/
theorem past {γ : Type} {P : Spelling γ} {c : γ} {ok : List Token → Prop}
    (h : Completable R behind fresh later rest) (hP : P.Local ok) (hc : P c tokens later)
    (hfresh : ∀ {later' : List Token}, fresh later later' → ok later')
    (hRQ : ∀ {a : α} {tokens' later' tail : List Token}, SameHead tokens tokens' → behind tail →
      P c tokens' later' → R a later' tail → ∃ b, Q b tokens' tail) :
    Completable Q behind fresh' tokens rest := by
  obtain ⟨front', cs, rfl, hcs, hR⟩ := h
  obtain ⟨t, front, rfl, hlocal⟩ := hP hc
  refine ⟨t :: (front ++ front'), cs, by simp, hcs, fun tail htail => ?_⟩
  obtain ⟨hhead, a, ha⟩ := hR tail htail
  rw [List.cons_append, List.append_assoc]
  exact ⟨.inl (.intro ..), hRQ (.intro ..) htail (hlocal _ (hhead.imp_right hfresh)) ha⟩

end Completable

/-- Where reading gets stuck, it can be completed to something of this kind, unless it is room that
is missing, or too much is open. -/
def Stuck.Completes {α δ : Type} (F : Stuck δ) (R : Spelling α) (enough : δ → Prop)
    (behind : List Token → Prop) (fresh : List Token → List Token → Prop) : Prop :=
  ∀ ⦃fault : ParseFault⦄ ⦃d : δ⦄ ⦃tokens rest : List Token⦄, F fault d tokens rest →
    fault ≠ .tooDeep → enough d → Completable R behind fresh tokens rest

/-! ## The tokens of completions -/

/-- A token that stands nowhere in particular. -/
def spare (kind : TokenKind) (lexeme : String) : Token :=
  ⟨kind, lexeme, .start, none⟩

/-- A closing parenthesis. -/
def closing : List Token :=
  [spare .rightParen ")"]

/-- A closing brace. -/
def shutting : List Token :=
  [spare .rightBrace "\x7d"]

/-- An empty block. -/
def emptyBlock : List Token :=
  spare .leftBrace "\x7b" :: shutting

/-- The word `true`, on the line of the first of these tokens. -/
def truth (tokens : List Token) : Token :=
  ⟨.trueWord, "true", tokens.head?.elim .start Token.pos, none⟩

/-- A word in place of a value is a value. -/
def Valued (tokens tokens' : List Token) : Prop :=
  ∀ word, returnsValue word tokens = true → returnsValue word tokens' = true

theorem valued_truth (tokens tail : List Token) : Valued tokens (truth tokens :: tail) := by
  intro word hvalued
  cases tokens with
  | nil => cases hvalued
  | cons t tokens =>
    simp only [returnsValue, Bool.and_eq_true, beq_iff_eq] at hvalued
    simp [returnsValue, truth, TokenKind.startsStatement, hvalued.2]

/-- Whether the first token is the same or a value in its place, a value stays a value. -/
theorem valued_of_head {word : Token} {tokens tokens' : List Token}
    (h : SameHead tokens tokens' ∨ Valued tokens tokens')
    (hvalued : returnsValue word tokens = true) : returnsValue word tokens' = true := by
  rcases h with ⟨t, tokens, tokens'⟩ | h
  · exact hvalued
  · exact h word hvalued

namespace Stuck

/-- Where there is no room, it is room that is missing. -/
theorem Crowded.completes {α δ : Type} {here : δ} {R : Spelling α} {enough : δ → Prop}
    {behind : List Token → Prop} {fresh : List Token → List Token → Prop} :
    (Crowded here).Completes R enough behind fresh := by
  rintro fault d tokens rest ⟨⟩ hfault
  exact absurd rfl hfault

theorem Within.completes {α : Type} {F : Stuck Nat} {R : Spelling α}
    {behind : List Token → Prop} {fresh : List Token → List Token → Prop}
    (hF : F.Completes R (fun _ => True) behind fresh) :
    (Within F).Completes R (fun _ => True) behind fresh := by
  rintro fault _ tokens rest ⟨hd⟩ hfault _
  exact hF hd hfault trivial

/-! ## Lists -/

section

variable {α : Type} {R : Spelling α} {F : Stuck Nat} {behind : List Token → Prop}
  {fresh : List Token → List Token → Prop} {kinds : List TokenKind} (hR : R.Local behind)
  (hF : F.Completes R (fun _ => True) behind fresh)
include hR hF

theorem Separated.completes :
    (Separated R F).Completes (Grammar.Separated .greedy R) (fun _ => True)
      (fun tail => behind tail ∧ Avoids [.comma] tail) (fun _ _ => True) := by
  intro fault n tokens rest h hfault _
  induction h with
  | item hd =>
    exact (hF hd hfault trivial).map (fun _ => And.left)
      (fun _ => trivial) fun _ htail ha => ⟨_, .one ha htail.2⟩
  | @later a comma _ _ tokens later rest ha hcomma _ ih =>
    have hlater : Completable (fun as tokens rest => ∃ later, tokens = comma :: later ∧
        Grammar.Separated .greedy R as later rest) _ (fun _ _ => False) (comma :: ([] ++ later))
        rest :=
      (ih hfault).after comma [] fun _ _ has => ⟨_, _, rfl, has⟩
    refine hlater.past hR ha False.elim ?_
    rintro as tokens' _ tail _ _ ha ⟨later', rfl, has⟩
    exact ⟨_, .more ha hcomma has⟩

theorem Enclosed.completes {close : Expectation} (hbegins : R.Begins kinds)
    (hkinds : TokenKind.rightParen ∉ kinds) (hclosing : ∀ tail, behind (closing ++ tail)) :
    (Enclosed R F close).Completes (Grammar.Enclosed .greedy R) (fun _ => True) (fun _ => True)
      (fun _ _ => True) := by
  intro fault n tokens rest h hfault _
  have hsome : ∀ {as : List α} {tokens' tail : List Token},
      Grammar.Separated .greedy R as tokens' (closing ++ tail) →
        ∃ as, Grammar.Enclosed .greedy R as tokens' tail := by
    intro as tokens' tail has
    refine ⟨as, .some ((Separated.begins .greedy hbegins has).avoids fun kind hkind hparen => ?_)
      has rfl⟩
    exact hkinds (List.mem_singleton.1 hparen ▸ hkind)
  have hcomma : ∀ tail, behind (closing ++ tail) ∧ Avoids [.comma] (closing ++ tail) :=
    fun tail => ⟨hclosing tail, avoids_cons.2 (by decide)⟩
  cases h with
  | item _ hd =>
    exact (Separated.completes hR hF hd hfault trivial).closed closing (by decide)
      (fun tail _ => hcomma tail) id fun _ _ has => hsome has
  | close _ has _ =>
    exact .following (Grammar.Separated.local hR) has closing (by decide) hcomma
      fun _ has => hsome has

end

/-! ## Expressions -/

section

variable {R : Spelling Expr} {F : Stuck Nat} {behind : List Token → Prop} (hR : R.Local behind)
  (hF : F.Completes R (fun _ => True) behind Valued)
include hR hF

theorem Joined.completes {ops : List TokenKind} {fault : ParseFault} {n : Nat}
    {tokens rest : List Token} (h : Joined ops R F fault n tokens rest) (hfault : fault ≠ .tooDeep)
    (left : Expr) :
    Completable (Grammar.Joined .greedy ops R left) (fun tail => behind tail ∧ Avoids ops tail)
      (fun _ _ => False) tokens rest := by
  induction h generalizing left with
  | @operand op _ _ tokens rest hop hd =>
    have hright : Completable (fun right tokens tail =>
        R right tokens tail ∧ Avoids ops tail) (fun tail => behind tail ∧ Avoids ops tail)
        Valued tokens rest :=
      (hF hd hfault trivial).map (fun _ => And.left) id
        fun _ htail ha => ⟨_, ha, htail.2⟩
    exact hright.after op [] fun _ _ ha => ⟨_, .more hop ha.1 (.done ha.2)⟩
  | @later right op _ _ tokens later rest hop hright _ ih =>
    have hlater : Completable (fun whole tokens tail =>
        Grammar.Joined .greedy ops R left whole (op :: tokens) tail)
        (fun tail => behind tail ∧ Avoids ops tail) (fun _ _ => False) tokens rest :=
      (ih hfault _).past hR hright False.elim fun _ _ hright hwhole =>
        ⟨_, .more hop hright hwhole⟩
    exact hlater.after op [] fun _ _ hwhole => ⟨_, hwhole⟩

theorem LeftAssoc.completes {ops : List TokenKind} :
    (LeftAssoc ops R F).Completes (Grammar.LeftAssoc .greedy ops R) (fun _ => True)
      (fun tail => behind tail ∧ Avoids ops tail) Valued := by
  intro fault n tokens rest h hfault _
  cases h with
  | first hd =>
    exact (hF hd hfault trivial).map (fun _ => And.left) id
      fun _ htail ha => ⟨_, .intro ha (.done htail.2)⟩
  | later hfirst hd =>
    exact (Joined.completes hR hF hd hfault _).past hR hfirst False.elim
      fun _ _ hfirst hwhole => ⟨_, .intro hfirst hwhole⟩

end

theorem Operation.completes {R : Spelling Expr} {F : Stuck Nat}
    (hR : R.Local (Avoids [.leftParen]))
    (hF : F.Completes R (fun _ => True) (Avoids [.leftParen]) Valued) :
    (Operation R F).Completes (Grammar.Operation .greedy R) (fun _ => True) (Avoids continuing)
      Valued := by
  have hclimbing : ∀ others : List (List TokenKind),
      (Climbing R F others).Completes (others.foldr (Grammar.LeftAssoc .greedy) R) (fun _ => True)
        (Avoids (others.flatten ++ [.leftParen])) Valued := by
    intro others
    induction others with
    | nil => exact hF
    | cons ops others ih =>
      intro fault n tokens rest hd hfault _
      refine (LeftAssoc.completes (foldr_local hR others) ih hd hfault trivial).mono ?_ id
      intro tail htail
      rw [List.flatten_cons, List.append_assoc] at htail
      exact (avoids_append.1 htail).symm
  exact hclimbing levels

theorem OperandOf.completes {nested inner : Spelling Expr} {F G : Stuck Nat}
    (hinner : inner.Local (Avoids continuing)) (hbegins : inner.Begins expressionStarts)
    (hF : F.Completes nested (fun _ => True) (Avoids [.leftParen]) Valued)
    (hG : G.Completes inner (fun _ => True) (Avoids continuing) Valued) :
    (OperandOf inner F G).Completes (Grammar.OperandOf .greedy nested inner) (fun _ => True)
      (Avoids [.leftParen]) Valued := by
  have hclosing : ∀ tail, Avoids continuing (closing ++ tail) :=
    fun tail => avoids_cons.2 (by decide)
  intro fault n tokens rest h hfault _
  cases h with
  | @prefixed t _ _ tokens _ hkind hd =>
    exact (Within.completes hF hd hfault trivial).after t [] fun _ _ ha => ⟨_, .prefixed hkind ha⟩
  | @argument t paren _ _ tokens _ hkind hopen hd =>
    have hargs : Completable (Grammar.Enclosed .greedy inner) (Avoids [.leftParen])
        (fun _ _ => True) tokens rest :=
      (Enclosed.completes hinner (Within.completes hG) hbegins (by decide) hclosing hd hfault
        trivial).mono (fun _ _ => trivial) id
    exact hargs.after t [paren] fun _ _ hargs => ⟨_, .call hkind hopen hargs⟩
  | @group paren _ _ tokens _ hopen hd =>
    have hinside : Completable (fun e tokens tail => inner e tokens (closing ++ tail))
        (Avoids [.leftParen]) Valued tokens rest :=
      (Within.completes hG hd hfault trivial).closed closing (by decide)
        (fun tail _ => hclosing tail) id fun _ _ he => ⟨_, he⟩
    exact hinside.after paren [] fun _ _ he => ⟨_, .group hopen he rfl⟩
  | @groupClose paren e tokens _ hopen he hclose =>
    have hinside : Completable (fun e tokens tail => inner e tokens (closing ++ tail))
        (Avoids [.leftParen]) Valued tokens rest :=
      .following hinner he closing (by decide) hclosing fun _ he => ⟨_, he⟩
    exact hinside.after paren [] fun _ _ he => ⟨_, .group hopen he rfl⟩
  | expression _ =>
    refine .here [truth tokens] (by simp [truth]) fun tail _ => ?_
    exact ⟨valued_truth tokens tail, _, .trueWord (t := truth tokens) rfl⟩

theorem Operand.completes (room : Nat) :
    (Operand room).Completes (Grammar.Operand .greedy room) (fun _ => True) (Avoids [.leftParen])
      Valued := by
  induction room with
  | zero =>
    exact OperandOf.completes nowhere_local False.elim Crowded.completes Crowded.completes
  | succ room ih =>
    have hR := Grammar.Operand.local room
    exact OperandOf.completes (Grammar.Operation.local hR)
      (Operation.begins _ (Grammar.Operand.begins _ room)) ih (Operation.completes hR ih)

theorem Expression.completes (room : Nat) :
    (Expression room).Completes (Grammar.Expression .greedy room) (fun _ => True)
      (Avoids continuing) Valued := by
  cases room with
  | zero => exact Crowded.completes
  | succ room => exact Operation.completes (Grammar.Operand.local room) (Operand.completes room)

end Stuck

/-- With room for an expression there is room for `true`. -/
theorem expression_truth {room : Nat} (h : 0 < room) (tokens : List Token) {tail : List Token}
    (htail : Avoids continuing tail) :
    ∃ e, Expression .greedy room e (truth tokens :: tail) tail := by
  obtain ⟨room, rfl⟩ := Nat.exists_eq_succ_of_ne_zero (Nat.ne_of_gt h)
  have hword : ∃ e, Operand .greedy room e (truth tokens :: tail) tail := by
    cases room with
    | zero => exact ⟨_, .trueWord (t := truth tokens) rfl⟩
    | succ room => exact ⟨_, .trueWord (t := truth tokens) rfl⟩
  obtain ⟨e, he⟩ := hword
  have hsingle : Operation .terminated (Operand .greedy room) e (truth tokens :: tail) tail :=
    (operation_iff trivial).2 (.operand he)
  exact ⟨e, Operation.becomes (fun _ _ _ h _ => h) hsingle htail⟩

/-- With room for a block there is room for an empty one. -/
theorem block_emptyBlock {room : Nat} (h : 0 < room) (tail : List Token) :
    Block .greedy room [] (emptyBlock ++ tail) tail := by
  obtain ⟨room, rfl⟩ := Nat.exists_eq_succ_of_ne_zero (Nat.ne_of_gt h)
  exact .intro rfl (.close rfl)

theorem avoids_emptyBlock {kinds : List TokenKind} (h : TokenKind.leftBrace ∉ kinds)
    (tail : List Token) : Avoids kinds (emptyBlock ++ tail) :=
  h

theorem harmless_shutting (tail : List Token) : Harmless (shutting ++ tail) :=
  .cons (.inl rfl) tail

namespace Stuck

/-! ## Statements -/

/-- A block starts with a brace. -/
def Opening (_ tokens : List Token) : Prop :=
  Meets [.leftBrace] tokens

/-- Nothing in front is continued by it. -/
def Parting (_ tokens : List Token) : Prop :=
  Harmless tokens

theorem Opening.avoids {kinds : List TokenKind} {tokens tokens' : List Token}
    (h : Opening tokens tokens') (hkinds : TokenKind.leftBrace ∉ kinds) : Avoids kinds tokens' :=
  Meets.avoids h fun _ hkind => List.mem_singleton.1 hkind ▸ hkinds

section

variable {R : Spelling Stmt} {F : Stuck Nesting} {room : Nat}

/-- Statements up to the end of the tokens lack a brace only. -/
theorem Unclosed.shut (hR : R.Local Harmless) {tokens : List Token} (h : Unclosed R tokens)
    (tail : List Token) :
    Alike Harmless tokens (tokens ++ (shutting ++ tail)) ∧
      ∃ ss, Grammar.Statements .greedy R ss (tokens ++ (shutting ++ tail)) tail := by
  induction h with
  | done => exact ⟨.inr (harmless_shutting tail), _, .close rfl⟩
  | skip hsep _ ih =>
    obtain ⟨-, ss, hss⟩ := ih
    exact ⟨alike_cons, ss, .skip hsep hss⟩
  | more hfront hs _ ih =>
    obtain ⟨halike, ss, hss⟩ := ih
    obtain ⟨t, front, rfl, hlocal⟩ := hR hs
    rw [List.cons_append, List.append_assoc]
    exact ⟨alike_cons, _, .more hfront (hlocal _ halike) trivial hss⟩

theorem Statements.completes (hR : R.Local Harmless) (hbegins : R.Begins statementStarts)
    (hF : F.Completes R (·.levels < room) Harmless Parting) :
    (Statements R F).Completes (Grammar.Statements .greedy R) (·.levels < room) (fun _ => True)
      Parting := by
  intro fault d tokens rest h hfault hroom
  induction h with
  | statement _ hd =>
    refine (hF hd hfault hroom).closed shutting (by decide) (fun tail _ => harmless_shutting tail)
      id fun _ _ hs => ⟨_, .more ((hbegins hs).avoids (by decide)) hs trivial (.close rfl)⟩
  | @skip sep _ _ _ _ hsep _ ih =>
    exact (ih hfault hroom).after sep [] fun _ _ hss => ⟨_, .skip hsep hss⟩
  | later hfront hs _ ih =>
    exact (ih hfault hroom).past hR hs id fun hsame _ hs hss =>
      ⟨_, .more (hsame.avoids hfront) hs trivial hss⟩

theorem Braced.completes (hR : R.Local Harmless)
    (hF : F.Completes R (·.levels < room) Harmless Parting) (hbegins : R.Begins statementStarts) :
    (Braced (Unclosed R) (Statements R F)).Completes (Grammar.Braced (Grammar.Statements .greedy R))
      (·.levels < room + 1) (fun _ => True) Opening := by
  intro fault d tokens rest h hfault hroom
  cases h with
  | brace _ =>
    refine .here emptyBlock (by decide) fun tail _ => ?_
    exact ⟨List.mem_singleton_self _, [], .intro rfl (.close rfl)⟩
  | @inside brace _ d _ _ hopen hd =>
    rw [Nesting.levels_inBlock] at hroom
    exact (Statements.completes hR hbegins hF hd hfault (Nat.lt_of_succ_lt_succ hroom)).after brace
      [] fun _ _ hss => ⟨_, .intro hopen hss⟩
  | @close brace tokens hopen hunclosed =>
    refine ⟨brace :: tokens, shutting, by simp, by decide, fun tail _ => ⟨.inl (.intro ..), ?_⟩⟩
    obtain ⟨-, ss, hss⟩ := hunclosed.shut hR tail
    exact ⟨ss, .intro hopen hss⟩

end

section

variable {E : Spelling Expr} {B : Spelling (List Stmt)} {F : Stuck Nat} {G : Stuck Nesting}
  {room : Nat}

/-- A condition takes an empty block, and the conditional ends behind it. -/
theorem condition_completes (hF : F.Completes E (fun _ => True) (Avoids continuing) Valued)
    {fault : ParseFault} {n : Nat} {tokens rest : List Token} (hd : F fault n tokens rest)
    (hfault : fault ≠ .tooDeep) :
    Completable (fun cond tokens tail => E cond tokens (emptyBlock ++ tail) ∧
      Avoids [.elseWord] tail) Harmless Valued tokens rest :=
  (hF hd hfault trivial).closed emptyBlock (by decide)
    (fun tail _ => avoids_emptyBlock (by decide) tail) id
    fun _ htail hcond => ⟨_, hcond, htail.noElse⟩

/-- The conditional ends behind the body. -/
theorem body_completes (hG : G.Completes B (·.levels < room) (fun _ => True) Opening)
    {fault : ParseFault} {d : Nesting} {tokens rest : List Token} (hd : G fault d tokens rest)
    (hfault : fault ≠ .tooDeep) (hroom : d.levels < room) :
    Completable (fun body tokens tail => B body tokens tail ∧ Avoids [.elseWord] tail) Harmless
      Opening tokens rest :=
  (hG hd hfault hroom).map (fun _ _ => trivial) id fun _ htail hbody => ⟨_, hbody, htail.noElse⟩

variable (hE : E.Local (Avoids continuing)) (hB : B.Local fun _ => True)
  (hF : F.Completes E (fun _ => True) (Avoids continuing) Valued)
  (hG : G.Completes B (·.levels < room) (fun _ => True) Opening)
  (hempty : 0 < room → ∀ tail, B [] (emptyBlock ++ tail) tail)
include hE hB hF hG hempty

theorem ChainOf.completes :
    (ChainOf E B F G).Completes (Grammar.ChainOf .greedy E B) (·.levels < room) Harmless
      (fun _ _ => False) := by
  intro fault d tokens rest h hfault hroom
  induction h with
  | @otherwise word _ _ tokens rest hword hfront hd =>
    have hblock : Completable (fun body tokens tail =>
        Avoids [.ifWord] tokens ∧ B body tokens tail) Harmless Opening tokens rest :=
      (hG hd hfault hroom).map (fun _ _ => trivial) id
        fun hhead _ hbody => ⟨_, hhead.elim (·.avoids hfront) (·.avoids (by decide)), hbody⟩
    exact hblock.after word [] fun _ _ hbody => ⟨_, .otherwise hword hbody.1 hbody.2⟩
  | @condition word word' _ n tokens rest hword hword' hd =>
    have hpositive : 0 < room := Nat.lt_of_le_of_lt (Nat.zero_le _) hroom
    have hcond := condition_completes hF hd hfault
    exact hcond.after word [word'] fun _ _ hcond =>
      ⟨_, .elseIf hword hword' hcond.1 (hempty hpositive _) (.done hcond.2)⟩
  | @body word word' _ _ _ tokens later rest hword hword' hcond hd =>
    have hbody := body_completes hG hd hfault hroom
    have hguarded : Completable (fun chain tokens tail =>
        Grammar.ChainOf .greedy E B chain (word :: word' :: tokens) tail) Harmless
        (fun _ _ => False) tokens rest :=
      hbody.past hE hcond (fun hopen => hopen.avoids (by decide)) fun _ _ hcond hbody =>
        ⟨_, .elseIf hword hword' hcond hbody.1 (.done hbody.2)⟩
    exact hguarded.after word [word'] fun _ _ hchain => ⟨_, hchain⟩
  | @later word word' cond body _ _ tokens later later' rest hword hword' hcond hbody _ ih =>
    have hblock : Completable (fun chain later tail => ∃ later', B body later later' ∧
        Grammar.ChainOf .greedy E B chain later' tail) Harmless (fun _ _ => False) later rest :=
      (ih hfault hroom).past hB hbody False.elim fun _ _ hbody hchain => ⟨_, _, hbody, hchain⟩
    have hguarded : Completable (fun chain tokens tail =>
        Grammar.ChainOf .greedy E B chain (word :: word' :: tokens) tail) Harmless
        (fun _ _ => False) tokens rest := by
      refine hblock.past hE hcond False.elim ?_
      rintro chain tokens' later tail _ _ hcond ⟨later', hbody, hchain⟩
      exact ⟨_, .elseIf hword hword' hcond hbody hchain⟩
    exact hguarded.after word [word'] fun _ _ hchain => ⟨_, hchain⟩

theorem StatementOf.completes (hcontinues : E.Continues continuing)
    (htruth : 0 < room → ∀ (tokens : List Token) {tail : List Token}, Avoids continuing tail →
      ∃ e, E e (truth tokens :: tail) tail) :
    (StatementOf E B F G).Completes (Grammar.StatementOf .greedy E B) (·.levels < room) Harmless
      Parting := by
  have hbreak : (spare .breakWord "break").kind = .breakWord := rfl
  intro fault d tokens rest h hfault hroom
  have hpositive : 0 < room := Nat.lt_of_le_of_lt (Nat.zero_le _) hroom
  cases h with
  | @name word _ hword _ =>
    have hname : Completable (fun s tokens tail =>
        Grammar.StatementOf .greedy E B s (word :: tokens) tail) Harmless (fun _ _ => True) rest
        rest := by
      refine .here [spare .identifier "x", spare .equal "=", truth []] (by decide)
        fun tail htail => ?_
      obtain ⟨e, he⟩ := htruth hpositive [] htail.stops
      exact ⟨trivial, _, .binding hword rfl rfl he⟩
    exact hname.after word [] fun _ _ hs => ⟨_, hs⟩
  | @sign word name _ hword hname _ =>
    have hsign : Completable (fun s tokens tail =>
        Grammar.StatementOf .greedy E B s (word :: name :: tokens) tail) Harmless
        (fun _ _ => True) rest rest := by
      refine .here [spare .equal "=", truth []] (by decide) fun tail htail => ?_
      obtain ⟨e, he⟩ := htruth hpositive [] htail.stops
      exact ⟨trivial, _, .binding hword hname rfl he⟩
    exact hsign.after word [name] fun _ _ hs => ⟨_, hs⟩
  | @binding word name sign _ n tokens _ hword hname hsign hd =>
    have hvalue : Completable E Harmless Valued tokens rest :=
      (hF hd hfault trivial).mono (fun _ => Harmless.stops) id
    exact hvalue.after word [name, sign] fun _ _ he => ⟨_, .binding hword hname hsign he⟩
  | @loop word _ _ tokens _ hword hd =>
    have hbody : Completable B Harmless Opening tokens rest :=
      (hG hd hfault hroom).mono (fun _ _ => trivial) id
    exact hbody.after word [] fun _ _ hbody => ⟨_, .loop hword hbody⟩
  | @condition word _ n tokens _ hword hd =>
    have hcond := condition_completes hF hd hfault
    exact hcond.after word [] fun _ _ hcond =>
      ⟨_, .conditional hword hcond.1 (hempty hpositive _) (.done hcond.2)⟩
  | @body word cond _ _ tokens later _ hword hcond hd =>
    have hbody := body_completes hG hd hfault hroom
    have hguarded : Completable (fun s tokens tail =>
        Grammar.StatementOf .greedy E B s (word :: tokens) tail) Harmless (fun _ _ => False)
        tokens rest :=
      hbody.past hE hcond (fun hopen => hopen.avoids (by decide)) fun _ _ hcond hbody =>
        ⟨_, .conditional hword hcond hbody.1 (.done hbody.2)⟩
    exact hguarded.after word [] fun _ _ hs => ⟨_, hs⟩
  | @chain word cond body _ _ tokens later later' _ hword hcond hbody hd =>
    have hblock : Completable (fun chain later tail => ∃ later', B body later later' ∧
        Grammar.ChainOf .greedy E B chain later' tail) Harmless (fun _ _ => False) later rest :=
      (ChainOf.completes hE hB hF hG hempty hd hfault hroom).past hB hbody False.elim
        fun _ _ hbody hchain => ⟨_, _, hbody, hchain⟩
    have hguarded : Completable (fun s tokens tail =>
        Grammar.StatementOf .greedy E B s (word :: tokens) tail) Harmless (fun _ _ => False)
        tokens rest := by
      refine hblock.past hE hcond False.elim ?_
      rintro chain tokens' later tail _ _ hcond ⟨later', hbody, hchain⟩
      exact ⟨_, .conditional hword hcond hbody hchain⟩
    exact hguarded.after word [] fun _ _ hs => ⟨_, hs⟩
  | @returned word _ n tokens _ hword hvalued hd =>
    have hvalue : Completable (fun e tokens tail =>
        E e tokens tail ∧ returnsValue word tokens = true) Harmless Valued tokens rest :=
      (hF hd hfault trivial).map (fun _ => Harmless.stops) id
        fun hhead _ he => ⟨_, he, valued_of_head hhead hvalued⟩
    exact hvalue.after word [] fun _ _ he => ⟨_, .valued hword he.2 he.1⟩
  | function _ =>
    refine .here [spare .breakWord "break"] (by decide) fun tail _ => ?_
    exact ⟨.cons (.inr (.inl rfl)) tail, _, .leave hbreak⟩
  | @assignment name sign _ n tokens _ hname hsign hd =>
    have hvalue : Completable E Harmless Valued tokens rest :=
      (hF hd hfault trivial).mono (fun _ => Harmless.stops) id
    exact hvalue.after name [sign] fun _ _ he => ⟨_, .assignment hname hsign he⟩
  | @plain t _ n tokens _ hfront hsign hd =>
    obtain ⟨front, cs, heq, hcs, hE'⟩ := hF hd hfault trivial
    cases front with
    | nil =>
      -- no expression starts here, and what stands in front must not be continued by one
      obtain rfl : t :: tokens = rest := heq
      refine .here [spare .breakWord "break"] (by decide) fun tail _ => ?_
      exact ⟨.cons (.inr (.inl rfl)) tail, _, .leave hbreak⟩
    | cons t' front =>
      obtain ⟨rfl, rfl⟩ := List.cons.inj heq
      refine ⟨t :: front, cs, rfl, hcs, fun tail htail => ⟨.inl (.intro ..), ?_⟩⟩
      obtain ⟨-, e, he⟩ := hE' tail htail.stops
      refine ⟨_, .plain hfront (fun hname => ?_) he⟩
      rcases hcontinues he hname with heq' | hmeets
      · rw [heq']
        exact htail.noEqual
      · exact hmeets.avoids (by decide)

end

theorem Statement.completes (room : Nat) :
    (Statement room).Completes (Grammar.Statement .greedy room) (·.levels < room) Harmless
      Parting := by
  induction room with
  | zero => exact fun _ _ _ _ _ _ hroom => absurd hroom (Nat.not_lt_zero _)
  | succ room ih =>
    exact StatementOf.completes (Grammar.Expression.local (room + 1))
      (Grammar.Block.local (room + 1)) (Expression.completes (room + 1))
      (Braced.completes (Grammar.Statement.local room) ih (Statement.begins _ room))
      block_emptyBlock (Grammar.Expression.continues (room + 1))
      expression_truth

theorem Block.completes (room : Nat) :
    (Block room).Completes (Grammar.Block .greedy room) (·.levels < room) (fun _ => True)
      Opening := by
  cases room with
  | zero => exact fun _ _ _ _ _ _ hroom => absurd hroom (Nat.not_lt_zero _)
  | succ room =>
    exact Braced.completes (Grammar.Statement.local room) (Statement.completes room)
      (Statement.begins _ room)

/-! ## Programs -/

theorem Declaration.completes (room : Nat) (pos : Pos) :
    (Declaration room).Completes (Grammar.Declaration .greedy room pos) (·.levels < room)
      (fun _ => True) (fun _ _ => True) := by
  have hR : (OfKind .identifier).Local fun _ => True := ofKind_local _
  intro fault d tokens rest h hfault hroom
  have hpositive : 0 < room := Nat.lt_of_le_of_lt (Nat.zero_le _) hroom
  have hname' : (spare .identifier "f").kind = .identifier := rfl
  have hopen' : (spare .leftParen "(").kind = .leftParen := rfl
  have hnone : ∀ tail, Grammar.Enclosed .greedy (OfKind .identifier) [] (closing ++ tail) tail :=
    fun _ => .none rfl
  cases h with
  | name _ =>
    refine .here ([spare .identifier "f", spare .leftParen "("] ++ closing ++ emptyBlock)
      (by decide) fun tail _ => ⟨trivial, .fnDecl pos "f" [] [], ?_⟩
    exact .intro hname' hopen' (hnone _) (block_emptyBlock hpositive tail)
  | @paren name _ hname _ =>
    have hparen : Completable (fun f tokens tail =>
        Grammar.Declaration .greedy room pos f (name :: tokens) tail) (fun _ => True)
        (fun _ _ => True) rest rest := by
      refine .here (spare .leftParen "(" :: closing ++ emptyBlock) (by decide)
        fun tail _ => ⟨trivial, .fnDecl pos name.lexeme [] [], ?_⟩
      exact .intro hname hopen' (hnone _) (block_emptyBlock hpositive tail)
    exact hparen.after name [] fun _ _ hf => ⟨_, hf⟩
  | @parameter name paren _ n tokens _ hname hopen hd =>
    have hlacks : (Lacks .identifier .parameterName 0).Completes (OfKind .identifier)
        (fun _ => True) (fun _ => True) (fun _ _ => True) := by
      rintro fault n tokens rest ⟨-⟩ _ _
      exact .here [spare .identifier "x"] (by decide) fun tail _ => ⟨trivial, _, .intro rfl⟩
    have hparams := Enclosed.completes hR hlacks (ofKind_begins .identifier) (by decide)
      (fun _ => trivial) hd hfault trivial
    have hbody : Completable (fun params tokens tail =>
        Grammar.Enclosed .greedy (OfKind .identifier) params tokens (emptyBlock ++ tail))
        (fun _ => True) (fun _ _ => True) tokens rest :=
      hparams.closed emptyBlock (by decide) (fun _ _ => trivial) id fun _ _ hnames => ⟨_, hnames⟩
    exact hbody.after name [paren] fun _ _ hnames =>
      ⟨_, .intro hname hopen hnames (block_emptyBlock hpositive _)⟩
  | @body name paren params _ _ tokens later _ hname hopen hparams hd =>
    have hbody : Completable (fun f tokens tail =>
        Grammar.Declaration .greedy room pos f (name :: paren :: tokens) tail) (fun _ => True)
        (fun _ _ => True) tokens rest :=
      (Block.completes room hd hfault hroom).past (Grammar.Enclosed.local hR) hparams
        (fun _ => trivial) fun _ _ hparams hbody => ⟨_, .intro hname hopen hparams hbody⟩
    exact hbody.after name [paren] fun _ _ hf => ⟨_, hf⟩

/-- A program, up to the end of the tokens. -/
def Whole (room : Nat) : Spelling (List Stmt) :=
  fun items tokens tail => tail = [] ∧ Grammar.Items .greedy room items tokens

/-- **Where reading gets stuck, the tokens in front can be completed to a program**, unless it is
room that is missing, or no further level may be opened. -/
theorem Items.completes (room : Nat) :
    (Items room).Completes (Whole room) (·.levels < room) (· = []) Parting := by
  intro fault d tokens rest h hfault hroom
  induction h with
  | @statement t _ _ tokens rest _ hd =>
    refine (Statement.completes room hd hfault hroom).map ?_ id ?_
    · rintro _ rfl
      exact .nil
    · rintro s tokens' _ _ rfl hs
      have hfront : Avoids [.semicolon, .fnWord] tokens' :=
        (Grammar.Statement.begins _ room hs).avoids (by decide)
      exact ⟨[s], rfl, .statement hfront hs trivial .done⟩
  | @function word _ _ tokens rest hword hd =>
    have hf : Completable (Grammar.Declaration .greedy room word.pos) (· = []) (fun _ _ => True)
        tokens rest :=
      (Declaration.completes room word.pos hd hfault hroom).mono (fun _ _ => trivial) id
    refine hf.after word [] ?_
    rintro f tokens' _ _ rfl hf
    exact ⟨[f], rfl, .function hword hf trivial .done⟩
  | @skip sep _ _ tokens rest hsep _ ih =>
    refine (ih hfault hroom).after sep [] ?_
    rintro items tokens' tail _ _ ⟨hend, hitems⟩
    exact ⟨items, hend, .skip hsep hitems⟩
  | laterStatement hfront hs _ ih =>
    refine (ih hfault hroom).past (Grammar.Statement.local room) hs id ?_
    rintro items tokens' later' tail hsame _ hs ⟨hend, hitems⟩
    exact ⟨_, hend, .statement (hsame.avoids hfront) hs trivial hitems⟩
  | @laterFunction word f _ _ tokens later rest hword hf _ ih =>
    have hlater : Completable (fun items tokens tail =>
        tail = [] ∧ Grammar.Items .greedy room items (word :: tokens)) (· = [])
        (fun _ _ => False) tokens rest := by
      refine (ih hfault hroom).past (Grammar.Declaration.local room word.pos) hf
        (fun _ => trivial) ?_
      rintro items tokens' later' tail _ _ hf ⟨hend, hitems⟩
      exact ⟨_, hend, .function hword hf trivial hitems⟩
    exact hlater.after word [] fun _ _ hitems => ⟨_, hitems⟩

end Stuck
end Grammar
end Octet
