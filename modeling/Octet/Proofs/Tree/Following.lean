import Octet.Proofs.Tree.Derivation
import Octet.Proofs.Tree.Outcome

/-!
# Descending follows the rules

A reader that moves through its tokens one at a time does what the rules of the grammar say: each
function of the descent is compared with its rule, and `Descent.parse_ends` is the statement for
whole programs.  In particular the descent comes to an end, and never looks behind the last token.

The functions of the descent recurse on their fuel, which says nothing of what they read, so the
comparison follows the rules.  These carry their room as an argument: where functions call each
other it is by induction on the room, which the reader has from its depth, and where something is
repeated it is by induction on the tokens, along the recursion of the rule.

The one place where the rules are cut differently is the closing brace of a block, which they count
to the inside of the block and a reader does not.  `Grammar.contents` is the part in front of it.
-/

namespace Octet

open Grammar
open Reader (nextKind)

namespace Descent

variable {α : Type} {n room : Nat} {r : Reader} {tokens : List Token}

/-! ## Lists -/

section

variable {rule : Rule α} {item : Nat → Descent α} {items : Nat → Descent (List α)}

/-- Both lists of the language, arguments and parameters, are read by such an equation. -/
theorem follows_separated (hitem : Follows item room rule)
    (hitems : ∀ fuel, items (fuel + 1) = do
      let a ← item fuel
      if ← accept [.comma] then return a :: (← items fuel)
      else return [a]) :
    Follows items room (separated rule) := by
  intro r tokens hr
  induction tokens using separated.induct generalizing r with
  | case1 tokens ih =>
    refine Outcome.succ ?_
    simp only [hitems]
    rw [separated]
    refine Outcome.bind hr (hitem hr) fun first r' hone => ?_
    split
    · rename_i t rest hrest
      have hr' := hrest ▸ hone
      split
      · rename_i hcomma
        refine Outcome.accept_pos hr' (by simp [hcomma]) fun hr'' => ?_
        exact Outcome.bind hr'' (ih first t rest hrest hr'') fun later _ hlater =>
          Outcome.pure hlater
      · rename_i hcomma
        exact Outcome.accept_neg hr' (by simpa using hcomma) (Outcome.pure hone)
    · rename_i hrest
      exact Outcome.accept_neg (hrest ▸ hone) (by decide) (Outcome.pure hone)

/-- Items in parentheses, behind the one that opens them. -/
theorem follows_enclosed (hitems : Follows items room (separated rule)) {close : Expectation} :
    Follows (fun fuel => enclosed (items fuel) close) room (Grammar.enclosed rule close) := by
  intro r tokens hr
  have hsome (hkind : nextKind tokens ≠ .rightParen) :
      Outcome (fun fuel => enclosed (items fuel) close) r
        (Grammar.enclosed.go rule close tokens) := by
    refine Outcome.bind hr (Outcome.check_neg hr hkind (hitems hr)) fun as _ hr' => ?_
    exact Outcome.bind hr' (follows_consume (by decide) hr') fun paren _ hr'' => Outcome.pure hr''
  cases tokens with
  | nil => exact hsome (by decide)
  | cons t rest =>
    rw [Grammar.enclosed]
    split
    · rename_i hclose
      have hnone : Ends (fun fuel => do if ← check .rightParen then return [] else items fuel) r
          (.ok [], r) :=
        Ends.bind_ok (.of_on (check_on hr)) (by simpa [hclose] using Ends.of_on rfl)
      have hparen : (consume .rightParen close).on r = some (.ok t, r.leaving rest) := by
        rw [consume, on_bind_ok (check_on hr), if_pos (by simp [hclose])]
        exact advance_on hr
      exact Outcome.silent hnone (Outcome.taken hr (.of_on hparen)
        (Outcome.pure (hr.leaving (List.suffix_cons t rest))))
    · rename_i hopen
      exact hsome hopen

end

/-! ## Expressions -/

theorem follows_operands {ops : List TokenKind} {tighter : List (List TokenKind)} {next : Rule Expr}
    (hops : .eof ∉ ops) (hnext : Follows (operation · tighter) room next) (left : Expr) :
    Follows (operands · ops tighter left) room (joined ops next left) := by
  intro r tokens hr
  induction left, tokens using joined.induct ops generalizing r with
  | case1 left op rest hop ih =>
    refine Outcome.succ ?_
    simp only [operands]
    rw [joined, if_pos hop]
    refine Outcome.accept_previous hr hop fun hr' => ?_
    refine Outcome.bind hr' (hnext hr') fun right _ hr'' => ?_
    exact (ih right hr'').ok fun whole => ⟨_, rfl⟩
  | case2 left op rest hop =>
    refine Outcome.succ ?_
    simp only [operands]
    rw [joined, if_neg hop]
    exact Outcome.accept_neg hr hop (Outcome.pure hr)
  | case3 left =>
    refine Outcome.succ ?_
    simp only [operands]
    rw [joined]
    exact Outcome.accept_neg hr hops (Outcome.pure hr)

theorem follows_operation {rule : Rule Expr} (hunary : Follows unary room rule)
    {levels : List (List TokenKind)} (hlevels : ∀ ops ∈ levels, TokenKind.eof ∉ ops) :
    Follows (operation · levels) room (levels.foldr level rule) := by
  induction levels with
  | nil =>
    intro r tokens hr
    refine Outcome.succ ?_
    simp only [operation]
    exact hunary hr
  | cons ops tighter ih =>
    have htighter : Follows (operation · tighter) room (tighter.foldr level rule) :=
      ih fun ops hops => hlevels ops (List.mem_cons_of_mem _ hops)
    intro r tokens hr
    refine Outcome.succ ?_
    simp only [operation]
    refine Outcome.bind hr (htighter hr) fun first _ hr' => ?_
    exact (follows_operands (hlevels ops List.mem_cons_self) htighter first.value hr').ok
      fun whole => ⟨_, rfl⟩

section

variable {nestedRule inner : Rule Expr}
  (hnested : Follows (fun fuel => nested (unary fuel)) room nestedRule)
  (hinner : Follows expression room inner)

include hinner

/-- The choices are made in the order of the descent. -/
theorem follows_primary {t : Token} {rest : List Token} (hr : r.Has room (t :: rest))
    (hbang : t.kind ≠ .bang) (hminus : t.kind ≠ .minus) :
    Outcome primary r (operandOf nestedRule inner (t :: rest)) := by
  refine Outcome.succ ?_
  simp only [primary]
  refine Outcome.silent (.of_on (peek_cons_on hr)) ?_
  by_cases hfalse : t.kind = .falseWord
  · simp only [operandOf, hfalse]
    exact Outcome.accept_pos hr (by simp [hfalse]) fun hr' => Outcome.pure hr'
  refine Outcome.accept_neg hr (by simpa using hfalse) ?_
  by_cases htrue : t.kind = .trueWord
  · simp only [operandOf, htrue]
    exact Outcome.accept_pos hr (by simp [htrue]) fun hr' => Outcome.pure hr'
  refine Outcome.accept_neg hr (by simpa using htrue) ?_
  by_cases hvalue : t.kind = .number ∨ t.kind = .string
  · have hliteral : operandOf nestedRule inner (t :: rest) =
        .ok ⟨.literal t.pos t.value, rest, length_lt_cons t rest⟩ := by
      rcases hvalue with hkind | hkind <;> simp only [operandOf, hkind]
    rw [hliteral]
    exact Outcome.accept_pos hr (by simpa using hvalue) fun hr' => Outcome.pure hr'
  refine Outcome.accept_neg hr (by simpa using hvalue) ?_
  by_cases hidentifier : t.kind = .identifier
  · simp only [operandOf, hidentifier]
    refine Outcome.accept_pos hr (by simp [hidentifier]) fun hr' => ?_
    split
    · rename_i paren rest'
      split
      · rename_i hopen
        refine Outcome.accept_pos hr' (by simp [hopen]) fun hr'' => ?_
        refine Outcome.succ ?_
        simp only [call]
        have harguments : Follows arguments room (separated inner) :=
          follows_separated hinner fun fuel => by rw [arguments]
        exact Outcome.bind hr'' (follows_enclosed harguments hr'') fun args _ hargs =>
          Outcome.pure hargs
      · rename_i hopen
        exact Outcome.accept_neg hr' (by simpa using hopen) (Outcome.pure hr')
    · exact Outcome.accept_neg hr' (by decide) (Outcome.pure hr')
  refine Outcome.accept_neg hr (by simpa using hidentifier) ?_
  by_cases hopen : t.kind = .leftParen
  · simp only [operandOf, hopen]
    refine Outcome.accept_pos hr (by simp [hopen]) fun hr' => ?_
    refine Outcome.bind hr' (hinner hr') fun e _ he => ?_
    exact Outcome.bind he (follows_consume (by decide) he) fun _ _ hclose => Outcome.pure hclose
  refine Outcome.accept_neg hr (by simpa using hopen) ?_
  have hother : operandOf nestedRule inner (t :: rest) =
      .error ⟨.expected .expression, t :: rest⟩ := by
    unfold operandOf
    dsimp only
    split <;> simp_all
  rw [hother]
  exact Outcome.fail hr (by decide)

include hnested

theorem follows_unary_of : Follows unary room (operandOf nestedRule inner) := by
  intro r tokens hr
  refine Outcome.succ ?_
  simp only [unary]
  cases tokens with
  | nil =>
    -- an end token is none of those that an operand starts with
    refine Outcome.accept_neg hr (by decide) ?_
    obtain ⟨t, hpeek, -, -⟩ := peek_on hr
    refine Outcome.succ ?_
    simp only [primary]
    refine Outcome.silent (.of_on hpeek) ?_
    refine Outcome.accept_neg hr (by decide) <| Outcome.accept_neg hr (by decide) <|
      Outcome.accept_neg hr (by decide) <| Outcome.accept_neg hr (by decide) <|
      Outcome.accept_neg hr (by decide) <| ?_
    exact Outcome.fail hr (by decide)
  | cons t rest =>
    by_cases hkind : t.kind ∈ [TokenKind.bang, .minus]
    · have hprefixed : operandOf nestedRule inner (t :: rest) = nestedRule rest >>= fun e =>
          .ok ⟨.unary t.pos t.lexeme e.value, e.rest, Nat.lt_succ_of_lt e.lt⟩ := by
        unfold operandOf
        simp only [List.mem_cons, List.not_mem_nil, or_false] at hkind
        rcases hkind with hbang | hminus
        · simp only [hbang]
          rfl
        · simp only [hminus]
          rfl
      rw [hprefixed]
      refine Outcome.accept_previous hr hkind fun hr' => ?_
      exact Outcome.bind hr' (hnested hr') fun e _ he => Outcome.pure he
    · refine Outcome.accept_neg hr hkind ?_
      simp only [List.mem_cons, List.not_mem_nil, or_false, not_or] at hkind
      exact follows_primary hinner hr hkind.1 hkind.2

end

theorem follows_expression_of {rule : Rule Expr}
    (h : Follows (fun fuel => nested (operation fuel levels)) room rule) :
    Follows expression room rule := by
  intro r tokens hr
  refine Outcome.succ ?_
  simp only [expression]
  exact h hr

theorem follows_unary (room : Nat) : Follows unary room (operand room) := by
  induction room with
  | zero =>
    exact follows_unary_of follows_nested_tooDeep (follows_expression_of follows_nested_tooDeep)
  | succ room ih =>
    exact follows_unary_of (follows_nested ih)
      (follows_expression_of (follows_nested (follows_operation ih (by decide))))

theorem follows_expression (room : Nat) : Follows expression room (Grammar.expression room) := by
  cases room with
  | zero => exact follows_expression_of follows_nested_tooDeep
  | succ room =>
    exact follows_expression_of
      (follows_nested (follows_operation (follows_unary room) (by decide)))

/-! ## Statements -/

theorem startsReturnValue_on {word : Token} (hr : r.Has room tokens) :
    (startsReturnValue word).on r = some (.ok (returnsValue word tokens), r) := by
  obtain ⟨t, hpeek, hkind, ht⟩ := peek_on hr
  rw [startsReturnValue, on_bind_ok hpeek]
  cases tokens with
  | nil =>
    rw [if_pos (by simp [hkind])]
    rfl
  | cons u rest =>
    obtain rfl := Option.some.inj (hr.next.symm.trans ht)
    have hend : u.kind ≠ .eof := hr.inner u List.mem_cons_self
    split
    · rename_i hends
      have hbare : returnsValue word (u :: rest) = false := by
        simp only [List.mem_cons, List.not_mem_nil, or_false, hend] at hends
        rcases hends with hends | hends <;> simp [returnsValue, hends]
      rw [hbare]
      rfl
    · rename_i hends
      simp only [List.mem_cons, List.not_mem_nil, or_false, not_or] at hends
      split
      · rename_i hstarts
        have hbare : returnsValue word (u :: rest) = false := by simp [returnsValue, hstarts]
        rw [hbare]
        rfl
      · rename_i hstarts
        have hvalue : returnsValue word (u :: rest) = (u.pos.line == word.pos.line) := by
          simp [returnsValue, hends, hstarts]
        rw [hvalue]
        rfl

end Descent

namespace Grammar

/-- The statements of a block, without its closing brace. -/
def contents (statement : Rule Stmt) (tokens : List Token) :
    Except Failure (Parsed (List Stmt) (tokens.length + 1)) :=
  match tokens with
  | [] => .ok ⟨[], [], Nat.succ_pos _⟩
  | t :: rest =>
    if t.kind = .semicolon then do
      let later ← contents statement rest
      return later.weaken (Nat.le_succ _)
    else if t.kind = .rightBrace then .ok ⟨[], t :: rest, Nat.lt_succ_self _⟩
    else do
      let first ← statement (t :: rest)
      have hlt := first.lt
      let later ← contents statement first.rest
      return ⟨first.value :: later.value, later.rest,
        Nat.lt_of_lt_of_le later.lt (Nat.le_succ_of_le hlt)⟩
termination_by tokens.length
decreasing_by
  · exact Nat.lt_succ_self _
  · exact hlt

/-- A block is read by reading what it contains, and then its closing brace. -/
theorem statements_eq (statement : Rule Stmt) (tokens : List Token) :
    statements statement tokens = contents statement tokens >>= fun body =>
      expect .rightBrace .blockClose body.rest >>= fun brace =>
        .ok ⟨body.value, brace.rest, Nat.lt_of_lt_of_le brace.lt (Nat.le_of_lt_succ body.lt)⟩ := by
  induction tokens using contents.induct with
  | case1 =>
    rw [statements, contents]
    rfl
  | case2 t rest hsep ih =>
    rw [statements, contents, if_pos hsep, if_pos hsep, ih]
    cases contents statement rest with
    | error failure => rfl
    | ok p =>
      change (expect _ _ p.rest >>= _) >>= _ = expect _ _ p.rest >>= _
      cases expect .rightBrace .blockClose p.rest <;> rfl
  | case3 t rest hsep hbrace =>
    rw [statements, contents, if_neg hsep, if_neg hsep, if_pos hbrace, if_pos hbrace]
    change _ = expect _ _ (t :: rest) >>= _
    rw [expect, if_pos hbrace]
    rfl
  | case4 t rest hsep hbrace ih =>
    rw [statements, contents, if_neg hsep, if_neg hsep, if_neg hbrace, if_neg hbrace]
    cases statement (t :: rest) with
    | error failure => rfl
    | ok first =>
      change (statements statement first.rest >>= _) = (contents statement first.rest >>= _) >>= _
      rw [ih]
      cases contents statement first.rest with
      | error failure => rfl
      | ok p =>
        change (expect _ _ p.rest >>= _) >>= _ = expect _ _ p.rest >>= _
        cases expect .rightBrace .blockClose p.rest <;> rfl

end Grammar

namespace Descent

variable {room : Nat} {r : Reader} {tokens : List Token}

/-- No statement is read in front of the end, so what one does there is not asked for.  Without room
the rule and the descent would not agree on it. -/
theorem follows_statements {rule : Rule Stmt}
    (hstatement : ∀ ⦃r : Reader⦄ ⦃t : Token⦄ ⦃rest : List Token⦄, r.Has room (t :: rest) →
      Outcome statement r (rule (t :: rest))) :
    Follows statements room (contents rule) := by
  intro r tokens hr
  induction tokens using contents.induct generalizing r with
  | case1 =>
    refine Outcome.succ ?_
    simp only [statements]
    rw [contents]
    refine Outcome.no_separator hr nofun ?_
    exact Outcome.check_neg hr nofun (Outcome.check_pos hr rfl (Outcome.pure hr))
  | case2 t rest hsep ih =>
    refine Outcome.succ ?_
    simp only [statements]
    rw [contents, if_pos hsep]
    -- the rule starts anew behind the separator, and the descent goes on skipping
    have hlater := (ih (hr.leaving (List.suffix_cons t rest))).unroll
    simp only [statements] at hlater
    exact (Outcome.separator hr hsep hlater).ok fun later => ⟨_, rfl⟩
  | case3 t rest hsep hbrace =>
    refine Outcome.succ ?_
    simp only [statements]
    rw [contents, if_neg hsep, if_pos hbrace]
    refine Outcome.no_separator hr hsep ?_
    exact Outcome.check_pos hr hbrace (Outcome.pure hr)
  | case4 t rest hsep hbrace ih =>
    refine Outcome.succ ?_
    simp only [statements]
    rw [contents, if_neg hsep, if_neg hbrace]
    refine Outcome.no_separator hr hsep ?_
    refine Outcome.check_neg hr hbrace (Outcome.check_neg hr (hr.inner t List.mem_cons_self) ?_)
    refine Outcome.bind hr (hstatement hr) fun first _ hr' => ?_
    exact Outcome.bind hr' (ih first hr') fun later _ hlater => Outcome.pure hlater

/-- A block whose statements are read by a rule that stops in front of the closing brace. -/
theorem follows_block_of {inside : Continuation (List Stmt)} {body : Rule (List Stmt)}
    (hinside : Follows (fun fuel => nested (statements fuel)) room inside)
    (hbody : ∀ tokens, body tokens = inside tokens >>= fun body =>
      expect .rightBrace .blockClose body.rest >>= fun brace =>
        .ok ⟨body.value, brace.rest, Nat.lt_of_lt_of_le brace.lt (Nat.le_of_lt_succ body.lt)⟩) :
    Follows block room (braced body) := by
  intro r tokens hr
  refine Outcome.succ ?_
  simp only [block]
  rw [braced]
  refine Outcome.bind hr (follows_consume (by decide) hr) fun brace _ hr' => ?_
  refine Outcome.ok (x := body brace.rest) ?_ fun p => ⟨_, rfl⟩
  rw [hbody]
  refine Outcome.bind hr' (hinside hr') fun ss _ hr'' => ?_
  exact Outcome.bind hr'' (follows_consume (by decide) hr'') fun _ _ hclose => Outcome.pure hclose

section

variable {E : Rule Expr} {B : Rule (List Stmt)} (hE : Follows expression room E)
  (hB : Follows block room B)
include hE hB

theorem follows_chain : Follows chain room (Grammar.chain E B) := by
  have hfinal {r : Reader} {tokens : List Token} {bound : Nat} (h : tokens.length < bound)
      (hr : r.Has room tokens) :
      Outcome (fun fuel => do return .otherwise (← block fuel)) r
        (Grammar.chain.final B tokens h) :=
    Outcome.bind hr (hB hr) fun body _ hbody => Outcome.pure hbody
  intro r tokens hr
  induction tokens using Grammar.chain.induct generalizing r with
  | case1 word hword word' rest hif ih =>
    refine Outcome.succ ?_
    simp only [chain]
    rw [Grammar.chain, if_pos hword, if_pos hif]
    refine Outcome.accept_pos hr (by simp [hword]) fun hr' => ?_
    refine Outcome.accept_pos hr' (by simp [hif]) fun hr'' => ?_
    refine Outcome.bind hr'' (hE hr'') fun cond _ hcond => ?_
    refine Outcome.bind hcond (hB hcond) fun body _ hbody => ?_
    exact Outcome.bind hbody (ih cond body hbody) fun later _ hlater => Outcome.pure hlater
  | case2 word hword word' rest hif =>
    refine Outcome.succ ?_
    simp only [chain]
    rw [Grammar.chain, if_pos hword, if_neg hif]
    refine Outcome.accept_pos hr (by simp [hword]) fun hr' => ?_
    exact Outcome.accept_neg hr' (by simpa using hif) (hfinal _ hr')
  | case3 word hword =>
    refine Outcome.succ ?_
    simp only [chain]
    rw [Grammar.chain.eq_def]
    simp only [if_pos hword]
    refine Outcome.accept_pos hr (by simp [hword]) fun hr' => ?_
    exact Outcome.accept_neg hr' (by decide) (hfinal _ hr')
  | case4 word rest hword =>
    refine Outcome.succ ?_
    simp only [chain]
    rw [Grammar.chain.eq_def]
    simp only [if_neg hword]
    exact Outcome.accept_neg hr (by simpa using hword) (Outcome.pure hr)
  | case5 =>
    refine Outcome.succ ?_
    simp only [chain]
    rw [Grammar.chain]
    exact Outcome.accept_neg hr (by decide) (Outcome.pure hr)

theorem follows_statement_of {t : Token} {rest : List Token} (hr : r.Has room (t :: rest)) :
    Outcome statement r (statementOf E B (t :: rest)) := by
  refine Outcome.succ ?_
  simp only [statement]
  refine Outcome.silent (.of_on (peek_cons_on hr)) ?_
  by_cases hlet : t.kind = .letWord
  · simp only [statementOf, hlet]
    refine Outcome.accept_pos hr (by simp [hlet]) fun hr' => ?_
    refine Outcome.bind hr' (follows_consume (by decide) hr') fun name _ hname => ?_
    refine Outcome.bind hname (follows_consume (by decide) hname) fun sign _ hsign => ?_
    exact Outcome.bind hsign (hE hsign) fun value _ hvalue => Outcome.pure hvalue
  refine Outcome.accept_neg hr (by simpa using hlet) ?_
  by_cases hloop : t.kind = .loopWord
  · simp only [statementOf, hloop]
    refine Outcome.accept_pos hr (by simp [hloop]) fun hr' => ?_
    exact Outcome.bind hr' (hB hr') fun body _ hbody => Outcome.pure hbody
  refine Outcome.accept_neg hr (by simpa using hloop) ?_
  by_cases hif : t.kind = .ifWord
  · simp only [statementOf, hif]
    refine Outcome.accept_pos hr (by simp [hif]) fun hr' => ?_
    refine Outcome.bind hr' (hE hr') fun cond _ hcond => ?_
    refine Outcome.bind hcond (hB hcond) fun body _ hbody => ?_
    exact Outcome.bind hbody (follows_chain hE hB hbody) fun later _ hlater => Outcome.pure hlater
  refine Outcome.accept_neg hr (by simpa using hif) ?_
  by_cases hreturn : t.kind = .returnWord
  · simp only [statementOf, hreturn]
    refine Outcome.accept_pos hr (by simp [hreturn]) fun hr' => ?_
    refine Outcome.silent (.of_on (startsReturnValue_on hr')) ?_
    split
    · exact Outcome.bind hr' (hE hr') fun value _ hvalue => Outcome.pure hvalue
    · exact Outcome.pure hr'
  refine Outcome.accept_neg hr (by simpa using hreturn) ?_
  by_cases hbreak : t.kind = .breakWord
  · simp only [statementOf, hbreak]
    exact Outcome.accept_pos hr (by simp [hbreak]) fun hr' => Outcome.pure hr'
  refine Outcome.accept_neg hr (by simpa using hbreak) ?_
  by_cases hfn : t.kind = .fnWord
  · simp only [statementOf, hfn]
    exact Outcome.check_pos hr hfn (Outcome.fail hr (by decide))
  refine Outcome.check_neg hr hfn ?_
  refine Outcome.silent (.of_on (check_on hr)) (Outcome.silent (.of_on (checkNext_on hr)) ?_)
  by_cases hassign : t.kind = .identifier ∧ nextKind rest = .equal
  · obtain ⟨hname, hequal⟩ := hassign
    have htest : (nextKind (t :: rest) == .identifier && nextKind rest == .equal) = true := by
      simp [hname, hequal]
    simp only [if_pos htest]
    cases rest with
    | nil => cases hequal
    | cons sign rest =>
      simp only [statementOf, hname, if_pos (show sign.kind = .equal from hequal)]
      refine Outcome.advance hr fun hr' => ?_
      refine Outcome.advance hr' fun hr'' => ?_
      exact Outcome.bind hr'' (hE hr'') fun value _ hvalue => Outcome.pure hvalue
  · have htest : ¬ (nextKind (t :: rest) == .identifier && nextKind rest == .equal) = true := by
      simpa using hassign
    simp only [if_neg htest]
    have hfront : t.kind ∉ statementWords := by
      simp [statementWords, hlet, hloop, hif, hreturn, hbreak, hfn]
    have hsign : t.kind = .identifier → Avoids [.equal] rest := by
      intro hname
      cases rest with
      | nil => trivial
      | cons sign rest => simpa using fun hequal => hassign ⟨hname, hequal⟩
    rw [statementOf_of_plain hfront hsign]
    exact Outcome.bind hr (hE hr) fun e _ he => Outcome.pure he

end

theorem statement_on (room : Nat) {t : Token} {rest : List Token} (hr : r.Has room (t :: rest)) :
    Outcome statement r (Grammar.statement room (t :: rest)) := by
  induction room generalizing r t rest with
  | zero =>
    exact follows_statement_of (follows_expression 0)
      (follows_block_of follows_nested_tooDeep fun _ => rfl) hr
  | succ room ih =>
    exact follows_statement_of (follows_expression (room + 1))
      (follows_block_of (follows_nested (follows_statements fun _ _ _ => ih)) (statements_eq _)) hr

theorem follows_block (room : Nat) : Follows block room (Grammar.block room) := by
  cases room with
  | zero => exact follows_block_of follows_nested_tooDeep fun _ => rfl
  | succ room =>
    exact follows_block_of (follows_nested (follows_statements fun _ _ _ => statement_on room))
      (statements_eq _)

/-! ## Programs -/

theorem function_on {t : Token} {rest : List Token} (hr : r.Has room (t :: rest)) :
    Outcome function r (Grammar.function room t rest) := by
  refine Outcome.advance hr fun hr' => ?_
  refine Outcome.bind hr' (follows_consume (by decide) hr') fun name _ hname => ?_
  refine Outcome.bind hname (follows_consume (by decide) hname) fun paren _ hparen => ?_
  have hparams : Follows parameters room (separated (expect .identifier .parameterName)) :=
    follows_separated (follows_consume (by decide)) fun fuel => by rw [parameters]
  refine Outcome.bind hparen (follows_enclosed hparams hparen) fun params _ hbody => ?_
  exact Outcome.bind hbody (follows_block room hbody) fun body _ hrest => Outcome.pure hrest

/-- What is read of a program leaves nothing over. -/
def toEnd (items : List Stmt) : Parsed (List Stmt) 1 :=
  ⟨items, [], Nat.one_pos⟩

/-- One statement or function, and the program behind it. -/
theorem items_more {first : Nat → Descent Stmt} {x : Except Failure (Parsed Stmt n)}
    (hr : r.Has room tokens) (hfirst : Outcome first r x)
    (hlater : ∀ (p : Parsed Stmt n) {r' : Reader}, r'.Has room p.rest →
      Outcome items r' ((program room p.rest).map toEnd)) :
    Outcome (fun fuel => do let s ← first fuel; return s :: (← items fuel)) r
      ((do let s ← x; let later ← program room s.rest; return s.value :: later).map toEnd) := by
  have hmap : (do let s ← x; let later ← program room s.rest; return s.value :: later).map toEnd =
      x >>= fun s => (program room s.rest).map toEnd >>= fun later =>
        .ok ⟨s.value :: later.value, later.rest, later.lt⟩ := by
    cases x with
    | error failure => rfl
    | ok s =>
      change Except.map toEnd (program room s.rest >>= _) = Except.map toEnd _ >>= _
      cases program room s.rest <;> rfl
  rw [hmap]
  refine Outcome.bind hr hfirst fun s _ hs => ?_
  exact Outcome.bind hs (hlater s hs) fun later _ hrest => Outcome.pure hrest

/-- A program takes all tokens ahead, or fails where the rules fail. -/
theorem items_on (hr : r.Has room tokens) :
    Outcome items r ((program room tokens).map toEnd) := by
  induction tokens using program.induct generalizing r with
  | case1 =>
    refine Outcome.succ ?_
    simp only [items]
    rw [program]
    exact Outcome.no_separator hr nofun (Outcome.check_pos hr rfl (Outcome.pure hr))
  | case2 t rest hsep ih =>
    refine Outcome.succ ?_
    simp only [items]
    rw [program, if_pos hsep]
    have hlater := (ih (hr.leaving (List.suffix_cons t rest))).unroll
    simp only [items] at hlater
    exact Outcome.separator hr hsep hlater
  | case3 t rest hsep hfn ih =>
    refine Outcome.succ ?_
    simp only [items]
    rw [program, if_neg hsep, if_pos hfn]
    refine Outcome.no_separator hr hsep ?_
    refine Outcome.check_neg hr (hr.inner t List.mem_cons_self) ?_
    exact items_more hr (Outcome.check_pos hr hfn (function_on hr)) ih
  | case4 t rest hsep hfn ih =>
    refine Outcome.succ ?_
    simp only [items]
    rw [program, if_neg hsep, if_neg hfn]
    refine Outcome.no_separator hr hsep ?_
    refine Outcome.check_neg hr (hr.inner t List.mem_cons_self) ?_
    exact items_more hr (Outcome.check_neg hr hfn (statement_on room hr)) ih

end Descent

/-- A call is what a reader does that reads a program. -/
theorem Reader.parse_eq_settle (r : Reader) :
    r.parse =
      let settled := r.settle ((program (maxNesting - r.depth) r.ahead).map Descent.toEnd)
      (settled.1.map Program.mk, settled.2) := by
  rw [Reader.parse]
  cases program (maxNesting - r.depth) r.ahead <;> rfl

/-- **Descending reads what the rules read**, and comes to an end. -/
theorem Descent.parse_ends {r : Reader} {room : Nat} {tokens : List Token}
    (hr : r.Has room tokens) : Ends parse r r.parse := by
  obtain ⟨-, hends⟩ := items_on hr
  obtain rfl := hr.ahead_eq
  obtain rfl := hr.room
  rw [r.parse_eq_settle]
  cases hprogram : program (maxNesting - r.depth) r.ahead with
  | ok items =>
    rw [hprogram] at hends
    exact hends.bind_ok (.of_on rfl)
  | error failure =>
    rw [hprogram] at hends
    exact hends.bind_error

end Octet
