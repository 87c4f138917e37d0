import Octet.Proofs.Tree.Greedy
import Octet.Proofs.Tree.Stuck

/-!
# The rules fail where reading gets stuck

A rule fails with a fault and some tokens left over if and only if reading gets stuck there, with
something open (`GetsStuck`).  Together with the equivalences for what the rules yield this settles
what a rule does; `program_eq_error_iff` is the statement for whole programs.
-/

namespace Octet
namespace Grammar

section

variable {α β : Type} {m n : Nat} {failure : Failure} {r : Except Failure (Parsed α m)}
  {f : Parsed α m → Except Failure (Parsed β n)}

/-- Of two readings one after the other, the first fails or the second does. -/
theorem bind_eq_error :
    r >>= f = .error failure ↔
      r = .error failure ∨
        ∃ a later hlt, Yields r a later ∧ f ⟨a, later, hlt⟩ = .error failure := by
  constructor
  · intro h
    cases r with
    | error failure' =>
      cases h
      exact .inl rfl
    | ok p => exact .inr ⟨p.value, p.rest, p.lt, .ok p, h⟩
  · rintro (rfl | ⟨a, later, _, ⟨_, rfl⟩, h⟩)
    · rfl
    · exact h

theorem bind_error (h : r = .error failure) : r >>= f = .error failure :=
  bind_eq_error.2 (.inl h)

theorem Yields.bind_error {a : α} {later : List Token} (h : Yields r a later)
    (h' : ∀ hlt, f ⟨a, later, hlt⟩ = .error failure) : r >>= f = .error failure :=
  bind_eq_error.2 (.inr ⟨a, later, h.choose, h, h' _⟩)

end

/-- Where a rule fails, reading gets stuck, and conversely. -/
def GetsStuck {α δ : Type} (rule : Rule α) (F : Stuck δ) : Prop :=
  ∀ {fault : ParseFault} {tokens rest : List Token},
    rule tokens = .error ⟨fault, rest⟩ ↔ ∃ d, F fault d tokens rest

theorem expect_eq_error {kind : TokenKind} {what : Expectation} {fault : ParseFault}
    {tokens rest : List Token} :
    expect kind what tokens = .error ⟨fault, rest⟩ ↔
      Avoids [kind] tokens ∧ fault = .expected what ∧ rest = tokens := by
  cases tokens with
  | nil =>
    rw [expect]
    simp [eq_comm]
  | cons t tokens =>
    rw [expect]
    split
    · rename_i hkind
      simp [hkind]
    · rename_i hkind
      constructor
      · rintro ⟨⟩
        exact ⟨by simpa using hkind, rfl, rfl⟩
      · rintro ⟨-, rfl, rfl⟩
        rfl

/-- A token of another kind is not what is expected. -/
theorem expect_of_avoids {kind : TokenKind} {what : Expectation} {tokens : List Token}
    (h : Avoids [kind] tokens) : expect kind what tokens = .error ⟨.expected what, tokens⟩ :=
  expect_eq_error.2 ⟨h, rfl, rfl⟩

theorem getsStuck_expect {δ : Type} (kind : TokenKind) (what : Expectation) (here : δ) :
    GetsStuck (expect kind what) (Stuck.Lacks kind what here) := by
  intro fault tokens rest
  rw [expect_eq_error]
  constructor
  · rintro ⟨h, rfl, rfl⟩
    exact ⟨here, .intro h⟩
  · rintro ⟨d, ⟨h⟩⟩
    exact ⟨h, rfl, rfl⟩

theorem getsStuck_tooDeep {α δ : Type} (here : δ) :
    GetsStuck (tooDeep : Rule α) (Stuck.Crowded here) := by
  intro fault tokens rest
  constructor
  · rintro ⟨⟩
    exact ⟨here, .intro⟩
  · rintro ⟨d, ⟨⟩⟩
    rfl

theorem GetsStuck.within {α : Type} {rule : Rule α} {F : Stuck Nat} (h : GetsStuck rule F) :
    GetsStuck rule (Stuck.Within F) := by
  intro fault tokens rest
  rw [h]
  constructor
  · rintro ⟨n, hn⟩
    exact ⟨n + 1, .intro hn⟩
  · rintro ⟨_, ⟨hn⟩⟩
    exact ⟨_, hn⟩

/-! ## Lists -/

section

variable {α : Type} {item : Rule α} {R : Spelling α} {F : Stuck Nat}

theorem getsStuck_separated (hR : Finds item R) (hF : GetsStuck item F) :
    GetsStuck (separated item) (Stuck.Separated R F) := by
  intro fault tokens rest
  constructor
  · intro h
    induction hlength : tokens.length using Nat.strongRecOn generalizing tokens with
    | _ n ih =>
      subst hlength
      rw [separated] at h
      rcases bind_eq_error.1 h with h | ⟨a, later, hlt, ha, h⟩
      · obtain ⟨d, hd⟩ := hF.1 h
        exact ⟨d, .item hd⟩
      · split at h
        · rename_i t us hrest
          obtain rfl : later = t :: us := hrest
          split at h
          · rename_i hcomma
            rcases bind_eq_error.1 h with h | ⟨_, _, _, _, h⟩
            · obtain ⟨d, hd⟩ := ih us.length (Nat.lt_of_succ_lt hlt) h rfl
              exact ⟨d, .later (hR.1 ha) hcomma hd⟩
            · cases h
          · cases h
        · cases h
  · rintro ⟨d, hd⟩
    induction hd with
    | item hd =>
      rw [separated]
      exact bind_error (hF.2 ⟨_, hd⟩)
    | @later a comma fault n tokens later rest ha hcomma _ ih =>
      rw [separated]
      refine (hR.2 ha).bind_error fun _ => ?_
      split
      · rename_i t us heq
        obtain ⟨rfl, rfl⟩ : comma = t ∧ later = us := by simpa using heq
        rw [if_pos hcomma]
        exact bind_error ih
      · rename_i heq
        cases heq

theorem enclosed_go_eq_error (hR : Finds item R) (hF : GetsStuck item F) (close : Expectation)
    {fault : ParseFault} {tokens rest : List Token} (hfront : Avoids [.rightParen] tokens) :
    enclosed.go item close tokens = .error ⟨fault, rest⟩ ↔
      ∃ n, Stuck.Enclosed R F close fault n tokens rest := by
  rw [enclosed.go]
  constructor
  · intro h
    rcases bind_eq_error.1 h with h | ⟨as, later, _, has, h⟩
    · obtain ⟨n, hn⟩ := (getsStuck_separated hR hF).1 h
      exact ⟨n, .item hfront hn⟩
    · rcases bind_eq_error.1 h with h | ⟨_, _, _, _, h⟩
      · obtain ⟨hparen, rfl, rfl⟩ := expect_eq_error.1 h
        exact ⟨0, .close hfront ((finds_separated hR).1 has) hparen⟩
      · cases h
  · rintro ⟨n, hn⟩
    cases hn with
    | item _ hn => exact bind_error ((getsStuck_separated hR hF).2 ⟨n, hn⟩)
    | close _ has hparen =>
      exact ((finds_separated hR).2 has).bind_error fun _ => bind_error (expect_of_avoids hparen)

theorem getsStuck_enclosed (hR : Finds item R) (hF : GetsStuck item F) (close : Expectation) :
    GetsStuck (enclosed item close) (Stuck.Enclosed R F close) := by
  intro fault tokens rest
  have hgo : Avoids [.rightParen] tokens → (enclosed.go item close tokens = .error ⟨fault, rest⟩ ↔
      ∃ n, Stuck.Enclosed R F close fault n tokens rest) := enclosed_go_eq_error hR hF close
  cases tokens with
  | nil => exact hgo trivial
  | cons t tokens =>
    unfold enclosed
    dsimp only
    split
    · rename_i hkind
      constructor
      · rintro ⟨⟩
      · rintro ⟨n, hn⟩
        cases hn with
        | item hfront _ => exact absurd hkind (kind_ne hfront (by decide))
        | close hfront _ _ => exact absurd hkind (kind_ne hfront (by decide))
    · rename_i hkind
      exact hgo (by simpa using hkind)

end

/-! ## Expressions -/

section

variable {next : Rule Expr} {R : Spelling Expr} {F : Stuck Nat}

theorem joined_eq_error (hR : Finds next R) (hF : GetsStuck next F) {ops : List TokenKind}
    {left : Expr} {fault : ParseFault} {tokens rest : List Token} :
    joined ops next left tokens = .error ⟨fault, rest⟩ ↔
      ∃ n, Stuck.Joined ops R F fault n tokens rest := by
  constructor
  · intro h
    induction hlength : tokens.length using Nat.strongRecOn generalizing left tokens with
    | _ n ih =>
      subst hlength
      cases tokens with
      | nil =>
        rw [joined] at h
        cases h
      | cons op tokens =>
        rw [joined] at h
        split at h
        · rename_i hop
          rcases bind_eq_error.1 h with h | ⟨right, later, hlt, hright, h⟩
          · obtain ⟨n, hn⟩ := hF.1 h
            exact ⟨n, .operand hop hn⟩
          · rcases bind_eq_error.1 h with h | ⟨_, _, _, _, h⟩
            · obtain ⟨n, hn⟩ := ih later.length (Nat.lt_succ_of_lt hlt) h rfl
              exact ⟨n, .later hop (hR.1 hright) hn⟩
            · cases h
        · cases h
  · rintro ⟨n, hn⟩
    induction hn generalizing left with
    | operand hop hn =>
      rw [joined, if_pos hop]
      exact bind_error (hF.2 ⟨_, hn⟩)
    | later hop hright _ ih =>
      rw [joined, if_pos hop]
      exact (hR.2 hright).bind_error fun _ => bind_error ih

theorem getsStuck_level (hR : Finds next R) (hF : GetsStuck next F) (ops : List TokenKind) :
    GetsStuck (level ops next) (Stuck.LeftAssoc ops R F) := by
  intro fault tokens rest
  rw [level]
  constructor
  · intro h
    rcases bind_eq_error.1 h with h | ⟨first, later, _, hfirst, h⟩
    · obtain ⟨n, hn⟩ := hF.1 h
      exact ⟨n, .first hn⟩
    · rcases bind_eq_error.1 h with h | ⟨_, _, _, _, h⟩
      · obtain ⟨n, hn⟩ := (joined_eq_error hR hF).1 h
        exact ⟨n, .later (hR.1 hfirst) hn⟩
      · cases h
  · rintro ⟨n, hn⟩
    cases hn with
    | first hn => exact bind_error (hF.2 ⟨n, hn⟩)
    | later hfirst hn =>
      exact (hR.2 hfirst).bind_error fun _ => bind_error ((joined_eq_error hR hF).2 ⟨n, hn⟩)

theorem getsStuck_operation (hR : Finds next R) (hF : GetsStuck next F) :
    GetsStuck (operation next) (Stuck.Operation R F) := by
  have hclimbing : ∀ others : List (List TokenKind),
      Finds (others.foldr level next) (others.foldr (LeftAssoc .greedy) R) ∧
        GetsStuck (others.foldr level next) (Stuck.Climbing R F others) := by
    intro others
    induction others with
    | nil => exact ⟨hR, hF⟩
    | cons ops others ih => exact ⟨finds_level ih.1 ops, getsStuck_level ih.1 ih.2 ops⟩
  intro fault tokens rest
  exact (hclimbing levels).2

/-- An operand starts like an expression. -/
theorem operandOf_of_avoids {nested inner : Rule Expr} {tokens : List Token}
    (h : Avoids expressionStarts tokens) :
    operandOf nested inner tokens = .error ⟨.expected .expression, tokens⟩ := by
  cases tokens with
  | nil => rfl
  | cons t tokens =>
    unfold operandOf
    dsimp only
    split
    · exact absurd ‹_› (kind_ne h (by decide))
    · exact absurd ‹_› (kind_ne h (by decide))
    · exact absurd ‹_› (kind_ne h (by decide))
    · exact absurd ‹_› (kind_ne h (by decide))
    · exact absurd ‹_› (kind_ne h (by decide))
    · exact absurd ‹_› (kind_ne h (by decide))
    · exact absurd ‹_› (kind_ne h (by decide))
    · exact absurd ‹_› (kind_ne h (by decide))
    · rfl

theorem getsStuck_operandOf {nested inner : Rule Expr} {Q : Spelling Expr} {F G : Stuck Nat}
    (hF : GetsStuck nested F) (hQ : Finds inner Q) (hG : GetsStuck inner G) :
    GetsStuck (operandOf nested inner) (Stuck.OperandOf Q F G) := by
  intro fault tokens rest
  constructor
  · intro h
    cases tokens with
    | nil =>
      obtain ⟨rfl, rfl⟩ : .expected .expression = fault ∧ [] = rest := by
        simpa [operandOf] using h
      exact ⟨0, .expression trivial⟩
    | cons t tokens =>
      unfold operandOf at h
      dsimp only at h
      split at h
      · rename_i hkind
        rcases bind_eq_error.1 h with h | ⟨_, _, _, _, h⟩
        · obtain ⟨n, hn⟩ := hF.within.1 h
          exact ⟨n, .prefixed (.inl hkind) hn⟩
        · cases h
      · rename_i hkind
        rcases bind_eq_error.1 h with h | ⟨_, _, _, _, h⟩
        · obtain ⟨n, hn⟩ := hF.within.1 h
          exact ⟨n, .prefixed (.inr hkind) hn⟩
        · cases h
      · cases h
      · cases h
      · cases h
      · cases h
      · rename_i hkind
        split at h
        · split at h
          · rename_i hparen
            rcases bind_eq_error.1 h with h | ⟨_, _, _, _, h⟩
            · obtain ⟨n, hn⟩ := (getsStuck_enclosed hQ hG.within _).1 h
              exact ⟨n, .argument hkind hparen hn⟩
            · cases h
          · cases h
        · cases h
      · rename_i hkind
        rcases bind_eq_error.1 h with h | ⟨e, later, _, he, h⟩
        · obtain ⟨n, hn⟩ := hG.within.1 h
          exact ⟨n, .group hkind hn⟩
        · rcases bind_eq_error.1 h with h | ⟨_, _, _, _, h⟩
          · obtain ⟨hclose, rfl, rfl⟩ := expect_eq_error.1 h
            exact ⟨0, .groupClose hkind (hQ.1 he) hclose⟩
          · cases h
      · obtain ⟨rfl, rfl⟩ : .expected .expression = fault ∧ t :: tokens = rest := by
          simpa using h
        refine ⟨0, .expression ?_⟩
        simp only [avoids_cons, expressionStarts, List.mem_cons, List.not_mem_nil, or_false, not_or]
        exact ⟨‹_›, ‹_›, ‹_›, ‹_›, ‹_›, ‹_›, ‹_›, ‹_›⟩
  · rintro ⟨n, hn⟩
    cases hn with
    | prefixed hkind hn =>
      rcases hkind with hkind | hkind
      all_goals
        simp only [operandOf, hkind]
        exact bind_error (hF.within.2 ⟨n, hn⟩)
    | argument hkind hparen hn =>
      simp only [operandOf, hkind, if_pos hparen]
      exact bind_error ((getsStuck_enclosed hQ hG.within _).2 ⟨n, hn⟩)
    | group hkind hn =>
      simp only [operandOf, hkind]
      exact bind_error (hG.within.2 ⟨n, hn⟩)
    | groupClose hkind he hclose =>
      simp only [operandOf, hkind]
      exact (hQ.2 he).bind_error fun _ => bind_error (expect_of_avoids hclose)
    | expression hfront => exact operandOf_of_avoids hfront

theorem getsStuck_operand (room : Nat) : GetsStuck (operand room) (Stuck.Operand room) := by
  induction room with
  | zero => exact getsStuck_operandOf (getsStuck_tooDeep 0) finds_tooDeep (getsStuck_tooDeep 0)
  | succ room ih =>
    exact getsStuck_operandOf ih (finds_operation (finds_operand room))
      (getsStuck_operation (finds_operand room) ih)

theorem getsStuck_expression (room : Nat) :
    GetsStuck (expression room) (Stuck.Expression room) := by
  cases room with
  | zero => exact getsStuck_tooDeep 0
  | succ room => exact getsStuck_operation (finds_operand room) (getsStuck_operand room)

end

/-! ## Statements -/

section

variable {expression : Rule Expr} {block : Rule (List Stmt)} {E : Spelling Expr}
  {B : Spelling (List Stmt)} {F : Stuck Nat} {G : Stuck Nesting}

/-- Inside of a block, reading gets stuck or the tokens end. -/
def GetsStuckInside (inside : Rule (List Stmt)) (unclosed : List Token → Prop)
    (F : Stuck Nesting) : Prop :=
  ∀ {fault : ParseFault} {tokens rest : List Token},
    inside tokens = .error ⟨fault, rest⟩ ↔
      (∃ d, F fault d tokens rest) ∨
        unclosed tokens ∧ fault = .expected .blockClose ∧ rest = []

theorem getsStuck_braced {inside : Rule (List Stmt)} {unclosed : List Token → Prop}
    {F : Stuck Nesting} (h : GetsStuckInside inside unclosed F) :
    GetsStuck (braced inside) (Stuck.Braced unclosed F) := by
  intro fault tokens rest
  rw [braced]
  constructor
  · intro hfails
    rcases bind_eq_error.1 hfails with hfails | ⟨brace, later, _, hbrace, hfails⟩
    · obtain ⟨hopen, rfl, rfl⟩ := expect_eq_error.1 hfails
      exact ⟨.outside, .brace hopen⟩
    · obtain ⟨hkind⟩ := (finds_expect _ _).1 hbrace
      rcases bind_eq_error.1 hfails with hfails | ⟨_, _, _, _, hfails⟩
      · rcases h.1 hfails with ⟨d, hd⟩ | ⟨hunclosed, rfl, rfl⟩
        · exact ⟨d.inBlock, .inside hkind hd⟩
        · exact ⟨.outside, .close hkind hunclosed⟩
      · cases hfails
  · rintro ⟨d, hd⟩
    cases hd with
    | brace hopen => exact bind_error (expect_of_avoids hopen)
    | inside hkind hd =>
      exact (yields_expect _ hkind _).bind_error fun _ => bind_error (h.2 (.inl ⟨_, hd⟩))
    | close hkind hunclosed =>
      exact (yields_expect _ hkind _).bind_error fun _ =>
        bind_error (h.2 (.inr ⟨hunclosed, rfl, rfl⟩))

/-- A rule that is never asked to read nothing fails where reading gets stuck. -/
def GetsStuckAhead {α δ : Type} (rule : Rule α) (F : Stuck δ) : Prop :=
  ∀ {fault : ParseFault} {t : Token} {tokens rest : List Token},
    rule (t :: tokens) = .error ⟨fault, rest⟩ ↔ ∃ d, F fault d (t :: tokens) rest

theorem getsStuckInside_statements {statement : Rule Stmt} {R : Spelling Stmt}
    {F : Stuck Nesting} (hR : Finds statement R) (hF : GetsStuckAhead statement F) :
    GetsStuckInside (statements statement) (Stuck.Unclosed R) (Stuck.Statements R F) := by
  intro fault tokens rest
  constructor
  · intro h
    induction hlength : tokens.length using Nat.strongRecOn generalizing tokens with
    | _ n ih =>
      subst hlength
      cases tokens with
      | nil =>
        rw [statements] at h
        cases h
        exact .inr ⟨.done, rfl, rfl⟩
      | cons t tokens =>
        rw [statements] at h
        split at h
        · rename_i hkind
          rcases bind_eq_error.1 h with h | ⟨_, _, _, _, h⟩
          · rcases ih tokens.length (Nat.lt_succ_self _) h rfl with ⟨d, hd⟩ | ⟨hunclosed, hend⟩
            · exact .inl ⟨d, .skip hkind hd⟩
            · exact .inr ⟨.skip hkind hunclosed, hend⟩
          · cases h
        · rename_i hsep
          split at h
          · cases h
          · rename_i hbrace
            have hfront : t.kind ∉ [TokenKind.semicolon, .rightBrace] := by simp [hsep, hbrace]
            rcases bind_eq_error.1 h with h | ⟨s, later, hlt, hs, h⟩
            · obtain ⟨d, hd⟩ := hF.1 h
              exact .inl ⟨d, .statement hfront hd⟩
            · rcases bind_eq_error.1 h with h | ⟨_, _, _, _, h⟩
              · rcases ih later.length hlt h rfl with ⟨d, hd⟩ | ⟨hunclosed, hend⟩
                · exact .inl ⟨d, .later hfront (hR.1 hs) hd⟩
                · exact .inr ⟨.more hfront (hR.1 hs) hunclosed, hend⟩
              · cases h
  · have hmore : ∀ {s : Stmt} {tokens later : List Token} {failure : Failure},
        Avoids [.semicolon, .rightBrace] tokens → R s tokens later →
        statements statement later = .error failure →
        statements statement tokens = .error failure := by
      intro s tokens later failure hfront hs hlater
      obtain ⟨hlt, hs⟩ := hR.2 hs
      cases tokens with
      | nil => exact absurd hlt (Nat.not_lt_zero _)
      | cons t tokens =>
        rw [statements, if_neg (kind_ne hfront (by decide)), if_neg (kind_ne hfront (by decide))]
        exact Yields.bind_error ⟨hlt, hs⟩ fun _ => bind_error hlater
    rintro (⟨d, hd⟩ | ⟨hunclosed, rfl, rfl⟩)
    · induction hd with
      | statement hfront hd =>
        rw [statements, if_neg (kind_ne hfront (by decide)), if_neg (kind_ne hfront (by decide))]
        exact bind_error (hF.2 ⟨_, hd⟩)
      | skip hkind _ ih =>
        rw [statements, if_pos hkind]
        exact bind_error ih
      | later hfront hs _ ih => exact hmore hfront hs ih
    · induction hunclosed with
      | done => rw [statements]
      | skip hkind _ ih =>
        rw [statements, if_pos hkind]
        exact bind_error ih
      | more hfront hs _ ih => exact hmore hfront hs ih

theorem final_eq_error (hG : GetsStuck block G) {bound : Nat} {fault : ParseFault}
    {tokens rest : List Token} (h : tokens.length < bound) :
    chain.final block tokens h = .error ⟨fault, rest⟩ ↔ ∃ d, G fault d tokens rest := by
  rw [chain.final]
  constructor
  · intro hfails
    rcases bind_eq_error.1 hfails with hfails | ⟨_, _, _, _, hfails⟩
    · exact hG.1 hfails
    · cases hfails
  · intro hd
    exact bind_error (hG.2 hd)

variable (hE : Finds expression E) (hB : Finds block B) (hF : GetsStuck expression F)
  (hG : GetsStuck block G)
include hE hB hF hG

theorem chain_eq_error {fault : ParseFault} {tokens rest : List Token} :
    chain expression block tokens = .error ⟨fault, rest⟩ ↔
      ∃ d, Stuck.ChainOf E B F G fault d tokens rest := by
  constructor
  · intro h
    induction hlength : tokens.length using Nat.strongRecOn generalizing tokens with
    | _ n ih =>
      subst hlength
      cases tokens with
      | nil =>
        rw [chain] at h
        cases h
      | cons word tokens =>
        unfold chain at h
        dsimp only at h
        split at h
        · rename_i hword
          split at h
          · rename_i word' tokens
            split at h
            · rename_i hword'
              rcases bind_eq_error.1 h with h | ⟨cond, later, hlt, hcond, h⟩
              · obtain ⟨n, hn⟩ := hF.1 h
                exact ⟨_, .condition hword hword' hn⟩
              · rcases bind_eq_error.1 h with h | ⟨body, later', hlt', hbody, h⟩
                · obtain ⟨d, hd⟩ := hG.1 h
                  exact ⟨d, .body hword hword' (hE.1 hcond) hd⟩
                · rcases bind_eq_error.1 h with h | ⟨_, _, _, _, h⟩
                  · have hless : later'.length < (word :: word' :: tokens).length :=
                      Nat.lt_succ_of_lt (Nat.lt_succ_of_lt (Nat.lt_trans hlt' hlt))
                    obtain ⟨d, hd⟩ := ih later'.length hless h rfl
                    exact ⟨d, .later hword hword' (hE.1 hcond) (hB.1 hbody) hd⟩
                  · cases h
            · rename_i hword'
              obtain ⟨d, hd⟩ := (final_eq_error hG _).1 h
              exact ⟨d, .otherwise hword (by simpa using hword') hd⟩
          · obtain ⟨d, hd⟩ := (final_eq_error hG _).1 h
            exact ⟨d, .otherwise hword trivial hd⟩
        · cases h
  · rintro ⟨d, hd⟩
    induction hd with
    | @otherwise word fault d tokens rest hword hfront hd =>
      have hfinal : ∀ {bound : Nat} (h : tokens.length < bound),
          chain.final block tokens h = .error ⟨fault, rest⟩ :=
        fun h => (final_eq_error hG h).2 ⟨d, hd⟩
      unfold chain
      dsimp only
      rw [if_pos hword]
      cases tokens with
      | nil => exact hfinal _
      | cons t tokens =>
        dsimp only
        rw [if_neg (kind_ne hfront (by decide))]
        exact hfinal _
    | condition hword hword' hn =>
      unfold chain
      simp only [if_pos hword, if_pos hword']
      exact bind_error (hF.2 ⟨_, hn⟩)
    | body hword hword' hcond hd =>
      unfold chain
      simp only [if_pos hword, if_pos hword']
      exact (hE.2 hcond).bind_error fun _ => bind_error (hG.2 ⟨_, hd⟩)
    | later hword hword' hcond hbody _ ih =>
      unfold chain
      simp only [if_pos hword, if_pos hword']
      exact (hE.2 hcond).bind_error fun _ => (hB.2 hbody).bind_error fun _ => bind_error ih

omit hE hB hG in
theorem bareExpression_eq_error {pos : Pos} {fault : ParseFault} {tokens rest : List Token} :
    bareExpression expression pos tokens = .error ⟨fault, rest⟩ ↔
      ∃ n, F fault n tokens rest := by
  rw [bareExpression]
  constructor
  · intro h
    rcases bind_eq_error.1 h with h | ⟨_, _, _, _, h⟩
    · exact hF.1 h
    · cases h
  · intro hn
    exact bind_error (hF.2 hn)

theorem getsStuckAhead_statementOf :
    GetsStuckAhead (statementOf expression block) (Stuck.StatementOf E B F G) := by
  intro fault t tokens rest
  constructor
  · intro h
    cases front t tokens with
    | letWord hkind =>
      simp only [statementOf, hkind] at h
      rcases bind_eq_error.1 h with h | ⟨name, later, _, hname, h⟩
      · obtain ⟨hlacks, rfl, rfl⟩ := expect_eq_error.1 h
        exact ⟨_, .name hkind hlacks⟩
      obtain ⟨hidentifier⟩ := (finds_expect _ _).1 hname
      rcases bind_eq_error.1 h with h | ⟨sign, later', _, hsign, h⟩
      · obtain ⟨hlacks, rfl, rfl⟩ := expect_eq_error.1 h
        exact ⟨_, .sign hkind hidentifier hlacks⟩
      obtain ⟨hequal⟩ := (finds_expect _ _).1 hsign
      rcases bind_eq_error.1 h with h | ⟨_, _, _, _, h⟩
      · obtain ⟨n, hn⟩ := hF.1 h
        exact ⟨_, .binding hkind hidentifier hequal hn⟩
      · cases h
    | loopWord hkind =>
      simp only [statementOf, hkind] at h
      rcases bind_eq_error.1 h with h | ⟨_, _, _, _, h⟩
      · obtain ⟨d, hd⟩ := hG.1 h
        exact ⟨d, .loop hkind hd⟩
      · cases h
    | ifWord hkind =>
      simp only [statementOf, hkind] at h
      rcases bind_eq_error.1 h with h | ⟨cond, later, _, hcond, h⟩
      · obtain ⟨n, hn⟩ := hF.1 h
        exact ⟨_, .condition hkind hn⟩
      rcases bind_eq_error.1 h with h | ⟨body, later', _, hbody, h⟩
      · obtain ⟨d, hd⟩ := hG.1 h
        exact ⟨d, .body hkind (hE.1 hcond) hd⟩
      rcases bind_eq_error.1 h with h | ⟨_, _, _, _, h⟩
      · obtain ⟨d, hd⟩ := (chain_eq_error hE hB hF hG).1 h
        exact ⟨d, .chain hkind (hE.1 hcond) (hB.1 hbody) hd⟩
      · cases h
    | returnWord hkind =>
      simp only [statementOf, hkind] at h
      split at h
      · rename_i hvalued
        rcases bind_eq_error.1 h with h | ⟨_, _, _, _, h⟩
        · obtain ⟨n, hn⟩ := hF.1 h
          exact ⟨_, .returned hkind hvalued hn⟩
        · cases h
      · cases h
    | breakWord hkind =>
      simp only [statementOf, hkind] at h
      cases h
    | fnWord hkind =>
      simp only [statementOf, hkind] at h
      cases h
      exact ⟨_, .function hkind⟩
    | assignment hkind hsign =>
      simp only [statementOf, hkind, if_pos hsign] at h
      rcases bind_eq_error.1 h with h | ⟨_, _, _, _, h⟩
      · obtain ⟨n, hn⟩ := hF.1 h
        exact ⟨_, .assignment hkind hsign hn⟩
      · cases h
    | plain hfront hsign =>
      rw [statementOf_of_plain hfront hsign] at h
      obtain ⟨n, hn⟩ := (bareExpression_eq_error hF).1 h
      exact ⟨_, .plain hfront hsign hn⟩
  · rintro ⟨d, hd⟩
    cases hd with
    | name hkind hlacks =>
      simp only [statementOf, hkind]
      exact bind_error (expect_of_avoids hlacks)
    | sign hkind hidentifier hlacks =>
      simp only [statementOf, hkind]
      exact (yields_expect _ hidentifier _).bind_error fun _ =>
        bind_error (expect_of_avoids hlacks)
    | binding hkind hidentifier hequal hn =>
      simp only [statementOf, hkind]
      exact (yields_expect _ hidentifier _).bind_error fun _ =>
        (yields_expect _ hequal _).bind_error fun _ => bind_error (hF.2 ⟨_, hn⟩)
    | loop hkind hd =>
      simp only [statementOf, hkind]
      exact bind_error (hG.2 ⟨_, hd⟩)
    | condition hkind hn =>
      simp only [statementOf, hkind]
      exact bind_error (hF.2 ⟨_, hn⟩)
    | body hkind hcond hd =>
      simp only [statementOf, hkind]
      exact (hE.2 hcond).bind_error fun _ => bind_error (hG.2 ⟨_, hd⟩)
    | chain hkind hcond hbody hd =>
      simp only [statementOf, hkind]
      exact (hE.2 hcond).bind_error fun _ => (hB.2 hbody).bind_error fun _ =>
        bind_error ((chain_eq_error hE hB hF hG).2 ⟨_, hd⟩)
    | returned hkind hvalued hn =>
      simp only [statementOf, hkind, hvalued]
      exact bind_error (hF.2 ⟨_, hn⟩)
    | function hkind => simp only [statementOf, hkind]
    | assignment hkind hsign hn =>
      simp only [statementOf, hkind, if_pos hsign]
      exact bind_error (hF.2 ⟨_, hn⟩)
    | plain hfront hsign hn =>
      rw [statementOf_of_plain hfront hsign]
      exact (bareExpression_eq_error hF).2 ⟨_, hn⟩

end

theorem getsStuckInside_tooDeep :
    GetsStuckInside tooDeep (fun _ => False) (Stuck.Crowded .outside) := by
  intro fault tokens rest
  rw [getsStuck_tooDeep Nesting.outside]
  simp

theorem getsStuckAhead_statement (room : Nat) :
    GetsStuckAhead (statement room) (Stuck.Statement room) := by
  induction room with
  | zero =>
    exact getsStuckAhead_statementOf (finds_expression 0) (finds_block 0)
      (getsStuck_expression 0) (getsStuck_braced getsStuckInside_tooDeep)
  | succ room ih =>
    exact getsStuckAhead_statementOf (finds_expression (room + 1)) (finds_block (room + 1))
      (getsStuck_expression (room + 1))
      (getsStuck_braced (getsStuckInside_statements (finds_statement room) ih))

theorem getsStuck_block (room : Nat) : GetsStuck (block room) (Stuck.Block room) := by
  cases room with
  | zero => exact getsStuck_braced getsStuckInside_tooDeep
  | succ room =>
    exact getsStuck_braced
      (getsStuckInside_statements (finds_statement room) (getsStuckAhead_statement room))

/-! ## Programs -/

theorem getsStuck_function (room : Nat) (word : Token) :
    GetsStuck (function room word) (Stuck.Declaration room) := by
  have hparams : GetsStuck (enclosed (expect .identifier .parameterName) .parametersClose) _ :=
    getsStuck_enclosed (finds_expect _ _) (getsStuck_expect _ _ 0) _
  intro fault tokens rest
  rw [function]
  constructor
  · intro h
    rcases bind_eq_error.1 h with h | ⟨name, later, _, hname, h⟩
    · obtain ⟨hlacks, rfl, rfl⟩ := expect_eq_error.1 h
      exact ⟨_, .name hlacks⟩
    obtain ⟨hidentifier⟩ := (finds_expect _ _).1 hname
    rcases bind_eq_error.1 h with h | ⟨paren, later', _, hparen, h⟩
    · obtain ⟨hlacks, rfl, rfl⟩ := expect_eq_error.1 h
      exact ⟨_, .paren hidentifier hlacks⟩
    obtain ⟨hopen⟩ := (finds_expect _ _).1 hparen
    rcases bind_eq_error.1 h with h | ⟨params, later, _, hnames, h⟩
    · obtain ⟨n, hn⟩ := hparams.1 h
      exact ⟨_, .parameter hidentifier hopen hn⟩
    rcases bind_eq_error.1 h with h | ⟨_, _, _, _, h⟩
    · obtain ⟨d, hd⟩ := (getsStuck_block room).1 h
      exact ⟨d, .body hidentifier hopen ((finds_enclosed (finds_expect _ _) _).1 hnames) hd⟩
    · cases h
  · rintro ⟨d, hd⟩
    cases hd with
    | name hlacks => exact bind_error (expect_of_avoids hlacks)
    | paren hidentifier hlacks =>
      exact (yields_expect _ hidentifier _).bind_error fun _ =>
        bind_error (expect_of_avoids hlacks)
    | parameter hidentifier hopen hn =>
      exact (yields_expect _ hidentifier _).bind_error fun _ =>
        (yields_expect _ hopen _).bind_error fun _ => bind_error (hparams.2 ⟨_, hn⟩)
    | body hidentifier hopen hnames hd =>
      have hyields := (finds_enclosed (finds_expect .identifier .parameterName)
        .parametersClose).2 hnames
      exact (yields_expect _ hidentifier _).bind_error fun _ =>
        (yields_expect _ hopen _).bind_error fun _ => hyields.bind_error fun _ =>
          bind_error ((getsStuck_block room).2 ⟨_, hd⟩)

/-- Of a reading and what is made of it, the one fails or the other does. -/
theorem map_eq_error {α β : Type} {r : Except Failure α} {f : α → Except Failure β}
    {failure : Failure} :
    r >>= f = .error failure ↔ r = .error failure ∨ ∃ a, r = .ok a ∧ f a = .error failure := by
  constructor
  · intro h
    cases r with
    | error failure' =>
      cases h
      exact .inl rfl
    | ok a => exact .inr ⟨a, rfl, h⟩
  · rintro (rfl | ⟨a, rfl, h⟩)
    · rfl
    · exact h

/-- **Reading a program fails where it gets stuck.** -/
theorem program_eq_error_iff {room : Nat} {fault : ParseFault} {tokens rest : List Token} :
    program room tokens = .error ⟨fault, rest⟩ ↔ ∃ d, Stuck.Items room fault d tokens rest := by
  constructor
  · intro h
    induction hlength : tokens.length using Nat.strongRecOn generalizing tokens with
    | _ n ih =>
      subst hlength
      cases tokens with
      | nil =>
        rw [program] at h
        cases h
      | cons t tokens =>
        rw [program] at h
        split at h
        · rename_i hkind
          obtain ⟨d, hd⟩ := ih tokens.length (Nat.lt_succ_self _) h rfl
          exact ⟨d, .skip hkind hd⟩
        · rename_i hsep
          split at h
          · rename_i hkind
            rcases map_eq_error.1 h with h | ⟨f, hf, h⟩
            · obtain ⟨d, hd⟩ := (getsStuck_function room t).1 h
              exact ⟨d, .function hkind hd⟩
            · rcases map_eq_error.1 h with h | ⟨_, _, h⟩
              · obtain ⟨d, hd⟩ := ih f.rest.length (Nat.lt_succ_of_lt f.lt) h rfl
                exact ⟨d, .laterFunction hkind ((finds_function room t).1 ⟨f.lt, hf⟩) hd⟩
              · cases h
          · rename_i hword
            have hfront : t.kind ∉ [TokenKind.semicolon, .fnWord] := by simp [hsep, hword]
            rcases map_eq_error.1 h with h | ⟨s, hs, h⟩
            · obtain ⟨d, hd⟩ := (getsStuckAhead_statement room).1 h
              exact ⟨d, .statement hfront hd⟩
            · rcases map_eq_error.1 h with h | ⟨_, _, h⟩
              · obtain ⟨d, hd⟩ := ih s.rest.length s.lt h rfl
                exact ⟨d, .laterStatement hfront ((finds_statement room).1 ⟨s.lt, hs⟩) hd⟩
              · cases h
  · rintro ⟨d, hd⟩
    induction hd with
    | statement hfront hd =>
      rw [program, if_neg (kind_ne hfront (by decide)), if_neg (kind_ne hfront (by decide))]
      exact map_eq_error.2 (.inl ((getsStuckAhead_statement room).2 ⟨_, hd⟩))
    | @function word _ _ _ _ hkind hd =>
      rw [program, if_neg (by simp [hkind]), if_pos hkind]
      exact map_eq_error.2 (.inl ((getsStuck_function room word).2 ⟨_, hd⟩))
    | skip hkind _ ih =>
      rw [program, if_pos hkind]
      exact ih
    | @laterStatement s fault d tokens later rest hfront hs _ ih =>
      obtain ⟨hlt, hs⟩ := (finds_statement room).2 hs
      cases tokens with
      | nil => exact absurd hlt (Nat.not_lt_zero _)
      | cons t tokens =>
        rw [program, if_neg (kind_ne hfront (by decide)), if_neg (kind_ne hfront (by decide))]
        exact map_eq_error.2 (.inr ⟨_, hs, map_eq_error.2 (.inl ih)⟩)
    | @laterFunction word _ _ _ _ _ _ hkind hf _ ih =>
      obtain ⟨hlt, hf⟩ := (finds_function room word).2 hf
      rw [program, if_neg (by simp [hkind]), if_pos hkind]
      exact map_eq_error.2 (.inr ⟨_, hf, map_eq_error.2 (.inl ih)⟩)

end Grammar
end Octet
