import Octet.Proofs.Tree.Derivation

/-!
# The rules find the greedy spellings

A rule yields something if and only if the tokens start with a greedy spelling of it.  There is one
equivalence for each rule (`Finds`), and `program_iff` is the one for whole programs.  So whatever
is to be said about what the rules find can be said about spellings, without opening the rules.

The equivalences for the rules that repeat something are by induction on the number of tokens in one
direction, as the rules recur on what is left, and by induction on the spelling in the other.
-/

namespace Octet
namespace Grammar

/-- Reading succeeded with this result, and left these tokens over. -/
def Yields {α : Type} {n : Nat} (r : Except Failure (Parsed α n)) (a : α) (rest : List Token) :
    Prop :=
  ∃ h, r = .ok ⟨a, rest, h⟩

section

variable {α β : Type} {m n : Nat} {a : α} {b : β} {rest : List Token}

theorem Yields.ok (p : Parsed α n) : Yields (.ok p) p.value p.rest :=
  ⟨p.lt, rfl⟩

theorem yields_ok {p : Parsed α n} :
    Yields (.ok p) a rest ↔ p.value = a ∧ p.rest = rest := by
  constructor
  · rintro ⟨h, heq⟩
    cases heq
    exact ⟨rfl, rfl⟩
  · rintro ⟨rfl, rfl⟩
    exact .ok p

theorem not_yields_error {failure : Failure} :
    ¬ Yields (.error failure : Except Failure (Parsed α n)) a rest := by
  rintro ⟨h, heq⟩
  cases heq

/-- What two readings yield one after the other. -/
theorem Yields.bind {r : Except Failure (Parsed α m)}
    {f : Parsed α m → Except Failure (Parsed β n)} {later : List Token} (h : Yields r a later)
    (h' : ∀ hlt, Yields (f ⟨a, later, hlt⟩) b rest) : Yields (r >>= f) b rest := by
  obtain ⟨hlt, rfl⟩ := h
  exact h' hlt

theorem yields_bind {r : Except Failure (Parsed α m)}
    {f : Parsed α m → Except Failure (Parsed β n)} :
    Yields (r >>= f) b rest ↔
      ∃ a later hlt, Yields r a later ∧ Yields (f ⟨a, later, hlt⟩) b rest := by
  constructor
  · intro h
    cases r with
    | error failure => exact absurd h not_yields_error
    | ok p => exact ⟨p.value, p.rest, p.lt, .ok p, h⟩
  · rintro ⟨a, later, _, hr, hf⟩
    exact hr.bind fun _ => hf

end

/-- A rule finds what is spelled: it yields something exactly if the tokens start with a spelling
of it. -/
def Finds {α : Type} (rule : Rule α) (R : Spelling α) : Prop :=
  ∀ {a : α} {tokens rest : List Token}, Yields (rule tokens) a rest ↔ R a tokens rest

theorem finds_expect (kind : TokenKind) (what : Expectation) :
    Finds (expect kind what) (OfKind kind) := by
  intro a tokens rest
  constructor
  · intro h
    cases tokens with
    | nil => exact absurd h not_yields_error
    | cons t tokens =>
      rw [expect] at h
      split at h
      · rename_i hkind
        obtain ⟨rfl, rfl⟩ := yields_ok.1 h
        exact .intro hkind
      · exact absurd h not_yields_error
  · rintro ⟨hkind⟩
    rw [expect, if_pos hkind]
    exact .ok _

/-- A token of a kind is what is expected. -/
theorem yields_expect {kind : TokenKind} (what : Expectation) {t : Token} (h : t.kind = kind)
    (rest : List Token) : Yields (expect kind what (t :: rest)) t rest :=
  (finds_expect kind what).2 (.intro h)

theorem finds_tooDeep {α : Type} : Finds (tooDeep : Rule α) Nowhere :=
  ⟨not_yields_error, False.elim⟩

/-! ## Lists -/

section

variable {α : Type} {item : Rule α} {R : Spelling α}

theorem finds_separated (h : Finds item R) : Finds (separated item) (Separated .greedy R) := by
  intro as tokens rest
  constructor
  · intro hyields
    induction hlength : tokens.length using Nat.strongRecOn generalizing as tokens with
    | _ n ih =>
      subst hlength
      rw [separated, yields_bind] at hyields
      obtain ⟨a, later, hlt, ha, hyields⟩ := hyields
      split at hyields
      · rename_i t us hrest
        obtain rfl : later = t :: us := hrest
        split at hyields
        · rename_i hcomma
          obtain ⟨as', later', _, hlater, hyields⟩ := yields_bind.1 hyields
          obtain ⟨rfl, rfl⟩ := yields_ok.1 hyields
          exact .more (h.1 ha) hcomma (ih us.length (Nat.lt_of_succ_lt hlt) hlater rfl)
        · rename_i hcomma
          obtain ⟨rfl, rfl⟩ := yields_ok.1 hyields
          refine .one (h.1 ha) ?_
          show Avoids [.comma] (t :: us)
          simpa using hcomma
      · rename_i hrest
        obtain rfl : later = [] := hrest
        obtain ⟨rfl, rfl⟩ := yields_ok.1 hyields
        exact .one (h.1 ha) trivial
  · intro hspelling
    induction hspelling with
    | @one a tokens rest ha hrest =>
      rw [separated]
      refine (h.2 ha).bind fun _ => ?_
      split
      · rename_i t us heq
        obtain rfl : rest = t :: us := heq
        rw [if_neg (kind_ne hrest (by decide))]
        exact .ok _
      · exact .ok _
    | @more a as comma tokens later rest ha hcomma _ ih =>
      rw [separated]
      refine (h.2 ha).bind fun _ => ?_
      split
      · rename_i t us heq
        obtain ⟨rfl, rfl⟩ : comma = t ∧ later = us := by simpa using heq
        rw [if_pos hcomma]
        exact ih.bind fun _ => .ok _
      · rename_i heq
        cases heq

theorem yields_enclosed_go (h : Finds item R) (close : Expectation) {as : List α}
    {tokens rest : List Token} :
    Yields (enclosed.go item close tokens) as rest ↔
      ∃ paren, Separated .greedy R as tokens (paren :: rest) ∧ paren.kind = .rightParen := by
  rw [enclosed.go]
  constructor
  · intro hyields
    obtain ⟨as', later, _, hitems, hyields⟩ := yields_bind.1 hyields
    obtain ⟨paren, later', _, hparen, hyields⟩ := yields_bind.1 hyields
    obtain ⟨rfl, rfl⟩ := yields_ok.1 hyields
    obtain ⟨hkind⟩ := (finds_expect _ _).1 hparen
    exact ⟨paren, (finds_separated h).1 hitems, hkind⟩
  · rintro ⟨paren, hitems, hkind⟩
    exact ((finds_separated h).2 hitems).bind fun _ =>
      (yields_expect close hkind rest).bind fun _ => .ok _

theorem finds_enclosed (h : Finds item R) (close : Expectation) :
    Finds (enclosed item close) (Enclosed .greedy R) := by
  intro as tokens rest
  constructor
  · intro hyields
    cases tokens with
    | nil =>
      obtain ⟨paren, hitems, hkind⟩ := (yields_enclosed_go h close).1 hyields
      exact .some trivial hitems hkind
    | cons t tokens =>
      rw [enclosed] at hyields
      split at hyields
      · rename_i hkind
        obtain ⟨rfl, rfl⟩ := yields_ok.1 hyields
        exact .none hkind
      · rename_i hkind
        obtain ⟨paren, hitems, hclose⟩ := (yields_enclosed_go h close).1 hyields
        exact .some (by simpa using hkind) hitems hclose
  · intro hspelling
    cases hspelling with
    | none hkind =>
      unfold enclosed
      dsimp only
      rw [if_pos hkind]
      exact .ok _
    | some hfront hitems hkind =>
      have hgo := (yields_enclosed_go h close).2 ⟨_, hitems, hkind⟩
      cases tokens with
      | nil => exact hgo
      | cons t tokens =>
        unfold enclosed
        dsimp only
        rw [if_neg (kind_ne hfront (by decide))]
        exact hgo

end

/-! ## Expressions -/

section

variable {next : Rule Expr} {R : Spelling Expr}

theorem yields_joined (h : Finds next R) {ops : List TokenKind} {left whole : Expr}
    {tokens rest : List Token} :
    Yields (joined ops next left tokens) whole rest ↔
      Joined .greedy ops R left whole tokens rest := by
  constructor
  · intro hyields
    induction hlength : tokens.length using Nat.strongRecOn generalizing left tokens with
    | _ n ih =>
      subst hlength
      cases tokens with
      | nil =>
        rw [joined] at hyields
        obtain ⟨rfl, rfl⟩ := yields_ok.1 hyields
        exact .done trivial
      | cons op tokens =>
        rw [joined] at hyields
        split at hyields
        · rename_i hop
          obtain ⟨right, later, hlt, hright, hyields⟩ := yields_bind.1 hyields
          obtain ⟨whole', later', _, hwhole, hyields⟩ := yields_bind.1 hyields
          obtain ⟨rfl, rfl⟩ := yields_ok.1 hyields
          exact .more hop (h.1 hright) (ih later.length (Nat.lt_succ_of_lt hlt) hwhole rfl)
        · rename_i hop
          obtain ⟨rfl, rfl⟩ := yields_ok.1 hyields
          exact .done hop
  · intro hspelling
    induction hspelling with
    | @done left rest hrest =>
      cases rest with
      | nil =>
        rw [joined]
        exact .ok _
      | cons t rest =>
        rw [joined, if_neg hrest]
        exact .ok _
    | more hop hright _ ih =>
      rw [joined, if_pos hop]
      exact (h.2 hright).bind fun _ => ih.bind fun _ => .ok _

theorem finds_level (h : Finds next R) (ops : List TokenKind) :
    Finds (level ops next) (LeftAssoc .greedy ops R) := by
  intro e tokens rest
  rw [level]
  constructor
  · intro hyields
    obtain ⟨first, later, _, hfirst, hyields⟩ := yields_bind.1 hyields
    obtain ⟨whole, later', _, hwhole, hyields⟩ := yields_bind.1 hyields
    obtain ⟨rfl, rfl⟩ := yields_ok.1 hyields
    exact .intro (h.1 hfirst) ((yields_joined h).1 hwhole)
  · rintro ⟨hfirst, hjoined⟩
    exact (h.2 hfirst).bind fun _ => ((yields_joined h).2 hjoined).bind fun _ => .ok _

theorem finds_operation (h : Finds next R) : Finds (operation next) (Operation .greedy R) := by
  rw [operation, Operation]
  induction levels with
  | nil => exact h
  | cons ops others ih => exact finds_level ih ops

theorem finds_operandOf {nested inner : Rule Expr} {R Q : Spelling Expr} (h : Finds nested R)
    (h' : Finds inner Q) : Finds (operandOf nested inner) (OperandOf .greedy R Q) := by
  intro e tokens rest
  constructor
  · intro hyields
    cases tokens with
    | nil => exact absurd hyields not_yields_error
    | cons t tokens =>
      unfold operandOf at hyields
      dsimp only at hyields
      split at hyields
      · rename_i hkind
        obtain ⟨a, later, _, ha, hyields⟩ := yields_bind.1 hyields
        obtain ⟨rfl, rfl⟩ := yields_ok.1 hyields
        exact .prefixed (.inl hkind) (h.1 ha)
      · rename_i hkind
        obtain ⟨a, later, _, ha, hyields⟩ := yields_bind.1 hyields
        obtain ⟨rfl, rfl⟩ := yields_ok.1 hyields
        exact .prefixed (.inr hkind) (h.1 ha)
      · obtain ⟨rfl, rfl⟩ := yields_ok.1 hyields
        exact .falseWord ‹_›
      · obtain ⟨rfl, rfl⟩ := yields_ok.1 hyields
        exact .trueWord ‹_›
      · obtain ⟨rfl, rfl⟩ := yields_ok.1 hyields
        exact .value (.inl ‹_›)
      · obtain ⟨rfl, rfl⟩ := yields_ok.1 hyields
        exact .value (.inr ‹_›)
      · rename_i hkind
        split at hyields
        · split at hyields
          · rename_i hparen
            obtain ⟨args, later, _, hargs, hyields⟩ := yields_bind.1 hyields
            obtain ⟨rfl, rfl⟩ := yields_ok.1 hyields
            exact .call hkind hparen ((finds_enclosed h' _).1 hargs)
          · rename_i hparen
            obtain ⟨rfl, rfl⟩ := yields_ok.1 hyields
            exact .identifier hkind (by simpa using hparen)
        · obtain ⟨rfl, rfl⟩ := yields_ok.1 hyields
          exact .identifier hkind trivial
      · rename_i hkind
        obtain ⟨a, later, _, ha, hyields⟩ := yields_bind.1 hyields
        obtain ⟨paren, later', _, hparen, hyields⟩ := yields_bind.1 hyields
        obtain ⟨rfl, rfl⟩ := yields_ok.1 hyields
        obtain ⟨hclose⟩ := (finds_expect _ _).1 hparen
        exact .group hkind (h'.1 ha) hclose
      · exact absurd hyields not_yields_error
  · intro hspelling
    cases hspelling with
    | prefixed hkind ha =>
      rcases hkind with hkind | hkind
      all_goals
        simp only [operandOf, hkind]
        exact (h.2 ha).bind fun _ => .ok _
    | falseWord hkind =>
      simp only [operandOf, hkind]
      exact .ok _
    | trueWord hkind =>
      simp only [operandOf, hkind]
      exact .ok _
    | value hkind =>
      rcases hkind with hkind | hkind
      all_goals
        simp only [operandOf, hkind]
        exact .ok _
    | identifier hkind hrest =>
      simp only [operandOf, hkind]
      cases rest with
      | nil => exact .ok _
      | cons t rest =>
        dsimp only
        rw [if_neg (kind_ne hrest (by decide))]
        exact .ok _
    | call hkind hparen hargs =>
      simp only [operandOf, hkind, if_pos hparen]
      exact ((finds_enclosed h' _).2 hargs).bind fun _ => .ok _
    | group hkind ha hclose =>
      simp only [operandOf, hkind]
      exact (h'.2 ha).bind fun _ => (yields_expect _ hclose rest).bind fun _ => .ok _

theorem finds_operand (room : Nat) : Finds (operand room) (Operand .greedy room) := by
  induction room with
  | zero => exact finds_operandOf finds_tooDeep finds_tooDeep
  | succ room ih => exact finds_operandOf ih (finds_operation ih)

theorem finds_expression (room : Nat) : Finds (expression room) (Expression .greedy room) := by
  cases room with
  | zero => exact finds_tooDeep
  | succ room => exact finds_operation (finds_operand room)

end

/-! ## Statements -/

section

variable {expression : Rule Expr} {block : Rule (List Stmt)} {E : Spelling Expr}
  {B : Spelling (List Stmt)}

theorem finds_braced {inside : Rule (List Stmt)} {R : Spelling (List Stmt)}
    (h : Finds inside R) : Finds (braced inside) (Braced R) := by
  intro body tokens rest
  rw [braced]
  constructor
  · intro hyields
    obtain ⟨brace, later, _, hbrace, hyields⟩ := yields_bind.1 hyields
    obtain ⟨body', later', _, hbody, hyields⟩ := yields_bind.1 hyields
    obtain ⟨rfl, rfl⟩ := yields_ok.1 hyields
    obtain ⟨hkind⟩ := (finds_expect _ _).1 hbrace
    exact .intro hkind (h.1 hbody)
  · rintro ⟨hkind, hbody⟩
    exact (yields_expect _ hkind _).bind fun _ => (h.2 hbody).bind fun _ => .ok _

theorem finds_statements {statement : Rule Stmt} {R : Spelling Stmt} (h : Finds statement R) :
    Finds (statements statement) (Statements .greedy R) := by
  intro ss tokens rest
  constructor
  · intro hyields
    induction hlength : tokens.length using Nat.strongRecOn generalizing ss tokens with
    | _ n ih =>
      subst hlength
      cases tokens with
      | nil =>
        rw [statements] at hyields
        exact absurd hyields not_yields_error
      | cons t tokens =>
        rw [statements] at hyields
        split at hyields
        · rename_i hkind
          obtain ⟨ss', later, _, hlater, hyields⟩ := yields_bind.1 hyields
          obtain ⟨rfl, rfl⟩ := yields_ok.1 hyields
          exact .skip hkind (ih tokens.length (Nat.lt_succ_self _) hlater rfl)
        · rename_i hsep
          split at hyields
          · rename_i hkind
            obtain ⟨rfl, rfl⟩ := yields_ok.1 hyields
            exact .close hkind
          · rename_i hbrace
            obtain ⟨s, later, hlt, hs, hyields⟩ := yields_bind.1 hyields
            obtain ⟨ss', later', _, hlater, hyields⟩ := yields_bind.1 hyields
            obtain ⟨rfl, rfl⟩ := yields_ok.1 hyields
            exact .more (by simp [hsep, hbrace]) (h.1 hs) trivial (ih later.length hlt hlater rfl)
  · intro hspelling
    induction hspelling with
    | close hkind =>
      rw [statements, if_neg (by simp [hkind]), if_pos hkind]
      exact .ok _
    | skip hkind _ ih =>
      rw [statements, if_pos hkind]
      exact ih.bind fun _ => .ok _
    | @more s ss tokens later rest hfront hs _ _ ih =>
      have hyields := h.2 hs
      cases tokens with
      | nil => exact absurd hyields.choose (Nat.not_lt_zero _)
      | cons t tokens =>
        rw [statements, if_neg (kind_ne hfront (by decide)), if_neg (kind_ne hfront (by decide))]
        exact hyields.bind fun _ => ih.bind fun _ => .ok _

theorem yields_final (hB : Finds block B) {bound : Nat} {tokens rest : List Token}
    (h : tokens.length < bound) {later : Chain} :
    Yields (chain.final block tokens h) later rest ↔
      ∃ body, B body tokens rest ∧ later = .otherwise body := by
  rw [chain.final]
  constructor
  · intro hyields
    obtain ⟨body, _, _, hbody, hyields⟩ := yields_bind.1 hyields
    obtain ⟨rfl, rfl⟩ := yields_ok.1 hyields
    exact ⟨body, hB.1 hbody, rfl⟩
  · rintro ⟨body, hbody, rfl⟩
    exact (hB.2 hbody).bind fun _ => .ok _

theorem yields_chain (hE : Finds expression E) (hB : Finds block B) {tokens rest : List Token}
    {later : Chain} :
    Yields (chain expression block tokens) later rest ↔
      ChainOf .greedy E B later tokens rest := by
  constructor
  · intro hyields
    induction hlength : tokens.length using Nat.strongRecOn generalizing later tokens with
    | _ n ih =>
      subst hlength
      cases tokens with
      | nil =>
        rw [chain] at hyields
        obtain ⟨rfl, rfl⟩ := yields_ok.1 hyields
        exact .done trivial
      | cons word tokens =>
        unfold chain at hyields
        dsimp only at hyields
        split at hyields
        · rename_i hword
          split at hyields
          · rename_i word' tokens
            split at hyields
            · rename_i hword'
              obtain ⟨cond, left, hlt, hcond, hyields⟩ := yields_bind.1 hyields
              obtain ⟨body, left', hlt', hbody, hyields⟩ := yields_bind.1 hyields
              obtain ⟨chain, left'', _, hchain, hyields⟩ := yields_bind.1 hyields
              obtain ⟨rfl, rfl⟩ := yields_ok.1 hyields
              have hless : left'.length < (word :: word' :: tokens).length :=
                Nat.lt_succ_of_lt (Nat.lt_succ_of_lt (Nat.lt_trans hlt' hlt))
              exact .elseIf hword hword' (hE.1 hcond) (hB.1 hbody)
                (ih left'.length hless hchain rfl)
            · rename_i hword'
              obtain ⟨body, hbody, rfl⟩ := (yields_final hB _).1 hyields
              exact .otherwise hword (by simpa using hword') hbody
          · obtain ⟨body, hbody, rfl⟩ := (yields_final hB _).1 hyields
            exact .otherwise hword trivial hbody
        · rename_i hword
          obtain ⟨rfl, rfl⟩ := yields_ok.1 hyields
          exact .done (by simpa using hword)
  · intro hspelling
    induction hspelling with
    | @done rest hrest =>
      cases rest with
      | nil =>
        rw [chain]
        exact .ok _
      | cons t rest =>
        unfold chain
        dsimp only
        rw [if_neg (kind_ne hrest (by decide))]
        exact .ok _
    | @otherwise word body tokens rest hword hfront hbody =>
      have hfinal := fun bound (h : tokens.length < bound) => (yields_final hB h).2 ⟨body, hbody, rfl⟩
      unfold chain
      dsimp only
      rw [if_pos hword]
      cases tokens with
      | nil => exact hfinal _ _
      | cons t tokens =>
        dsimp only
        rw [if_neg (kind_ne hfront (by decide))]
        exact hfinal _ _
    | elseIf hword hword' hcond hbody _ ih =>
      unfold chain
      simp only [if_pos hword, if_pos hword']
      exact (hE.2 hcond).bind fun _ => (hB.2 hbody).bind fun _ => ih.bind fun _ => .ok _

theorem yields_bareExpression (hE : Finds expression E) {pos : Pos} {s : Stmt}
    {tokens rest : List Token} :
    Yields (bareExpression expression pos tokens) s rest ↔
      ∃ e, E e tokens rest ∧ s = .exprStmt pos e := by
  rw [bareExpression]
  constructor
  · intro hyields
    obtain ⟨e, _, _, he, hyields⟩ := yields_bind.1 hyields
    obtain ⟨rfl, rfl⟩ := yields_ok.1 hyields
    exact ⟨e, hE.1 he, rfl⟩
  · rintro ⟨e, he, rfl⟩
    exact (hE.2 he).bind fun _ => .ok _

theorem finds_statementOf (hE : Finds expression E) (hB : Finds block B) :
    Finds (statementOf expression block) (StatementOf .greedy E B) := by
  intro s tokens rest
  constructor
  · intro hyields
    cases tokens with
    | nil => exact absurd hyields not_yields_error
    | cons t tokens =>
      cases front t tokens with
      | letWord hkind =>
        simp only [statementOf, hkind] at hyields
        obtain ⟨name, left, _, hname, hyields⟩ := yields_bind.1 hyields
        obtain ⟨sign, left', _, hsign, hyields⟩ := yields_bind.1 hyields
        obtain ⟨value, left'', _, hvalue, hyields⟩ := yields_bind.1 hyields
        obtain ⟨rfl, rfl⟩ := yields_ok.1 hyields
        obtain ⟨hidentifier⟩ := (finds_expect _ _).1 hname
        obtain ⟨hequal⟩ := (finds_expect _ _).1 hsign
        exact .binding hkind hidentifier hequal (hE.1 hvalue)
      | loopWord hkind =>
        simp only [statementOf, hkind] at hyields
        obtain ⟨body, left, _, hbody, hyields⟩ := yields_bind.1 hyields
        obtain ⟨rfl, rfl⟩ := yields_ok.1 hyields
        exact .loop hkind (hB.1 hbody)
      | ifWord hkind =>
        simp only [statementOf, hkind] at hyields
        obtain ⟨cond, left, _, hcond, hyields⟩ := yields_bind.1 hyields
        obtain ⟨body, left', _, hbody, hyields⟩ := yields_bind.1 hyields
        obtain ⟨later, left'', _, hlater, hyields⟩ := yields_bind.1 hyields
        obtain ⟨rfl, rfl⟩ := yields_ok.1 hyields
        exact .conditional hkind (hE.1 hcond) (hB.1 hbody) ((yields_chain hE hB).1 hlater)
      | returnWord hkind =>
        simp only [statementOf, hkind] at hyields
        split at hyields
        · rename_i hvalued
          obtain ⟨value, left, _, hvalue, hyields⟩ := yields_bind.1 hyields
          obtain ⟨rfl, rfl⟩ := yields_ok.1 hyields
          exact .valued hkind hvalued (hE.1 hvalue)
        · rename_i hbare
          obtain ⟨rfl, rfl⟩ := yields_ok.1 hyields
          exact .bare hkind (Bool.eq_false_iff.2 hbare)
      | breakWord hkind =>
        simp only [statementOf, hkind] at hyields
        obtain ⟨rfl, rfl⟩ := yields_ok.1 hyields
        exact .leave hkind
      | fnWord hkind =>
        simp only [statementOf, hkind] at hyields
        exact absurd hyields not_yields_error
      | assignment hkind hsign =>
        simp only [statementOf, hkind, if_pos hsign] at hyields
        obtain ⟨value, left, _, hvalue, hyields⟩ := yields_bind.1 hyields
        obtain ⟨rfl, rfl⟩ := yields_ok.1 hyields
        exact .assignment hkind hsign (hE.1 hvalue)
      | plain hfront hsign =>
        rw [statementOf_of_plain hfront hsign] at hyields
        obtain ⟨e, he, rfl⟩ := (yields_bareExpression hE).1 hyields
        exact .plain hfront hsign he
  · intro hspelling
    cases hspelling with
    | binding hkind hidentifier hequal hvalue =>
      simp only [statementOf, hkind]
      exact (yields_expect _ hidentifier _).bind fun _ => (yields_expect _ hequal _).bind fun _ =>
        (hE.2 hvalue).bind fun _ => .ok _
    | loop hkind hbody =>
      simp only [statementOf, hkind]
      exact (hB.2 hbody).bind fun _ => .ok _
    | conditional hkind hcond hbody hchain =>
      simp only [statementOf, hkind]
      exact (hE.2 hcond).bind fun _ => (hB.2 hbody).bind fun _ =>
        ((yields_chain hE hB).2 hchain).bind fun _ => .ok _
    | bare hkind hbare =>
      have hreturn : returnsValue _ rest = false := hbare
      simp only [statementOf, hkind, hreturn]
      exact .ok _
    | valued hkind hvalued hvalue =>
      have hreturn : returnsValue _ _ = true := hvalued
      simp only [statementOf, hkind, hreturn]
      exact (hE.2 hvalue).bind fun _ => .ok _
    | leave hkind =>
      simp only [statementOf, hkind]
      exact .ok _
    | assignment hkind hsign hvalue =>
      simp only [statementOf, hkind, if_pos hsign]
      exact (hE.2 hvalue).bind fun _ => .ok _
    | plain hfront hsign he =>
      rw [statementOf_of_plain hfront hsign]
      exact (yields_bareExpression hE).2 ⟨_, he, rfl⟩

end

theorem finds_statement (room : Nat) : Finds (statement room) (Statement .greedy room) := by
  induction room with
  | zero => exact finds_statementOf (finds_expression 0) (finds_braced finds_tooDeep)
  | succ room ih =>
    exact finds_statementOf (finds_expression (room + 1)) (finds_braced (finds_statements ih))

theorem finds_block (room : Nat) : Finds (block room) (Block .greedy room) := by
  cases room with
  | zero => exact finds_braced finds_tooDeep
  | succ room => exact finds_braced (finds_statements (finds_statement room))

/-! ## Programs -/

theorem finds_function (room : Nat) (word : Token) :
    Finds (function room word) (Declaration .greedy room word.pos) := by
  intro f tokens rest
  rw [function]
  constructor
  · intro hyields
    obtain ⟨name, left, _, hname, hyields⟩ := yields_bind.1 hyields
    obtain ⟨paren, left', _, hparen, hyields⟩ := yields_bind.1 hyields
    obtain ⟨params, later, _, hparams, hyields⟩ := yields_bind.1 hyields
    obtain ⟨body, later', _, hbody, hyields⟩ := yields_bind.1 hyields
    obtain ⟨rfl, rfl⟩ := yields_ok.1 hyields
    obtain ⟨hidentifier⟩ := (finds_expect _ _).1 hname
    obtain ⟨hopen⟩ := (finds_expect _ _).1 hparen
    exact .intro hidentifier hopen ((finds_enclosed (finds_expect _ _) _).1 hparams)
      ((finds_block room).1 hbody)
  · rintro ⟨hidentifier, hopen, hparams, hbody⟩
    have hparams' := (finds_enclosed (finds_expect .identifier .parameterName) .parametersClose).2
      hparams
    exact (yields_expect _ hidentifier _).bind fun _ => (yields_expect _ hopen _).bind fun _ =>
      hparams'.bind fun _ => ((finds_block room).2 hbody).bind fun _ => .ok _

/-- A reading and what is made of it. -/
theorem bind_eq_ok {α β : Type} {r : Except Failure α} {f : α → Except Failure β} {b : β} :
    r >>= f = .ok b ↔ ∃ a, r = .ok a ∧ f a = .ok b := by
  constructor
  · intro h
    cases r with
    | error failure => cases h
    | ok a => exact ⟨a, rfl, h⟩
  · rintro ⟨a, rfl, h⟩
    exact h

/-- **The rules find the greedy spellings of programs.** -/
theorem program_iff {room : Nat} {items : List Stmt} {tokens : List Token} :
    program room tokens = .ok items ↔ Items .greedy room items tokens := by
  constructor
  · intro hprogram
    induction hlength : tokens.length using Nat.strongRecOn generalizing items tokens with
    | _ n ih =>
      subst hlength
      cases tokens with
      | nil =>
        rw [program] at hprogram
        cases hprogram
        exact .done
      | cons t tokens =>
        rw [program] at hprogram
        split at hprogram
        · rename_i hkind
          exact .skip hkind (ih tokens.length (Nat.lt_succ_self _) hprogram rfl)
        · rename_i hsep
          split at hprogram
          · rename_i hkind
            obtain ⟨f, hf, hprogram⟩ := bind_eq_ok.1 hprogram
            obtain ⟨later, hlater, hprogram⟩ := bind_eq_ok.1 hprogram
            cases hprogram
            exact .function hkind ((finds_function room t).1 ⟨f.lt, hf⟩) trivial
              (ih f.rest.length (Nat.lt_succ_of_lt f.lt) hlater rfl)
          · rename_i hword
            obtain ⟨s, hs, hprogram⟩ := bind_eq_ok.1 hprogram
            obtain ⟨later, hlater, hprogram⟩ := bind_eq_ok.1 hprogram
            cases hprogram
            exact .statement (by simp [hsep, hword]) ((finds_statement room).1 ⟨s.lt, hs⟩) trivial
              (ih s.rest.length s.lt hlater rfl)
  · intro hitems
    induction hitems with
    | done => rw [program]
    | skip hkind _ ih =>
      rw [program, if_pos hkind]
      exact ih
    | @statement s items tokens later hfront hs _ _ ih =>
      obtain ⟨hlt, hs⟩ := (finds_statement room).2 hs
      cases tokens with
      | nil => exact absurd hlt (Nat.not_lt_zero _)
      | cons t tokens =>
        rw [program, if_neg (kind_ne hfront (by decide)), if_neg (kind_ne hfront (by decide))]
        exact bind_eq_ok.2 ⟨_, hs, bind_eq_ok.2 ⟨items, ih, rfl⟩⟩
    | @function word f items tokens later hkind hf _ _ ih =>
      obtain ⟨hlt, hf⟩ := (finds_function room word).2 hf
      rw [program, if_neg (by simp [hkind]), if_pos hkind]
      exact bind_eq_ok.2 ⟨_, hf, bind_eq_ok.2 ⟨items, ih, rfl⟩⟩

end Grammar
end Octet
