import Octet.Proofs.Tree.Failure
import Octet.Proofs.Tree.Reader
import Octet.Proofs.Tree.Soundness

/-!
# When tokens are nested too deeply

The rules refuse to open more than `maxNesting` levels.  What they count as levels are the blocks,
the parentheses and the prefixed operators, and one level more for the expression that these
parentheses and operators stand in (`Nesting.levels_eq`).  So inside an expression there is room for
one construct less than outside of one, and this file says exactly when tokens are refused for their
nesting (`tooDeep_iff`).

Three facts make it up.

* With more room the same is read, and reading gets stuck in the same places, except for those
  where there was no room (`Items.roomier`, `Stuck.Items.roomier`).
* Where there is no room, one level more is open than there was room for (`Stuck.Items.fits`).
* Every construct that is open was opened by a token of its own (`openers`), so tokens without many
  of these are not nested deeply, whatever their order (`Stuck.Items.fits`).
-/

namespace Octet
namespace Grammar

/-! ## More room for what is spelled -/

section

variable {S : Style}

theorem Style.Within.refl (S : Style) : S.Within S :=
  ⟨id, id, id, id⟩

theorem Operand.roomier (room : Nat) :
    Spelling.Within (Operand S room) (Operand S (room + 1)) := by
  induction room with
  | zero => exact OperandOf.within (.refl S) False.elim False.elim
  | succ room ih => exact OperandOf.within (.refl S) ih (Operation.within (.refl S) ih)

theorem Expression.roomier (room : Nat) :
    Spelling.Within (Expression S room) (Expression S (room + 1)) := by
  cases room with
  | zero => exact False.elim
  | succ room => exact Operation.within (.refl S) (Operand.roomier room)

theorem Statement.roomier (room : Nat) :
    Spelling.Within (Statement S room) (Statement S (room + 1)) := by
  induction room with
  | zero =>
    exact StatementOf.within (.refl S) (Expression.roomier 0) (Braced.within False.elim)
  | succ room ih =>
    exact StatementOf.within (.refl S) (Expression.roomier (room + 1))
      (Braced.within (Statements.within (.refl S) ih))

theorem Block.roomier (room : Nat) : Spelling.Within (Block S room) (Block S (room + 1)) := by
  cases room with
  | zero => exact Braced.within False.elim
  | succ room => exact Braced.within (Statements.within (.refl S) (Statement.roomier room))

theorem Declaration.roomier (room : Nat) {pos : Pos} :
    Spelling.Within (Declaration S room pos) (Declaration S (room + 1) pos) := by
  rintro f tokens rest ⟨hname, hopen, hparams, hbody⟩
  exact .intro hname hopen hparams (Block.roomier room hbody)

/-- What is read is read with more room as well. -/
theorem Items.roomier {room : Nat} {items : List Stmt} {tokens : List Token}
    (h : Items S room items tokens) : Items S (room + 1) items tokens := by
  induction h with
  | done => exact .done
  | skip hsep _ ih => exact .skip hsep ih
  | statement hfront hs hbehind _ ih =>
    exact .statement hfront (Statement.roomier room hs) hbehind ih
  | function hword hf hbehind _ ih =>
    exact .function hword (Declaration.roomier room hf) hbehind ih

end

namespace Stuck

/-! ## More room for what is stuck -/

/-- Where one gets stuck, but not for lack of room, one gets stuck in another way. -/
def Remains {δ : Type} (F G : Stuck δ) : Prop :=
  ∀ ⦃fault : ParseFault⦄ ⦃d : δ⦄ ⦃tokens rest : List Token⦄, fault ≠ .tooDeep →
    F fault d tokens rest → G fault d tokens rest

/-- Where there is no room one gets stuck for nothing else. -/
theorem Crowded.remains {δ : Type} {here : δ} {G : Stuck δ} : Remains (Crowded here) G := by
  rintro fault d tokens rest hfault ⟨⟩
  exact absurd rfl hfault

theorem Within.remains {F G : Stuck Nat} (h : Remains F G) : Remains (Within F) (Within G) := by
  rintro fault _ tokens rest hfault ⟨hd⟩
  exact .intro (h hfault hd)

section

variable {α : Type} {R Q : Spelling α} {F G : Stuck Nat} (hRQ : Spelling.Within R Q)
  (hFG : Remains F G)
include hRQ hFG

theorem Separated.remains : Remains (Separated R F) (Separated Q G) := by
  intro fault n tokens rest hfault h
  induction h with
  | item hd => exact .item (hFG hfault hd)
  | later ha hcomma _ ih => exact .later (hRQ ha) hcomma (ih hfault)

theorem Enclosed.remains {close : Expectation} :
    Remains (Enclosed R F close) (Enclosed Q G close) := by
  intro fault n tokens rest hfault h
  cases h with
  | item hfront hd => exact .item hfront (Separated.remains hRQ hFG hfault hd)
  | close hfront has hclose =>
    exact .close hfront (Grammar.Separated.within (.refl _) hRQ has) hclose

end

section

variable {R Q : Spelling Expr} {F F' G G' : Stuck Nat}

theorem Joined.remains {ops : List TokenKind} (hRQ : Spelling.Within R Q) (hFG : Remains F G) :
    Remains (Joined ops R F) (Joined ops Q G) := by
  intro fault n tokens rest hfault h
  induction h with
  | operand hop hd => exact .operand hop (hFG hfault hd)
  | later hop hright _ ih => exact .later hop (hRQ hright) (ih hfault)

theorem LeftAssoc.remains {ops : List TokenKind} (hRQ : Spelling.Within R Q)
    (hFG : Remains F G) : Remains (LeftAssoc ops R F) (LeftAssoc ops Q G) := by
  intro fault n tokens rest hfault h
  cases h with
  | first hd => exact .first (hFG hfault hd)
  | later hfirst hd => exact .later (hRQ hfirst) (Joined.remains hRQ hFG hfault hd)

theorem Operation.remains (hRQ : Spelling.Within R Q) (hFG : Remains F G) :
    Remains (Operation R F) (Operation Q G) := by
  have hclimbing : ∀ others : List (List TokenKind),
      Spelling.Within (others.foldr (Grammar.LeftAssoc .greedy) R)
          (others.foldr (Grammar.LeftAssoc .greedy) Q) ∧
        Remains (Climbing R F others) (Climbing Q G others) := by
    intro others
    induction others with
    | nil => exact ⟨hRQ, hFG⟩
    | cons ops others ih =>
      exact ⟨Grammar.LeftAssoc.within (.refl _) ih.1, LeftAssoc.remains ih.1 ih.2⟩
  exact (hclimbing levels).2

theorem OperandOf.remains (hRQ : Spelling.Within R Q) (hF : Remains F F') (hG : Remains G G') :
    Remains (OperandOf R F G) (OperandOf Q F' G') := by
  intro fault n tokens rest hfault h
  cases h with
  | prefixed hkind hd => exact .prefixed hkind (Within.remains hF hfault hd)
  | argument hkind hopen hd =>
    exact .argument hkind hopen (Enclosed.remains hRQ (Within.remains hG) hfault hd)
  | group hopen hd => exact .group hopen (Within.remains hG hfault hd)
  | groupClose hopen he hclose => exact .groupClose hopen (hRQ he) hclose
  | expression hfront => exact .expression hfront

end

theorem Operand.roomier (room : Nat) : Remains (Operand room) (Operand (room + 1)) := by
  induction room with
  | zero => exact OperandOf.remains False.elim Crowded.remains Crowded.remains
  | succ room ih =>
    have hwithin : Spelling.Within (Grammar.Operand .greedy room)
        (Grammar.Operand .greedy (room + 1)) := Grammar.Operand.roomier room
    exact OperandOf.remains (Grammar.Operation.within (.refl _) hwithin) ih
      (Operation.remains hwithin ih)

theorem Expression.roomier (room : Nat) : Remains (Expression room) (Expression (room + 1)) := by
  cases room with
  | zero => exact Crowded.remains
  | succ room => exact Operation.remains (Grammar.Operand.roomier room) (Operand.roomier room)

section

variable {unclosed unclosed' : List Token → Prop} {R Q : Spelling Stmt} {F G : Stuck Nesting}

theorem Braced.remains (h : ∀ {tokens : List Token}, unclosed tokens → unclosed' tokens)
    (hFG : Remains F G) : Remains (Braced unclosed F) (Braced unclosed' G) := by
  intro fault d tokens rest hfault hd
  cases hd with
  | brace hopen => exact .brace hopen
  | inside hopen hd => exact .inside hopen (hFG hfault hd)
  | close hopen hunclosed => exact .close hopen (h hunclosed)

theorem Unclosed.remains (hRQ : Spelling.Within R Q) {tokens : List Token}
    (h : Unclosed R tokens) : Unclosed Q tokens := by
  induction h with
  | done => exact .done
  | skip hsep _ ih => exact .skip hsep ih
  | more hfront hs _ ih => exact .more hfront (hRQ hs) ih

theorem Statements.remains (hRQ : Spelling.Within R Q) (hFG : Remains F G) :
    Remains (Statements R F) (Statements Q G) := by
  intro fault d tokens rest hfault h
  induction h with
  | statement hfront hd => exact .statement hfront (hFG hfault hd)
  | skip hsep _ ih => exact .skip hsep (ih hfault)
  | later hfront hs _ ih => exact .later hfront (hRQ hs) (ih hfault)

end

section

variable {E E' : Spelling Expr} {B B' : Spelling (List Stmt)} {F F' : Stuck Nat}
  {G G' : Stuck Nesting} (hE : Spelling.Within E E') (hB : Spelling.Within B B')
  (hF : Remains F F') (hG : Remains G G')
include hE hB hF hG

theorem ChainOf.remains : Remains (ChainOf E B F G) (ChainOf E' B' F' G') := by
  intro fault d tokens rest hfault h
  induction h with
  | otherwise hword hfront hd => exact .otherwise hword hfront (hG hfault hd)
  | condition hword hword' hd => exact .condition hword hword' (hF hfault hd)
  | body hword hword' hcond hd => exact .body hword hword' (hE hcond) (hG hfault hd)
  | later hword hword' hcond hbody _ ih =>
    exact .later hword hword' (hE hcond) (hB hbody) (ih hfault)

theorem StatementOf.remains : Remains (StatementOf E B F G) (StatementOf E' B' F' G') := by
  intro fault d tokens rest hfault h
  cases h with
  | name hword hlacks => exact .name hword hlacks
  | sign hword hname hlacks => exact .sign hword hname hlacks
  | binding hword hname hsign hd => exact .binding hword hname hsign (hF hfault hd)
  | loop hword hd => exact .loop hword (hG hfault hd)
  | condition hword hd => exact .condition hword (hF hfault hd)
  | body hword hcond hd => exact .body hword (hE hcond) (hG hfault hd)
  | chain hword hcond hbody hd =>
    exact .chain hword (hE hcond) (hB hbody) (ChainOf.remains hE hB hF hG hfault hd)
  | returned hword hvalued hd => exact .returned hword hvalued (hF hfault hd)
  | function hword => exact .function hword
  | assignment hname hsign hd => exact .assignment hname hsign (hF hfault hd)
  | plain hfront hsign hd => exact .plain hfront hsign (hF hfault hd)

end

theorem Statement.roomier (room : Nat) : Remains (Statement room) (Statement (room + 1)) := by
  induction room with
  | zero =>
    exact StatementOf.remains (Grammar.Expression.roomier 0) (Grammar.Block.roomier 0)
      (Expression.roomier 0) (Braced.remains False.elim Crowded.remains)
  | succ room ih =>
    have hwithin : Spelling.Within (Grammar.Statement .greedy room)
        (Grammar.Statement .greedy (room + 1)) := Grammar.Statement.roomier room
    exact StatementOf.remains (Grammar.Expression.roomier (room + 1))
      (Grammar.Block.roomier (room + 1)) (Expression.roomier (room + 1))
      (Braced.remains (Unclosed.remains hwithin) (Statements.remains hwithin ih))

theorem Block.roomier (room : Nat) : Remains (Block room) (Block (room + 1)) := by
  cases room with
  | zero => exact Braced.remains False.elim Crowded.remains
  | succ room =>
    have hwithin : Spelling.Within (Grammar.Statement .greedy room)
        (Grammar.Statement .greedy (room + 1)) := Grammar.Statement.roomier room
    exact Braced.remains (Unclosed.remains hwithin)
      (Statements.remains hwithin (Statement.roomier room))

theorem Declaration.roomier (room : Nat) :
    Remains (Declaration room) (Declaration (room + 1)) := by
  intro fault d tokens rest hfault h
  cases h with
  | name hlacks => exact .name hlacks
  | paren hname hlacks => exact .paren hname hlacks
  | parameter hname hopen hd => exact .parameter hname hopen hd
  | body hname hopen hparams hd =>
    exact .body hname hopen hparams (Block.roomier room hfault hd)

/-- Where one gets stuck, but not for lack of room, one gets stuck with more room as well. -/
theorem Items.roomier (room : Nat) : Remains (Items room) (Items (room + 1)) := by
  intro fault d tokens rest hfault h
  induction h with
  | statement hfront hd => exact .statement hfront (Statement.roomier room hfault hd)
  | function hword hd => exact .function hword (Declaration.roomier room hfault hd)
  | skip hsep _ ih => exact .skip hsep (ih hfault)
  | laterStatement hfront hs _ ih =>
    exact .laterStatement hfront (Grammar.Statement.roomier room hs) (ih hfault)
  | laterFunction hword hf _ ih =>
    exact .laterFunction hword (Grammar.Declaration.roomier room hf) (ih hfault)

end Stuck

/-- Tokens that are refused for their nesting with some room are refused with one level less. -/
theorem program_tooDeep_of_succ {room : Nat} {tokens rest : List Token}
    (h : program (room + 1) tokens = .error ⟨.tooDeep, rest⟩) :
    ∃ rest', program room tokens = .error ⟨.tooDeep, rest'⟩ := by
  cases hprogram : program room tokens with
  | ok items =>
    rw [program_iff.2 (program_iff.1 hprogram).roomier] at h
    cases h
  | error failure =>
    obtain ⟨fault, rest'⟩ := failure
    by_cases hfault : fault = .tooDeep
    · exact ⟨rest', by rw [hfault]⟩
    · obtain ⟨d, hd⟩ := program_eq_error_iff.1 hprogram
      rw [program_eq_error_iff.2 ⟨d, Stuck.Items.roomier room hfault hd⟩] at h
      cases h
      exact absurd rfl hfault

/-- Tokens that are refused for their nesting with some room are refused with less. -/
theorem program_tooDeep_of_le {m n : Nat} (h : m ≤ n) {tokens rest : List Token}
    (htooDeep : program n tokens = .error ⟨.tooDeep, rest⟩) :
    ∃ rest', program m tokens = .error ⟨.tooDeep, rest'⟩ := by
  induction h generalizing rest with
  | refl => exact ⟨rest, htooDeep⟩
  | step _ ih =>
    obtain ⟨rest', hless⟩ := program_tooDeep_of_succ htooDeep
    exact ih hless

/-! ## What is open where there is no room -/

/-- The kinds of tokens that open a construct. -/
def openers : List TokenKind :=
  [.leftBrace, .leftParen, .bang, .minus]

/-- The number of tokens that may open a construct. -/
def openings (tokens : List Token) : Nat :=
  tokens.countP (·.kind ∈ openers)

theorem openings_cons_of_mem {t : Token} (h : t.kind ∈ openers) (tokens : List Token) :
    openings (t :: tokens) = openings tokens + 1 :=
  List.countP_cons_of_pos (by simpa using h)

/-- So many constructs are open, and each has a token of its own in front of `rest`, some of them in
front of `tokens`.  If there was no room for the last one, this is known. -/
def Opened (fault : ParseFault) (constructs before : Nat) (full : Prop)
    (tokens rest : List Token) : Prop :=
  constructs + openings rest ≤ before + openings tokens ∧ (fault = .tooDeep → full)

section

variable {fault : ParseFault} {n before : Nat} {full : Prop} {front tokens rest : List Token}

/-- Behind other tokens. -/
theorem Opened.behind (h : Opened fault n before full tokens rest) (htokens : tokens <:+ front) :
    Opened fault n before full front rest :=
  ⟨Nat.le_trans h.1 (Nat.add_le_add_left htokens.sublist.countP_le _), h.2⟩

theorem Opened.cons {t : Token} (h : Opened fault n before full tokens rest) :
    Opened fault n before full (t :: tokens) rest :=
  h.behind (List.suffix_cons t tokens)

/-- Behind a token that opens a construct. -/
theorem Opened.opener {t : Token} (h : Opened fault n (before + 1) full tokens rest)
    (ht : t.kind ∈ openers) : Opened fault n before full (t :: tokens) rest := by
  refine ⟨?_, h.2⟩
  have := h.1
  rw [openings_cons_of_mem ht]
  omega

/-- Nothing is open, and it is not room that is missing. -/
theorem opened_zero (hrest : rest <:+ tokens) (hfault : fault ≠ .tooDeep) :
    Opened fault 0 before full tokens rest := by
  have : openings rest ≤ openings tokens := hrest.sublist.countP_le
  exact ⟨by omega, fun h => absurd h hfault⟩

end

namespace Stuck

/-- What is open inside an expression has tokens of its own, and this is known of its number if
there was no room. -/
def Fits (F : Stuck Nat) (before : Nat) (full : Nat → Prop) : Prop :=
  ∀ ⦃fault : ParseFault⦄ ⦃n : Nat⦄ ⦃tokens rest : List Token⦄, F fault n tokens rest →
    Opened fault n before (full n) tokens rest

section

variable {F G : Stuck Nat} {before : Nat} {full : Nat → Prop}

theorem Crowded.fits : Fits (Crowded 0) 0 (· = 0) := by
  rintro fault n tokens rest ⟨⟩
  exact ⟨Nat.le_refl _, fun _ => rfl⟩

theorem Lacks.fits {kind : TokenKind} {what : Expectation} :
    Fits (Lacks kind what 0) before full := by
  rintro fault n tokens rest ⟨-⟩
  exact opened_zero List.suffix_rfl nofun

theorem Within.fits {room : Nat} (h : Fits F 0 (· = room)) :
    Fits (Within F) 1 (· = room + 1) := by
  rintro fault _ tokens rest ⟨hd⟩
  obtain ⟨hopen, hfull⟩ := h hd
  exact ⟨by omega, fun hfault => congrArg (· + 1) (hfull hfault)⟩

section

variable {α : Type} {R : Spelling α} (hR : R.Leaves) (hF : Fits F before full)
include hR hF

theorem Separated.fits : Fits (Separated R F) before full := by
  intro fault n tokens rest h
  induction h with
  | item hd => exact hF hd
  | later ha _ _ ih => exact ih.cons.behind (hR ha)

theorem Enclosed.fits {close : Expectation} : Fits (Enclosed R F close) before full := by
  intro fault n tokens rest h
  cases h with
  | item _ hd => exact Separated.fits hR hF hd
  | close _ has _ => exact opened_zero (Grammar.Separated.leaves .greedy hR has) nofun

end

theorem LeftAssoc.fits {R : Spelling Expr} (hR : R.Leaves) (hF : Fits F before full)
    {ops : List TokenKind} : Fits (LeftAssoc ops R F) before full := by
  have hjoined : Fits (Joined ops R F) before full := by
    intro fault n tokens rest h
    induction h with
    | operand _ hd => exact (hF hd).cons
    | later _ hright _ ih => exact (ih.behind (hR hright)).cons
  intro fault n tokens rest h
  cases h with
  | first hd => exact hF hd
  | later hfirst hd => exact (hjoined hd).behind (hR hfirst)

theorem Operation.fits {R : Spelling Expr} (hR : R.Leaves) (hF : Fits F before full) :
    Fits (Operation R F) before full := by
  have hclimbing : ∀ others : List (List TokenKind),
      (others.foldr (Grammar.LeftAssoc .greedy) R).Leaves ∧
        Fits (Climbing R F others) before full := by
    intro others
    induction others with
    | nil => exact ⟨hR, hF⟩
    | cons ops others ih =>
      refine ⟨?_, LeftAssoc.fits ih.1 ih.2⟩
      rintro e tokens rest ⟨hfirst, hjoined⟩
      exact (hjoined.leaves _ ih.1).trans (ih.1 hfirst)
  exact (hclimbing levels).2

theorem OperandOf.fits {inner : Spelling Expr} {room : Nat} (hinner : inner.Leaves)
    (hF : Fits F 0 (· = room)) (hG : Fits G 0 (· = room)) :
    Fits (OperandOf inner F G) 0 (· = room + 1) := by
  intro fault n tokens rest h
  cases h with
  | prefixed hkind hd =>
    refine (Within.fits hF hd).opener ?_
    rcases hkind with hkind | hkind <;> simp [hkind, openers]
  | argument _ hopen hd =>
    exact ((Enclosed.fits hinner (Within.fits hG) hd).opener (by simp [hopen, openers])).cons
  | group hopen hd => exact (Within.fits hG hd).opener (by simp [hopen, openers])
  | groupClose _ he _ => exact opened_zero ((hinner he).trans (List.suffix_cons ..)) nofun
  | expression _ => exact opened_zero List.suffix_rfl nofun

end

theorem Operand.fits (room : Nat) : Fits (Operand room) 0 (· = room + 1) := by
  induction room with
  | zero => exact OperandOf.fits False.elim Crowded.fits Crowded.fits
  | succ room ih =>
    have hleaves : (Grammar.Operand .greedy room).Leaves := Grammar.Operand.leaves _ room
    exact OperandOf.fits (Grammar.Operation.leaves _ hleaves) ih (Operation.fits hleaves ih)

theorem Expression.fits (room : Nat) : Fits (Expression room) 0 (· = room) := by
  cases room with
  | zero => exact Crowded.fits
  | succ room => exact Operation.fits (Grammar.Operand.leaves _ room) (Operand.fits room)

/-- What is open has tokens of its own, and if there was no room for the last construct, so many
levels are open. -/
def Nests (F : Stuck Nesting) (levels : Nat) : Prop :=
  ∀ ⦃fault : ParseFault⦄ ⦃d : Nesting⦄ ⦃tokens rest : List Token⦄, F fault d tokens rest →
    Opened fault d.constructs 0 (d.levels = levels) tokens rest

section

variable {F : Stuck Nat} {G : Stuck Nesting} {levels : Nat}

theorem Crowded.nests : Nests (Crowded .outside) 0 := by
  rintro fault n tokens rest ⟨⟩
  exact ⟨Nat.le_refl _, fun _ => rfl⟩

theorem Fits.inExpression {room : Nat} (h : Fits F 0 (· = room)) {fault : ParseFault} {n : Nat}
    {tokens rest : List Token} (hd : F fault n tokens rest) :
    Opened fault (Nesting.inExpression n).constructs 0
      ((Nesting.inExpression n).levels = room + 1) tokens rest := by
  rw [Nesting.constructs_inExpression, Nesting.levels_inExpression]
  exact ⟨(h hd).1, fun hfault => congrArg (· + 1) ((h hd).2 hfault)⟩

theorem Braced.nests {unclosed : List Token → Prop} (h : Nests G levels) :
    Nests (Braced unclosed G) (levels + 1) := by
  intro fault d tokens rest hd
  cases hd with
  | brace _ => exact opened_zero List.suffix_rfl nofun
  | inside hopen hd =>
    obtain ⟨hopened, hfull⟩ := h hd
    refine Opened.opener ⟨?_, fun hfault => ?_⟩ (by simp [hopen, openers])
    · rw [Nesting.constructs_inBlock]
      omega
    · rw [Nesting.levels_inBlock, hfull hfault]
  | close _ _ => exact opened_zero (List.nil_suffix ..) nofun

theorem Statements.nests {R : Spelling Stmt} (hR : R.Leaves) (h : Nests G levels) :
    Nests (Statements R G) levels := by
  intro fault d tokens rest hd
  induction hd with
  | statement _ hd => exact h hd
  | skip _ _ ih => exact ih.cons
  | later _ hs _ ih => exact ih.behind (hR hs)

section

variable {E : Spelling Expr} {B : Spelling (List Stmt)} {room : Nat} (hE : E.Leaves)
  (hB : B.Leaves) (hF : Fits F 0 (· = room)) (hG : Nests G (room + 1))
include hE hB hF hG

theorem ChainOf.nests : Nests (ChainOf E B F G) (room + 1) := by
  intro fault d tokens rest h
  induction h with
  | otherwise _ _ hd => exact (hG hd).cons
  | condition _ _ hd => exact (hF.inExpression hd).cons.cons
  | body _ _ hcond hd => exact ((hG hd).behind (hE hcond)).cons.cons
  | later _ _ hcond hbody _ ih => exact (ih.behind ((hB hbody).trans (hE hcond))).cons.cons

theorem StatementOf.nests : Nests (StatementOf E B F G) (room + 1) := by
  intro fault d tokens rest h
  cases h with
  | name _ _ => exact opened_zero (List.suffix_cons ..) nofun
  | sign _ _ _ => exact opened_zero ((List.suffix_cons ..).trans (List.suffix_cons ..)) nofun
  | binding _ _ _ hd => exact (hF.inExpression hd).cons.cons.cons
  | loop _ hd => exact (hG hd).cons
  | condition _ hd => exact (hF.inExpression hd).cons
  | body _ hcond hd => exact ((hG hd).behind (hE hcond)).cons
  | chain _ hcond hbody hd =>
    exact ((ChainOf.nests hE hB hF hG hd).behind ((hB hbody).trans (hE hcond))).cons
  | returned _ _ hd => exact (hF.inExpression hd).cons
  | function _ => exact opened_zero List.suffix_rfl nofun
  | assignment _ _ hd => exact (hF.inExpression hd).cons.cons
  | plain _ _ hd => exact hF.inExpression hd

end

end

theorem Statement.nests (room : Nat) : Nests (Statement room) (room + 1) := by
  induction room with
  | zero =>
    exact StatementOf.nests (Grammar.Expression.leaves _ 0) (Grammar.Block.leaves _ 0)
      (Expression.fits 0) (Braced.nests Crowded.nests)
  | succ room ih =>
    exact StatementOf.nests (Grammar.Expression.leaves _ (room + 1))
      (Grammar.Block.leaves _ (room + 1)) (Expression.fits (room + 1))
      (Braced.nests (Statements.nests (Grammar.Statement.leaves _ room) ih))

theorem Block.nests (room : Nat) : Nests (Block room) (room + 1) := by
  cases room with
  | zero => exact Braced.nests Crowded.nests
  | succ room =>
    exact Braced.nests (Statements.nests (Grammar.Statement.leaves _ room) (Statement.nests room))

theorem Declaration.nests (room : Nat) : Nests (Declaration room) (room + 1) := by
  intro fault d tokens rest h
  cases h with
  | name _ => exact opened_zero List.suffix_rfl nofun
  | paren _ _ => exact opened_zero (List.suffix_cons ..) nofun
  | @parameter name paren _ n tokens _ _ _ hd =>
    -- no parameter opens anything, so room is never what is missing
    have hfits : Fits (Lacks .identifier .parameterName 0) 0 fun _ => False := Lacks.fits
    obtain ⟨hopen, hfull⟩ := Enclosed.fits (ofKind_leaves .identifier) hfits hd
    have hnone : Opened fault 0 0 (Nesting.outside.levels = room + 1) tokens rest :=
      ⟨by omega, fun hfault => (hfull hfault).elim⟩
    exact hnone.cons.cons
  | body _ _ hparams hd =>
    exact ((Block.nests room hd).behind
      (Grammar.Enclosed.leaves _ (ofKind_leaves _) hparams)).cons.cons

/-- **Where there is no room, one level more is open than there was room for**, and every construct
that is open has a token of its own. -/
theorem Items.nests (room : Nat) : Nests (Items room) (room + 1) := by
  intro fault d tokens rest h
  induction h with
  | statement _ hd => exact Statement.nests room hd
  | function _ hd => exact (Declaration.nests room hd).cons
  | skip _ _ ih => exact ih.cons
  | laterStatement _ hs _ ih => exact ih.behind (Grammar.Statement.leaves _ room hs)
  | laterFunction _ hf _ ih => exact (ih.behind (Grammar.Declaration.leaves _ hf)).cons

end Stuck
end Grammar

open Grammar

/-- The tokens up to the first end token open so much in front of `rest`: a reader gets there that
has room for all of it but the last construct, which it refuses. -/
def Encloses (d : Nesting) (tokens rest : List Token) : Prop :=
  ∃ room, Stuck.Items room .tooDeep d (tokens.takeWhile (·.kind != .eof)) rest

/-- Tokens are refused for their nesting. -/
def NestedTooDeeply (tokens : List Token) : Prop :=
  ∃ e, Program.ofTokens tokens = .error e ∧ e.fault = .tooDeep

theorem nestedTooDeeply_iff {tokens : List Token} :
    NestedTooDeeply tokens ↔
      ∃ rest, program maxNesting (tokens.takeWhile (·.kind != .eof)) = .error ⟨.tooDeep, rest⟩ := by
  rw [NestedTooDeeply, Program.ofTokens, Reader.parse, Reader.ahead_ofTokens,
    (Reader.ofTokens_final tokens).2.2, Nat.sub_zero]
  cases program maxNesting (tokens.takeWhile (·.kind != .eof)) with
  | ok items => simp
  | error failure =>
    obtain ⟨fault, rest⟩ := failure
    simp

/-- **Tokens are refused for their nesting** exactly if somewhere in them more than `maxNesting`
blocks, parentheses and prefixed operators are open, or just as many in front of or inside the
expression of a statement. -/
theorem nestedTooDeeply_iff_encloses (tokens : List Token) :
    NestedTooDeeply tokens ↔
      (∃ d rest, Encloses d tokens rest ∧ maxNesting < d.constructs) ∨
        ∃ d rest, Encloses d tokens rest ∧ d.constructs = maxNesting ∧ d.operands.isSome := by
  rw [nestedTooDeeply_iff]
  constructor
  · rintro ⟨rest, h⟩
    obtain ⟨d, hd⟩ := program_eq_error_iff.1 h
    have hlevels : d.levels = maxNesting + 1 := (Stuck.Items.nests maxNesting hd).2 rfl
    rw [Nesting.levels_eq] at hlevels
    split at hlevels
    · exact .inr ⟨d, rest, ⟨_, hd⟩, Nat.succ.inj hlevels, ‹_›⟩
    · exact .inl ⟨d, rest, ⟨_, hd⟩, by omega⟩
  · intro h
    obtain ⟨d, rest, ⟨room, hd⟩, hlevels⟩ :
        ∃ d rest, Encloses d tokens rest ∧ maxNesting < d.levels := by
      rcases h with ⟨d, rest, hd, hmore⟩ | ⟨d, rest, hd, hsame, hinside⟩
      · refine ⟨d, rest, hd, ?_⟩
        rw [Nesting.levels_eq]
        split <;> omega
      · refine ⟨d, rest, hd, ?_⟩
        rw [Nesting.levels_eq, if_pos hinside]
        omega
    rw [(Stuck.Items.nests room hd).2 rfl] at hlevels
    exact program_tooDeep_of_le (Nat.le_of_lt_succ hlevels) (program_eq_error_iff.2 ⟨d, hd⟩)

/-- A number inside parentheses. -/
def grouped (depth : Nat) : List Token :=
  List.replicate depth ⟨.leftParen, "(", .start, none⟩ ++
    ⟨.number, "1", .start, some (.int 1)⟩ ::
      List.replicate depth ⟨.rightParen, ")", .start, none⟩

/-- A number inside `maxNesting` parentheses is refused for its nesting, although no more than
`maxNesting` of them are open anywhere. -/
theorem nestedTooDeeply_grouped :
    NestedTooDeeply (grouped maxNesting) ∧
      ∀ d rest, Encloses d (grouped maxNesting) rest → d.constructs ≤ maxNesting := by
  constructor
  · have hrefused : (match Program.ofTokens (grouped maxNesting) with
        | .error e => some e.fault
        | .ok _ => none) = some .tooDeep := by
      decide +kernel
    rw [NestedTooDeeply]
    cases h : Program.ofTokens (grouped maxNesting) with
    | ok p =>
      rw [h] at hrefused
      cases hrefused
    | error e =>
      rw [h] at hrefused
      exact ⟨e, rfl, Option.some.inj hrefused⟩
  · rintro d rest ⟨room, hd⟩
    have hopenings : openings ((grouped maxNesting).takeWhile (·.kind != .eof)) = maxNesting := by
      decide +kernel
    have := (Stuck.Items.nests room hd).1
    omega

end Octet
