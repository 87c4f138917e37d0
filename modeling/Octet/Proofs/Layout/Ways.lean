import Octet.Proofs.Layout.Targets

/-!
# The ways through a layout

Some properties of code look at the next so many instructions from an address, whichever way these
go: whether they read written registers only, whether they find the stack empty where they should.
Of a layout such a property is proved backwards.  It holds where a statement begins if it holds
where the statement may be left, which is behind it and behind the innermost loop
(`Stmt.Relays`).

For `break`, and for statements that have others inside, this is the same whatever the property is.
There is one lemma here for each kind of them, which says how its parts are placed and where each of
them goes on.  Of the property it takes no more than what `Ahead` says.  Tests (`Expr.Relays`) and
all other statements are left to the property.

A loop comes after itself, so in a loop the induction is on the number of instructions that are
looked at.  The jump back is one of them, and for no instructions at all there is nothing to say.
-/

namespace Octet

open Code

/-- A property of the next so many instructions from an address, whichever way they go.  It holds of
a jump in front of others if it holds behind the jump and at its target, and the jump is counted. -/
structure Ahead (code : List UInt8) (P : Nat → Nat → Prop) : Prop where
  none : ∀ a, P 0 a
  fewer : ∀ {n a : Nat}, P (n + 1) a → P n a
  jump : ∀ {n a target : Nat} {i : Instr}, jumpTo? target = some i → Placed code a [i] →
    P n (a + 2) → P n target → P (n + 1) a

section

variable (t : Tables) (code : List UInt8) (P Q : Nat → Nat → Prop)

/-- The property holds where a test begins, if it holds behind the branch that ends the test and
where the branch leads. -/
def Expr.Relays (cond : Expr) : Prop :=
  ∀ ⦃n a target : Nat⦄ ⦃test : List Instr⦄ ⦃branch : Instr⦄, cond.instrs? t = some test →
    branchTo? target = some branch → Placed code a test → Placed code (a + cond.size) [branch] →
    P n (a + cond.size + 2) → P n target → P n a

/-- The first property holds where a statement at this address begins, if the second one holds behind
the statement and the first one behind the innermost loop. -/
def Stmt.Relays (base : Nat) (s : Stmt) : Prop :=
  ∀ ⦃loopEnd : Option Nat⦄ ⦃is : List Instr⦄ ⦃n : Nat⦄, s.instrs? t loopEnd base = some is →
    Placed code base is → Q n (base + s.size) → (∀ e, loopEnd = some e → P n e) → P n base

/-- The property holds where a block at this address begins, if it holds behind the block and behind
the innermost loop. -/
def Stmt.RelaysList (base : Nat) (ss : List Stmt) : Prop :=
  ∀ ⦃loopEnd : Option Nat⦄ ⦃is : List Instr⦄ ⦃n : Nat⦄,
    Stmt.instrsList? t loopEnd base ss = some is → Placed code base is →
    P n (base + Stmt.sizeList ss) → (∀ e, loopEnd = some e → P n e) → P n base

/-- The property holds behind a block of a conditional, which is at this address, and where the test
of the block goes on if it fails, if it holds behind the conditional and behind the innermost
loop. -/
def Chain.Relays (base : Nat) (rest : Chain) : Prop :=
  ∀ ⦃loopEnd : Option Nat⦄ ⦃finish : Nat⦄ ⦃is : List Instr⦄ ⦃n : Nat⦄,
    rest.instrs? t loopEnd finish base = some is → Placed code base is →
    finish = base + rest.size → P n finish → (∀ e, loopEnd = some e → P n e) →
    P n base ∧ P n (base + rest.entry)

end

variable {t : Tables} {code : List UInt8} {P Q : Nat → Nat → Prop} {base : Nat}

/-- A jump in front of others. -/
theorem Ahead.jumpTo (hP : Ahead code P) {n a target : Nat} {i : Instr}
    (hi : jumpTo? target = some i) (hplaced : Placed code a [i]) (hnext : P n (a + 2))
    (htarget : P n target) : P n a :=
  hP.fewer (hP.jump hi hplaced hnext htarget)

theorem Stmt.relays_breaking (hP : Ahead code P) (pos : Pos) :
    Stmt.Relays t code P P base (.breaking pos) := by
  intro loopEnd is n h hplaced hnext hloop
  obtain ⟨e, i, he, hi, rfl⟩ := Stmt.of_breaking h
  exact hP.jumpTo hi hplaced hnext (hloop e he)

theorem Stmt.relays_conditional {pos : Pos} {cond : Expr} {body : List Stmt} {rest : Chain}
    (hcond : cond.Relays t code P) (hbody : Stmt.RelaysList t code P (base + cond.size + 2) body)
    (hrest : rest.Relays t code P (base + cond.size + 2 + Stmt.sizeList body)) :
    Stmt.Relays t code P P base (.conditional pos cond body rest) := by
  intro loopEnd is n h hplaced hnext hloop
  obtain ⟨test, branch, block, others, htest, hbranch, hblock, hothers, rfl⟩ :=
    Stmt.of_conditional h
  obtain ⟨htested, hbranched, hblocked, hchained⟩ :=
    placed_clause htest (size_branchTo hbranch) hblock hplaced
  have hsize : base + (Stmt.conditional pos cond body rest).size =
      base + cond.size + 2 + Stmt.sizeList body + rest.size := by
    rw [Stmt.size]
    omega
  rw [hsize] at hnext
  obtain ⟨hleft, hentry⟩ := hrest hothers hchained rfl hnext hloop
  exact hcond htest hbranch htested hbranched (hbody hblock hblocked hleft hloop) hentry

theorem Stmt.relays_loop (hP : Ahead code P) {pos : Pos} {body : List Stmt}
    (hbody : Stmt.RelaysList t code P base body) :
    Stmt.Relays t code P P base (.loop pos body) := by
  intro loopEnd is n h hplaced hnext hloop
  clear hloop
  rw [Stmt.size] at hnext
  obtain ⟨block, back, hblock, hback, rfl⟩ := Stmt.of_loop h
  obtain ⟨hblocked, hbacked⟩ := placed_append hplaced
  rw [(Stmt.laidOutList body hblock).size_eq] at hbacked
  -- around the loop with one instruction less
  induction n with
  | zero => exact hP.none base
  | succ n ih =>
    have hagain := ih (hP.fewer hnext)
    refine hbody hblock hblocked (hP.jump hback hbacked (hP.fewer hnext) hagain) fun e he => ?_
    cases he
    exact hnext

theorem Stmt.relays_nil : Stmt.RelaysList t code P base [] := by
  intro loopEnd is n _ _ hnext _
  rwa [Stmt.sizeList, Nat.add_zero] at hnext

/-- Behind the first statement of a block, more may hold than in front of it. -/
theorem Stmt.relays_cons {s : Stmt} {ss : List Stmt} (hs : s.Relays t code P Q base)
    (hss : Stmt.RelaysList t code Q (base + s.size) ss) (hmore : ∀ n a, P n a → Q n a) :
    Stmt.RelaysList t code P base (s :: ss) := by
  intro loopEnd is n h hplaced hnext hloop
  rw [Stmt.sizeList, ← Nat.add_assoc] at hnext
  obtain ⟨js, ks, hjs, hks, rfl⟩ := Stmt.of_cons h
  obtain ⟨hfirst, hothers⟩ := placed_append hplaced
  rw [(Stmt.laidOut s hjs).size_eq] at hothers
  exact hs hjs hfirst (hss hks hothers (hmore _ _ hnext) fun e he => hmore _ _ (hloop e he)) hloop

theorem Chain.relays_done : Chain.done.Relays t code P base := by
  intro loopEnd finish is n _ _ hfinish hnext _
  rw [Chain.size, Nat.add_zero] at hfinish
  rw [Chain.entry, Nat.add_zero, ← hfinish]
  exact ⟨hnext, hnext⟩

theorem Chain.relays_otherwise (hP : Ahead code P) {body : List Stmt}
    (hbody : Stmt.RelaysList t code P (base + 2) body) :
    (Chain.otherwise body).Relays t code P base := by
  intro loopEnd finish is n h hplaced hfinish hnext hloop
  rw [Chain.size, ← Nat.add_assoc] at hfinish
  obtain ⟨exit, block, hexit, hblock, rfl⟩ := Chain.of_otherwise h
  obtain ⟨hexited, hblocked⟩ := placed_append hplaced
  rw [size_jumpTo hexit] at hblocked
  have hentry := hbody hblock hblocked (hfinish ▸ hnext) hloop
  exact ⟨hP.jumpTo hexit hexited hentry hnext, hentry⟩

theorem Chain.relays_elseIf (hP : Ahead code P) {cond : Expr} {body : List Stmt} {rest : Chain}
    (hcond : cond.Relays t code P)
    (hbody : Stmt.RelaysList t code P (base + 2 + cond.size + 2) body)
    (hrest : rest.Relays t code P (base + 2 + cond.size + 2 + Stmt.sizeList body)) :
    (Chain.elseIf cond body rest).Relays t code P base := by
  intro loopEnd finish is n h hplaced hfinish hnext hloop
  obtain ⟨exit, test, branch, block, others, hexit, htest, hbranch, hblock, hothers, rfl⟩ :=
    Chain.of_elseIf h
  obtain ⟨hexited, htested, hbranched, hblocked, hchained⟩ :=
    placed_elseIf hexit htest (size_branchTo hbranch) hblock hplaced
  have hend : finish = base + 2 + cond.size + 2 + Stmt.sizeList body + rest.size := by
    rw [hfinish, Chain.size]
    omega
  obtain ⟨hleft, hentry⟩ := hrest hothers hchained hend hnext hloop
  have hgo := hcond htest hbranch htested hbranched (hbody hblock hblocked hleft hloop) hentry
  exact ⟨hP.jumpTo hexit hexited hgo hnext, hgo⟩

end Octet
