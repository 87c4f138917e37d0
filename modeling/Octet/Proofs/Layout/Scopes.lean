import Octet.Proofs.Layout.Expressions
import Octet.Proofs.Layout.Ways
import Octet.Proofs.Machine.Registers

/-!
# Variables in scope

A draft asks of a variable that it was bound somewhere above, and nothing else: the binding may be
in a block that is never entered.  A program is *lexically scoped* if every variable that is read
was bound by an earlier statement of the same block, or of a block around it.  The value of a
binding is read before the binding, and what an assignment assigns to is not read.

Of such a program the variables in scope are written wherever the machine gets to.  The proof goes
backwards through the layout (`Stmt.Relays`): a part reads written registers if whatever comes after
it does, with the variables that are in scope there (`Stmt.covered`).  Only a binding has more
variables in scope behind it than in front of it, and what comes after a block does not count on
those that are bound in the block.
-/

namespace Octet

open Code

/-! ## Scopes -/

/-- Every variable that an expression reads is in scope. -/
def Expr.readsIn (scope : List String) (e : Expr) : Bool :=
  e.reads.all fun name => decide (name ∈ scope)

/-- The variables in scope behind a statement. -/
def Stmt.scopeAfter (scope : List String) : Stmt → List String
  | .letDecl _ name _ => name :: scope
  | _ => scope

mutual

/-- Every variable that a statement reads is in scope. -/
def Stmt.scoped (scope : List String) : Stmt → Bool
  | .exprStmt _ e => e.readsIn scope
  | .letDecl _ _ value | .assign _ _ value => value.readsIn scope
  | .returning _ none | .breaking _ | .misplaced _ => true
  | .returning _ (some value) => value.readsIn scope
  | .conditional _ cond body rest =>
    cond.readsIn scope && Stmt.scopedList scope body && rest.scoped scope
  | .loop _ body => Stmt.scopedList scope body
  | .fnDecl _ _ params body => Stmt.scopedList (params ++ scope) body

/-- Every variable that a block reads is in scope: each statement has those in scope that the
statements before it have bound. -/
def Stmt.scopedList (scope : List String) : List Stmt → Bool
  | [] => true
  | s :: ss => s.scoped scope && Stmt.scopedList (s.scopeAfter scope) ss

/-- Every variable that is read in what follows a block of a conditional is in scope. -/
def Chain.scoped (scope : List String) : Chain → Bool
  | .done => true
  | .otherwise body => Stmt.scopedList scope body
  | .elseIf cond body rest =>
    cond.readsIn scope && Stmt.scopedList scope body && rest.scoped scope

end

/-- Every variable that a program reads was bound by an earlier statement of the same block, or of
a block around it. -/
def Program.LexicallyScoped (p : Program) : Prop :=
  Stmt.scopedList [] p.items = true

instance (p : Program) : Decidable p.LexicallyScoped :=
  inferInstanceAs (Decidable (_ = true))

theorem Stmt.subset_scopeAfter (scope : List String) (s : Stmt) : scope ⊆ s.scopeAfter scope := by
  cases s with
  | letDecl pos name value => exact List.subset_cons_self name scope
  | _ => exact List.Subset.refl scope

/-! ## Statements -/

section

variable {code : List UInt8} {n a : Nat}

/-- Straight instructions in front of others. -/
theorem Covered.straight {known : UInt8 → Prop} {is : List Instr} (hplaced : Placed code a is)
    (his : Straight known is) (hnext : Covered code n (a + Code.size is) known) :
    Covered code n a known := by
  induction is generalizing a with
  | nil => exact hnext
  | cons i is ih =>
    have hi := his i (List.mem_cons_self ..)
    rw [size_cons, ← Nat.add_assoc] at hnext
    refine .cons (fetch?_of_placed hplaced) hi.load ?_ fun t ht => ?_
    · refine (ih (placed_tail hplaced) (fun j hj => his j (List.mem_cons_of_mem i hj)) hnext).mono ?_
      exact fun r hr => .inr hr
    · rw [hi.target] at ht
      cases ht

variable {t : Tables} {scope : List String}

/-- An expression in front of something. -/
theorem Expr.covered {e : Expr} {is : List Instr} (h : e.instrs? t = some is)
    (hreads : e.readsIn scope = true) (hplaced : Placed code a is)
    (hnext : Covered code n (a + e.size) (t.Known scope)) : Covered code n a (t.Known scope) := by
  rw [← Expr.size_instrs h] at hnext
  have hscope : e.reads ⊆ scope := fun name hname =>
    of_decide_eq_true (List.all_eq_true.1 hreads name hname)
  exact .straight hplaced ((Expr.straight e h).mono fun _ hr => hr.mono hscope) hnext

/-- The next instructions from an address read registers of variables in scope only. -/
def CoveredIn (t : Tables) (code : List UInt8) (scope : List String) (n a : Nat) : Prop :=
  Covered code n a (t.Known scope)

/-- A value that is stored in front of something. -/
theorem covered_store {value : Expr} {js : List Instr} {r : UInt8}
    (hjs : value.instrs? t = some js) (hreads : value.readsIn scope = true)
    (hplaced : Placed code a (js ++ [.storeRegister r]))
    (hnext : Covered code n (a + (value.size + 2)) fun q => q = r ∨ t.Known scope q) :
    CoveredIn t code scope n a := by
  obtain ⟨hvalue, hstore⟩ := placed_append hplaced
  rw [Expr.size_instrs hjs] at hstore
  rw [← Nat.add_assoc] at hnext
  refine Expr.covered hjs hreads hvalue (.cons (fetch?_of_placed hstore) (by simp) ?_ ?_)
  · exact hnext.mono fun q => Or.imp_left List.mem_singleton.2
  · intro u hu
    cases hu

/-- A jump in front of something. -/
theorem covered_ahead (t : Tables) (code : List UInt8) (scope : List String) :
    Ahead code (CoveredIn t code scope) where
  none _ := trivial
  fewer := .fewer
  jump h hplaced hnext htarget := by
    obtain ⟨b, hb, rfl⟩ := Option.map_eq_some_iff.1 h
    refine .step (fetch?_of_placed hplaced) (by simp) (hnext.mono fun r hr => .inr hr) ?_
    intro t ht
    cases ht
    rwa [toNat_of_byte? hb]

/-- A test and a branch in front of a block. -/
theorem Expr.relays_covered {cond : Expr} (hreads : cond.readsIn scope = true) :
    cond.Relays t code (CoveredIn t code scope) := by
  intro n a target test branch htest hbranch hplacedTest hplacedBranch hblock htarget
  obtain ⟨b, hb, rfl⟩ := Option.map_eq_some_iff.1 hbranch
  refine Expr.covered htest hreads hplacedTest ?_
  refine .cons (fetch?_of_placed hplacedBranch) (by simp) (hblock.mono fun r hr => .inr hr) ?_
  intro u hu
  cases hu
  rwa [toNat_of_byte? hb]

mutual

/-- **A statement reads written registers** if what comes after it does. -/
theorem Stmt.covered : ∀ (s : Stmt) {scope : List String} {base : Nat}, s.scoped scope = true →
    s.Relays t code (CoveredIn t code scope) (CoveredIn t code (s.scopeAfter scope)) base
  | .exprStmt pos e, scope, base, hscoped => by
    intro loopEnd is n h hplaced hnext _
    rw [Stmt.instrs?] at h
    rw [Stmt.size] at hnext
    exact Expr.covered h hscoped hplaced hnext
  | .letDecl pos name value, scope, base, hscoped => by
    intro loopEnd is n h hplaced hnext _
    rw [Stmt.instrs?] at h
    rw [Stmt.size] at hnext
    obtain ⟨js, r, hjs, hr, rfl⟩ := Stmt.of_store h
    refine covered_store hjs hscoped hplaced (hnext.mono fun q hq => ?_)
    -- the variable that is bound here, or one that was in scope before
    obtain ⟨x, hx, hq⟩ := hq
    rcases List.mem_cons.1 hx with rfl | hx
    · exact .inl (Option.some.inj (hq.symm.trans hr))
    · exact .inr ⟨x, hx, hq⟩
  | .assign pos name value, scope, base, hscoped => by
    intro loopEnd is n h hplaced hnext _
    rw [Stmt.instrs?] at h
    rw [Stmt.size] at hnext
    obtain ⟨js, r, hjs, -, rfl⟩ := Stmt.of_store h
    exact covered_store hjs hscoped hplaced (hnext.mono fun q hq => .inr hq)
  | .returning pos none, scope, base, hscoped => by
    intro loopEnd is n h hplaced hnext _
    rw [Stmt.instrs?] at h
    cases h
    exact .cons (fetch?_of_placed hplaced) (by simp) (hnext.mono fun q hq => .inr hq) nofun
  | .returning pos (some value), scope, base, hscoped => by
    intro loopEnd is n h hplaced hnext _
    rw [Stmt.instrs?] at h
    rw [Stmt.size] at hnext
    obtain ⟨js, hjs, h⟩ := Option.bind_eq_some_iff.1 h
    cases h
    obtain ⟨hvalue, hret⟩ := placed_append hplaced
    rw [Expr.size_instrs hjs] at hret
    refine Expr.covered hjs hscoped hvalue (.cons (fetch?_of_placed hret) (by simp) ?_ nofun)
    exact hnext.mono fun q hq => .inr hq
  | .breaking pos, scope, base, hscoped => Stmt.relays_breaking (covered_ahead ..) pos
  | .conditional pos cond body rest, scope, base, hscoped => by
    rw [Stmt.scoped, Bool.and_eq_true, Bool.and_eq_true] at hscoped
    obtain ⟨⟨hcond, hbody⟩, hrest⟩ := hscoped
    exact Stmt.relays_conditional (Expr.relays_covered hcond) (Stmt.coveredList body hbody)
      (Chain.covered rest hrest)
  | .loop pos body, scope, base, hscoped =>
    Stmt.relays_loop (covered_ahead ..) (Stmt.coveredList body hscoped)
  | .fnDecl .., scope, base, hscoped
  | .misplaced kind, scope, base, hscoped => by
    intro loopEnd is n h _ _ _
    rw [Stmt.instrs?] at h
    cases h

/-- A block reads written registers if what comes after it does. -/
theorem Stmt.coveredList : ∀ (ss : List Stmt) {scope : List String} {base : Nat},
    Stmt.scopedList scope ss = true → Stmt.RelaysList t code (CoveredIn t code scope) base ss
  | [], scope, base, _ => Stmt.relays_nil
  | s :: ss, scope, base, hscoped => by
    rw [Stmt.scopedList, Bool.and_eq_true] at hscoped
    refine Stmt.relays_cons (Stmt.covered s hscoped.1) (Stmt.coveredList ss hscoped.2) ?_
    exact fun n a hknown => hknown.mono fun _ hr => hr.mono (s.subset_scopeAfter scope)

/-- What follows a block of a conditional reads written registers if what comes after the
conditional does. -/
theorem Chain.covered : ∀ (rest : Chain) {scope : List String} {base : Nat},
    rest.scoped scope = true → rest.Relays t code (CoveredIn t code scope) base
  | .done, scope, base, _ => Chain.relays_done
  | .otherwise body, scope, base, hscoped =>
    Chain.relays_otherwise (covered_ahead ..) (Stmt.coveredList body hscoped)
  | .elseIf cond body rest, scope, base, hscoped => by
    rw [Chain.scoped, Bool.and_eq_true, Bool.and_eq_true] at hscoped
    obtain ⟨⟨hcond, hbody⟩, hrest⟩ := hscoped
    exact Chain.relays_elseIf (covered_ahead ..) (Expr.relays_covered hcond)
      (Stmt.coveredList body hbody) (Chain.covered rest hrest)

end

/-- **A lexically scoped program reads written registers.** -/
theorem Program.covered {p : Program} {is : List Instr} (h : p.instrs? t = some is)
    (hscoped : p.LexicallyScoped) (n : Nat) (written : UInt8 → Prop) :
    Covered (assemble is) n 0 written := by
  have hlaid := Program.laidOut h
  have hend : CoveredIn t (assemble is) [] n (0 + Stmt.sizeList p.items) := by
    rw [Nat.zero_add, ← hlaid.size_eq, ← length_assemble]
    exact .of_end _ n _
  refine (Stmt.coveredList p.items hscoped h (placed_assemble hlaid.spellable) hend nofun).mono ?_
  rintro r ⟨name, hname, -⟩
  exact absurd hname List.not_mem_nil

end

end Octet
