import Octet.Proofs.Layout.Expressions

/-!
# Loops are where the code goes back

A part of a program that is no loop jumps forward: a failed test behind the block that it guards, a
block behind the conditional, a `break` behind the loop around it.  The one jump that leads back is
the last instruction of a loop, which leads to the first one.

`Stmt.loops` finds the loops in a tree and tells where they are in the code, in the order in which
they end there, and `Stmt.backJumps_eq` says that the jumps that lead back are theirs, one for one
and in this order.  What has to be known of the surroundings of a part is that the end of the
innermost loop and the end of the conditional lie ahead of it.  These ends need not be apart: a
block may be empty, and many parts may end at one place.
-/

namespace Octet

open Code

/-! ## The places of loops -/

/-- A loop, and the address at which its code begins. -/
structure LoopSite where
  start : Nat
  body : List Stmt

namespace LoopSite

/-- The address of the jump that leads back. -/
def back (l : LoopSite) : Nat :=
  l.start + Stmt.sizeList l.body

/-- The address behind the loop. -/
def finish (l : LoopSite) : Nat :=
  l.back + 2

/-- The jump that leads back, with its address. -/
def backJump (l : LoopSite) : Nat × Instr :=
  (l.back, .jump (UInt8.ofNat l.start))

end LoopSite

mutual

/-- The loops of a statement that begins at an address. -/
def Stmt.loops (base : Nat) : Stmt → List LoopSite
  | .conditional _ cond body rest =>
    Stmt.loopsList (base + cond.size + 2) body ++
      rest.loops (base + cond.size + 2 + Stmt.sizeList body)
  | .loop _ body => Stmt.loopsList base body ++ [⟨base, body⟩]
  | _ => []

/-- The loops of a block that begins at an address. -/
def Stmt.loopsList (base : Nat) : List Stmt → List LoopSite
  | [] => []
  | s :: ss => s.loops base ++ Stmt.loopsList (base + s.size) ss

/-- The loops of what follows a block of a conditional. -/
def Chain.loops (base : Nat) : Chain → List LoopSite
  | .done => []
  | .otherwise body => Stmt.loopsList (base + 2) body
  | .elseIf cond body rest =>
    Stmt.loopsList (base + 2 + cond.size + 2) body ++
      rest.loops (base + 2 + cond.size + 2 + Stmt.sizeList body)

end

/-- The loops of a program. -/
def Program.loops (p : Program) : List LoopSite :=
  Stmt.loopsList 0 p.items

/-! ## Jumps that lead back -/

/-- The instruction jumps, and not ahead. -/
def leadsBack (located : Nat × Instr) : Bool :=
  located.2.target?.any (· ≤ located.1)

/-- The jumps among the instructions that lead back. -/
def backJumps (base : Nat) (is : List Instr) : List (Nat × Instr) :=
  (locate base is).filter leadsBack

theorem backJumps_append (base : Nat) (is js : List Instr) :
    backJumps base (is ++ js) = backJumps base is ++ backJumps (base + Code.size is) js := by
  rw [backJumps, locate_append, List.filter_append]
  rfl

/-- A jump ahead does not lead back. -/
theorem backJumps_ahead {base : Nat} {i : Instr} (h : ∀ a, i.target? = some a → base < a) :
    backJumps base [i] = [] := by
  refine List.filter_eq_nil_iff.2 fun located hmem => ?_
  rw [List.mem_singleton.1 hmem, leadsBack]
  cases htarget : i.target? with
  | none => exact Bool.false_ne_true
  | some a => simpa using h a htarget

section

variable {t : Tables} {a base : Nat} {i : Instr} {is : List Instr}

/-- An expression does not jump. -/
theorem Expr.backJumps {e : Expr} (h : e.instrs? t = some is) (base : Nat) :
    Octet.backJumps base is = [] := by
  refine List.filter_eq_nil_iff.2 fun located hmem => ?_
  rw [leadsBack, (Expr.straight e h _ (mem_of_mem_locate hmem)).target]
  exact Bool.false_ne_true

theorem backJumps_jumpTo (h : jumpTo? a = some i) (hahead : base < a) : backJumps base [i] = [] := by
  obtain ⟨b, hb, rfl⟩ := Option.map_eq_some_iff.1 h
  refine backJumps_ahead fun target htarget => ?_
  cases htarget
  rwa [toNat_of_byte? hb]

theorem backJumps_branchTo (h : branchTo? a = some i) (hahead : base < a) :
    backJumps base [i] = [] := by
  obtain ⟨b, hb, rfl⟩ := Option.map_eq_some_iff.1 h
  refine backJumps_ahead fun target htarget => ?_
  cases htarget
  rwa [toNat_of_byte? hb]

/-- The jump at the end of a loop leads back. -/
theorem backJumps_loop {l : LoopSite} (h : jumpTo? l.start = some i) :
    backJumps l.back [i] = [l.backJump] := by
  obtain ⟨rfl, hnat⟩ := eq_of_jumpTo? h
  have hle : l.start ≤ l.back := Nat.le_add_right ..
  have hleads : leadsBack l.backJump = true := by
    rw [leadsBack, LoopSite.backJump, Instr.target?, hnat]
    simpa using hle
  show [l.backJump].filter leadsBack = _
  rw [List.filter_cons_of_pos hleads, List.filter_nil]

/-- A test, its block and what follows the block. -/
theorem backJumps_clause {cond : Expr} {body : List Stmt} {loopEnd : Option Nat} {entry : Nat}
    {test block : List Instr} {branch : Instr} (others : List Instr) (htest : cond.instrs? t = some test)
    (hbranch : branchTo? (base + cond.size + 2 + Stmt.sizeList body + entry) = some branch)
    (hblock : Stmt.instrsList? t loopEnd (base + cond.size + 2) body = some block) :
    backJumps base (test ++ [branch] ++ block ++ others) =
      backJumps (base + cond.size + 2) block ++
        backJumps (base + cond.size + 2 + Stmt.sizeList body) others := by
  have hahead : backJumps (base + cond.size) [branch] = [] := backJumps_branchTo hbranch (by omega)
  simp only [backJumps_append, size_append, size_cons, size_nil, Expr.size_instrs htest,
    size_branchTo hbranch, (Stmt.laidOutList body hblock).size_eq, Expr.backJumps htest, hahead,
    List.nil_append, Nat.add_zero, Nat.add_assoc]

end

mutual

/-- **The jumps of a statement that lead back are those of its loops**, if the end of the innermost
loop lies ahead. -/
theorem Stmt.backJumps_eq {t : Tables} : ∀ (s : Stmt) {loopEnd : Option Nat} {base : Nat}
    {is : List Instr}, s.instrs? t loopEnd base = some is →
    (∀ e, loopEnd = some e → base + s.size ≤ e) →
    backJumps base is = (s.loops base).map LoopSite.backJump
  | .exprStmt pos e, loopEnd, base, is, h, hend => by
    rw [Stmt.instrs?] at h
    exact Expr.backJumps h base
  | .letDecl pos name value, loopEnd, base, is, h, hend
  | .assign pos name value, loopEnd, base, is, h, hend => by
    rw [Stmt.instrs?] at h
    obtain ⟨js, r, hjs, hr, rfl⟩ := Stmt.of_store h
    rw [backJumps_append, Expr.backJumps hjs, backJumps_ahead (by simp [Instr.target?])]
    rfl
  | .returning pos none, loopEnd, base, is, h, hend => by
    rw [Stmt.instrs?] at h
    cases h
    exact backJumps_ahead (by simp [Instr.target?])
  | .returning pos (some value), loopEnd, base, is, h, hend => by
    rw [Stmt.instrs?] at h
    obtain ⟨js, hjs, h⟩ := Option.bind_eq_some_iff.1 h
    cases h
    rw [backJumps_append, Expr.backJumps hjs, backJumps_ahead (by simp [Instr.target?])]
    rfl
  | .breaking pos, loopEnd, base, is, h, hend => by
    obtain ⟨e, i, he, hi, rfl⟩ := Stmt.of_breaking h
    have hahead := hend e he
    rw [Stmt.size] at hahead
    exact backJumps_jumpTo hi (by omega)
  | .conditional pos cond body rest, loopEnd, base, is, h, hend => by
    obtain ⟨test, branch, block, others, htest, hbranch, hblock, hothers, rfl⟩ :=
      Stmt.of_conditional h
    have hinside : ∀ e, loopEnd = some e →
        base + cond.size + 2 + Stmt.sizeList body + rest.size ≤ e := by
      intro e he
      have hahead := hend e he
      rw [Stmt.size] at hahead
      omega
    rw [backJumps_clause others htest hbranch hblock, Stmt.loops, List.map_append,
      Stmt.backJumps_eqList body hblock fun e he => by have := hinside e he; omega,
      Chain.backJumps_eq rest hothers (Nat.le_refl _) hinside]
  | .loop pos body, loopEnd, base, is, h, hend => by
    obtain ⟨block, back, hblock, hback, rfl⟩ := Stmt.of_loop h
    have hinside : ∀ e, some (base + Stmt.sizeList body + 2) = some e →
        base + Stmt.sizeList body ≤ e := by
      rintro e he
      cases he
      omega
    have hloop : backJumps (base + Stmt.sizeList body) [back] = [LoopSite.backJump ⟨base, body⟩] :=
      backJumps_loop (l := ⟨base, body⟩) hback
    rw [backJumps_append, (Stmt.laidOutList body hblock).size_eq, hloop, Stmt.loops,
      List.map_append, Stmt.backJumps_eqList body hblock hinside]
    rfl
  | .fnDecl .., loopEnd, base, is, h, hend
  | .misplaced kind, loopEnd, base, is, h, hend => by
    rw [Stmt.instrs?] at h
    cases h

theorem Stmt.backJumps_eqList {t : Tables} : ∀ (ss : List Stmt) {loopEnd : Option Nat}
    {base : Nat} {is : List Instr}, Stmt.instrsList? t loopEnd base ss = some is →
    (∀ e, loopEnd = some e → base + Stmt.sizeList ss ≤ e) →
    backJumps base is = (Stmt.loopsList base ss).map LoopSite.backJump
  | [], loopEnd, base, is, h, hend => by
    rw [Stmt.instrsList?] at h
    cases h
    rfl
  | s :: ss, loopEnd, base, is, h, hend => by
    obtain ⟨js, ks, hjs, hks, rfl⟩ := Stmt.of_cons h
    have hinside : ∀ e, loopEnd = some e → base + s.size + Stmt.sizeList ss ≤ e := by
      intro e he
      have hahead := hend e he
      rw [Stmt.sizeList] at hahead
      omega
    rw [backJumps_append, (Stmt.laidOut s hjs).size_eq, Stmt.loopsList, List.map_append,
      Stmt.backJumps_eq s hjs fun e he => by have := hinside e he; omega,
      Stmt.backJumps_eqList ss hks hinside]

/-- The same of what follows a block of a conditional, which has the end of the conditional ahead of
it as well. -/
theorem Chain.backJumps_eq {t : Tables} : ∀ (rest : Chain) {loopEnd : Option Nat}
    {finish base : Nat} {is : List Instr}, rest.instrs? t loopEnd finish base = some is →
    base + rest.size ≤ finish → (∀ e, loopEnd = some e → base + rest.size ≤ e) →
    backJumps base is = (rest.loops base).map LoopSite.backJump
  | .done, loopEnd, finish, base, is, h, hfinish, hend => by
    rw [Chain.instrs?] at h
    cases h
    rfl
  | .otherwise body, loopEnd, finish, base, is, h, hfinish, hend => by
    rw [Chain.size] at hfinish hend
    obtain ⟨exit, block, hexit, hblock, rfl⟩ := Chain.of_otherwise h
    rw [backJumps_append, size_jumpTo hexit, backJumps_jumpTo hexit (by omega), Chain.loops,
      List.nil_append,
      Stmt.backJumps_eqList body hblock fun e he => by have := hend e he; omega]
  | .elseIf cond body rest, loopEnd, finish, base, is, h, hfinish, hend => by
    rw [Chain.size] at hfinish hend
    obtain ⟨exit, test, branch, block, others, hexit, htest, hbranch, hblock, hothers, rfl⟩ :=
      Chain.of_elseIf h
    have hinside : ∀ e, loopEnd = some e →
        base + 2 + cond.size + 2 + Stmt.sizeList body + rest.size ≤ e := by
      intro e he
      have hahead := hend e he
      omega
    have hclause := backJumps_clause others htest hbranch hblock
    simp only [List.append_assoc] at hclause ⊢
    rw [backJumps_append, size_jumpTo hexit, backJumps_jumpTo hexit (by omega), List.nil_append,
      hclause, Chain.loops, List.map_append,
      Stmt.backJumps_eqList body hblock fun e he => by have := hinside e he; omega,
      Chain.backJumps_eq rest hothers (by omega) hinside]

end

/-- **The jumps of a program that lead back are those of its loops**, in the order in which they
end. -/
theorem Program.backJumps_eq {t : Tables} {p : Program} {is : List Instr}
    (h : p.instrs? t = some is) : backJumps 0 is = p.loops.map LoopSite.backJump :=
  Stmt.backJumps_eqList p.items h nofun

end Octet
