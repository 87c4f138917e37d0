import Octet.Proofs.Layout.Loops

/-!
# Loops that are never left

A loop is left by a `break` of its own or by a `return`; a `break` of a loop inside of it leaves that
one only.  If there is neither, its instructions have nowhere else to go than to each other and to
the jump that leads back.

The instructions of a loop stand somewhere among those of the program, and `LoopSite.Sits` cuts them
out.  What is known of a block is that it jumps inside of itself and behind the innermost loop
(`Stmt.laidOutList`).  A block that leaves no loop has the same instructions where there is no loop
to leave (`Stmt.instrs?_of_stays`), and there it jumps inside of itself only.
-/

namespace Octet

open Code

mutual

/-- Nothing in a statement leaves what is around it: there is no `return`, and a `break` only in a
loop, if it may be left. -/
def Stmt.stays (inLoop : Bool) : Stmt → Bool
  | .returning .. => false
  | .breaking _ => inLoop
  | .conditional _ _ body rest => Stmt.staysList inLoop body && rest.stays inLoop
  | .loop _ body => Stmt.staysList true body
  | .fnDecl _ _ _ body => Stmt.staysList inLoop body
  | .exprStmt .. | .letDecl .. | .assign .. | .misplaced _ => true

/-- Nothing in a block leaves what is around it. -/
def Stmt.staysList (inLoop : Bool) : List Stmt → Bool
  | [] => true
  | s :: ss => s.stays inLoop && Stmt.staysList inLoop ss

/-- Nothing in what follows a block of a conditional leaves what is around it. -/
def Chain.stays (inLoop : Bool) : Chain → Bool
  | .done => true
  | .otherwise body => Stmt.staysList inLoop body
  | .elseIf _ body rest => Stmt.staysList inLoop body && rest.stays inLoop

end

/-- The body of a loop has neither a `return` nor a `break` of this loop. -/
def LoopSite.NeverLeft (l : LoopSite) : Prop :=
  Stmt.staysList false l.body = true

instance (l : LoopSite) : Decidable l.NeverLeft :=
  inferInstanceAs (Decidable (_ = true))

section

variable {t : Tables}

/-! ## No loop to leave -/

mutual

/-- A statement that leaves no loop does not care whether there is one. -/
theorem Stmt.instrs?_of_stays : ∀ (s : Stmt) (loopEnd : Option Nat) (base : Nat),
    s.stays false = true → s.instrs? t loopEnd base = s.instrs? t none base
  | .exprStmt .., loopEnd, base, h | .letDecl .., loopEnd, base, h | .assign .., loopEnd, base, h
  | .fnDecl .., loopEnd, base, h | .misplaced _, loopEnd, base, h => by
    simp only [Stmt.instrs?]
  | .loop pos body, loopEnd, base, h => by
    rw [Stmt.instrs?, Stmt.instrs?]
  | .returning pos value, loopEnd, base, h => by
    rw [Stmt.stays] at h
    cases h
  | .breaking pos, loopEnd, base, h => by
    rw [Stmt.stays] at h
    cases h
  | .conditional pos cond body rest, loopEnd, base, h => by
    rw [Stmt.stays, Bool.and_eq_true] at h
    simp only [Stmt.instrs?]
    rw [Stmt.instrs?_of_staysList body loopEnd _ h.1, Chain.instrs?_of_stays rest loopEnd _ _ h.2]

theorem Stmt.instrs?_of_staysList : ∀ (ss : List Stmt) (loopEnd : Option Nat) (base : Nat),
    Stmt.staysList false ss = true →
    Stmt.instrsList? t loopEnd base ss = Stmt.instrsList? t none base ss
  | [], loopEnd, base, h => by
    rw [Stmt.instrsList?, Stmt.instrsList?]
  | s :: ss, loopEnd, base, h => by
    rw [Stmt.staysList, Bool.and_eq_true] at h
    rw [Stmt.instrsList?, Stmt.instrsList?, Stmt.instrs?_of_stays s loopEnd base h.1,
      Stmt.instrs?_of_staysList ss loopEnd _ h.2]

theorem Chain.instrs?_of_stays : ∀ (rest : Chain) (loopEnd : Option Nat) (finish base : Nat),
    rest.stays false = true → rest.instrs? t loopEnd finish base = rest.instrs? t none finish base
  | .done, loopEnd, finish, base, h => by
    rw [Chain.instrs?, Chain.instrs?]
  | .otherwise body, loopEnd, finish, base, h => by
    rw [Chain.instrs?, Chain.instrs?, Stmt.instrs?_of_staysList body loopEnd _ h]
  | .elseIf cond body rest, loopEnd, finish, base, h => by
    rw [Chain.stays, Bool.and_eq_true] at h
    simp only [Chain.instrs?]
    rw [Stmt.instrs?_of_staysList body loopEnd _ h.1, Chain.instrs?_of_stays rest loopEnd _ _ h.2]

end

/-! ## No end of the program -/

theorem Expr.ret_notMem {e : Expr} {is : List Instr} (h : e.instrs? t = some is) : .ret ∉ is :=
  fun hret => (Expr.straight e h .ret hret).goesOn rfl

theorem ret_notMem_append {is js : List Instr} (h : .ret ∉ is) (h' : .ret ∉ js) :
    .ret ∉ is ++ js :=
  fun hret => (List.mem_append.1 hret).elim h h'

theorem ret_notMem_jumpTo {a : Nat} {i : Instr} (h : jumpTo? a = some i) : .ret ∉ [i] := by
  obtain ⟨b, -, rfl⟩ := Option.map_eq_some_iff.1 h
  simp

theorem ret_notMem_branchTo {a : Nat} {i : Instr} (h : branchTo? a = some i) : .ret ∉ [i] := by
  obtain ⟨b, -, rfl⟩ := Option.map_eq_some_iff.1 h
  simp

mutual

/-- A statement without a `return` does not end the program. -/
theorem Stmt.ret_notMem : ∀ (s : Stmt) {inLoop : Bool} {loopEnd : Option Nat} {base : Nat}
    {is : List Instr}, s.stays inLoop = true → s.instrs? t loopEnd base = some is → .ret ∉ is
  | .exprStmt pos e, inLoop, loopEnd, base, is, hstays, h => by
    rw [Stmt.instrs?] at h
    exact Expr.ret_notMem h
  | .letDecl pos name value, inLoop, loopEnd, base, is, hstays, h
  | .assign pos name value, inLoop, loopEnd, base, is, hstays, h => by
    rw [Stmt.instrs?] at h
    obtain ⟨js, r, hjs, -, rfl⟩ := Stmt.of_store h
    exact ret_notMem_append (Expr.ret_notMem hjs) (by simp)
  | .returning pos value, inLoop, loopEnd, base, is, hstays, h => by
    rw [Stmt.stays] at hstays
    cases hstays
  | .breaking pos, inLoop, loopEnd, base, is, hstays, h => by
    obtain ⟨e, i, -, hi, rfl⟩ := Stmt.of_breaking h
    exact ret_notMem_jumpTo hi
  | .conditional pos cond body rest, inLoop, loopEnd, base, is, hstays, h => by
    rw [Stmt.stays, Bool.and_eq_true] at hstays
    obtain ⟨test, branch, block, others, htest, hbranch, hblock, hothers, rfl⟩ :=
      Stmt.of_conditional h
    have htested := ret_notMem_append (Expr.ret_notMem htest) (ret_notMem_branchTo hbranch)
    exact ret_notMem_append (ret_notMem_append htested (Stmt.ret_notMemList body hstays.1 hblock))
      (Chain.ret_notMem rest hstays.2 hothers)
  | .loop pos body, inLoop, loopEnd, base, is, hstays, h => by
    rw [Stmt.stays] at hstays
    obtain ⟨block, back, hblock, hback, rfl⟩ := Stmt.of_loop h
    exact ret_notMem_append (Stmt.ret_notMemList body hstays hblock) (ret_notMem_jumpTo hback)
  | .fnDecl .., inLoop, loopEnd, base, is, hstays, h
  | .misplaced kind, inLoop, loopEnd, base, is, hstays, h => by
    rw [Stmt.instrs?] at h
    cases h

theorem Stmt.ret_notMemList : ∀ (ss : List Stmt) {inLoop : Bool} {loopEnd : Option Nat}
    {base : Nat} {is : List Instr}, Stmt.staysList inLoop ss = true →
    Stmt.instrsList? t loopEnd base ss = some is → .ret ∉ is
  | [], inLoop, loopEnd, base, is, hstays, h => by
    rw [Stmt.instrsList?] at h
    cases h
    exact List.not_mem_nil
  | s :: ss, inLoop, loopEnd, base, is, hstays, h => by
    rw [Stmt.staysList, Bool.and_eq_true] at hstays
    obtain ⟨js, ks, hjs, hks, rfl⟩ := Stmt.of_cons h
    exact ret_notMem_append (Stmt.ret_notMem s hstays.1 hjs) (Stmt.ret_notMemList ss hstays.2 hks)

theorem Chain.ret_notMem : ∀ (rest : Chain) {inLoop : Bool} {loopEnd : Option Nat}
    {finish base : Nat} {is : List Instr}, rest.stays inLoop = true →
    rest.instrs? t loopEnd finish base = some is → .ret ∉ is
  | .done, inLoop, loopEnd, finish, base, is, hstays, h => by
    rw [Chain.instrs?] at h
    cases h
    exact List.not_mem_nil
  | .otherwise body, inLoop, loopEnd, finish, base, is, hstays, h => by
    obtain ⟨exit, block, hexit, hblock, rfl⟩ := Chain.of_otherwise h
    exact ret_notMem_append (ret_notMem_jumpTo hexit) (Stmt.ret_notMemList body hstays hblock)
  | .elseIf cond body rest, inLoop, loopEnd, finish, base, is, hstays, h => by
    rw [Chain.stays, Bool.and_eq_true] at hstays
    obtain ⟨exit, test, branch, block, others, hexit, htest, hbranch, hblock, hothers, rfl⟩ :=
      Chain.of_elseIf h
    have hexited := ret_notMem_append (ret_notMem_jumpTo hexit) (Expr.ret_notMem htest)
    have htested := ret_notMem_append hexited (ret_notMem_branchTo hbranch)
    exact ret_notMem_append (ret_notMem_append htested (Stmt.ret_notMemList body hstays.1 hblock))
      (Chain.ret_notMem rest hstays.2 hothers)

end

/-! ## Where the instructions of a loop stand -/

/-- The instructions of a loop stand among those that start at `base`. -/
def LoopSite.Sits (t : Tables) (base : Nat) (is : List Instr) (l : LoopSite) : Prop :=
  ∃ front block back rest, is = front ++ (block ++ [back]) ++ rest ∧
    base + Code.size front = l.start ∧
    Stmt.instrsList? t (some l.finish) l.start l.body = some block ∧ jumpTo? l.start = some back

namespace LoopSite.Sits

variable {base : Nat} {is js : List Instr} {l : LoopSite}

theorem left (h : l.Sits t base is) (js : List Instr) : l.Sits t base (is ++ js) := by
  obtain ⟨front, block, back, rest, rfl, hstart, hblock, hback⟩ := h
  exact ⟨front, block, back, rest ++ js, by rw [List.append_assoc], hstart, hblock, hback⟩

theorem right {start : Nat} (h : l.Sits t start js) (hstart : start = base + Code.size is) :
    l.Sits t base (is ++ js) := by
  obtain ⟨front, block, back, rest, rfl, hfront, hblock, hback⟩ := h
  refine ⟨is ++ front, block, back, rest, by simp only [List.append_assoc], ?_, hblock, hback⟩
  rw [size_append, ← hfront, hstart, Nat.add_assoc]

end LoopSite.Sits

/-- A loop in a block or behind it sits in what the clause is laid out as. -/
theorem sits_clause {base : Nat} {cond : Expr} {body : List Stmt} {loopEnd : Option Nat}
    {test block others : List Instr} {branch : Instr} {l : LoopSite}
    (htest : cond.instrs? t = some test) (hbranch : branch.size = 2)
    (hblock : Stmt.instrsList? t loopEnd (base + cond.size + 2) body = some block)
    (h : l.Sits t (base + cond.size + 2) block ∨
      l.Sits t (base + cond.size + 2 + Stmt.sizeList body) others) :
    l.Sits t base (test ++ [branch] ++ block ++ others) := by
  have hsize := size_test htest hbranch
  rcases h with h | h
  · exact (h.right (by rw [hsize, Nat.add_assoc])).left others
  · refine h.right ?_
    rw [size_append, hsize, (Stmt.laidOutList body hblock).size_eq]
    omega

mutual

/-- Every loop of a statement sits in what it is laid out as. -/
theorem Stmt.sits : ∀ (s : Stmt) {loopEnd : Option Nat} {base : Nat} {is : List Instr},
    s.instrs? t loopEnd base = some is → ∀ l ∈ s.loops base, l.Sits t base is
  | .exprStmt .., loopEnd, base, is, h | .letDecl .., loopEnd, base, is, h
  | .assign .., loopEnd, base, is, h | .returning .., loopEnd, base, is, h
  | .breaking _, loopEnd, base, is, h | .fnDecl .., loopEnd, base, is, h
  | .misplaced _, loopEnd, base, is, h => by
    intro l hl
    simp only [Stmt.loops, List.not_mem_nil] at hl
  | .conditional pos cond body rest, loopEnd, base, is, h => by
    intro l hl
    rw [Stmt.loops, List.mem_append] at hl
    obtain ⟨test, branch, block, others, htest, hbranch, hblock, hothers, rfl⟩ :=
      Stmt.of_conditional h
    exact sits_clause htest (size_branchTo hbranch) hblock
      (hl.imp (Stmt.sitsList body hblock l) (Chain.sits rest hothers l))
  | .loop pos body, loopEnd, base, is, h => by
    intro l hl
    rw [Stmt.loops, List.mem_append, List.mem_singleton] at hl
    obtain ⟨block, back, hblock, hback, rfl⟩ := Stmt.of_loop h
    rcases hl with hl | rfl
    · exact (Stmt.sitsList body hblock l hl).left [back]
    · exact ⟨[], block, back, [], (List.append_nil _).symm, rfl, hblock, hback⟩

theorem Stmt.sitsList : ∀ (ss : List Stmt) {loopEnd : Option Nat} {base : Nat} {is : List Instr},
    Stmt.instrsList? t loopEnd base ss = some is →
    ∀ l ∈ Stmt.loopsList base ss, l.Sits t base is
  | [], loopEnd, base, is, h => by
    intro l hl
    rw [Stmt.loopsList] at hl
    cases hl
  | s :: ss, loopEnd, base, is, h => by
    intro l hl
    rw [Stmt.loopsList, List.mem_append] at hl
    obtain ⟨js, ks, hjs, hks, rfl⟩ := Stmt.of_cons h
    rcases hl with hl | hl
    · exact (Stmt.sits s hjs l hl).left ks
    · exact (Stmt.sitsList ss hks l hl).right (by rw [(Stmt.laidOut s hjs).size_eq])

theorem Chain.sits : ∀ (rest : Chain) {loopEnd : Option Nat} {finish base : Nat}
    {is : List Instr}, rest.instrs? t loopEnd finish base = some is →
    ∀ l ∈ rest.loops base, l.Sits t base is
  | .done, loopEnd, finish, base, is, h => by
    intro l hl
    rw [Chain.loops] at hl
    cases hl
  | .otherwise body, loopEnd, finish, base, is, h => by
    intro l hl
    rw [Chain.loops] at hl
    obtain ⟨exit, block, hexit, hblock, rfl⟩ := Chain.of_otherwise h
    exact (Stmt.sitsList body hblock l hl).right (by rw [size_jumpTo hexit])
  | .elseIf cond body rest, loopEnd, finish, base, is, h => by
    intro l hl
    rw [Chain.loops, List.mem_append] at hl
    obtain ⟨exit, test, branch, block, others, hexit, htest, hbranch, hblock, hothers, rfl⟩ :=
      Chain.of_elseIf h
    have hclause := sits_clause htest (size_branchTo hbranch) hblock
      (hl.imp (Stmt.sitsList body hblock l) (Chain.sits rest hothers l))
    simp only [List.append_assoc] at hclause ⊢
    exact hclause.right (by rw [size_jumpTo hexit])

end

/-- **A loop that is never left** consists of instructions that jump to each other only and do not
end the program, and of the jump that leads back. -/
theorem LoopSite.Sits.neverLeft {base : Nat} {is : List Instr} {l : LoopSite}
    (h : l.Sits t base is) (hstays : l.NeverLeft) :
    ∃ front block rest, is = front ++ (block ++ [.jump (UInt8.ofNat l.start)]) ++ rest ∧
      base + Code.size front = l.start ∧ l.start + Code.size block = l.back ∧
      (UInt8.ofNat l.start).toNat = l.start ∧ .ret ∉ block ∧
      ∀ i ∈ block, i.Refers t (Starts l.start block) := by
  obtain ⟨front, block, back, rest, his, hstart, hblock, hback⟩ := h
  obtain ⟨rfl, hnat⟩ := eq_of_jumpTo? hback
  have hret := Stmt.ret_notMemList l.body hstays hblock
  rw [Stmt.instrs?_of_staysList l.body _ _ hstays] at hblock
  have hlaid := Stmt.laidOutList l.body hblock
  refine ⟨front, block, rest, his, hstart, ?_, hnat, hret, fun i hi => ?_⟩
  · rw [hlaid.size_eq]
    rfl
  · exact (hlaid.refers i hi).mono fun _ ha => ha.elim id nofun

end

end Octet
