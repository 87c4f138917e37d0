import Octet.Proofs.Layout.Targets
import Octet.Proofs.Machine.Heights

/-!
# How high the stack is along a layout

Calls are the one kind of expression that has no value, so a call as an operand would leave the
operator short of one.  A program keeps its `callsApart` if no call is an operand, an argument, a
condition or a value.  Then an expression without a call leaves its value on the stack
(`Expr.yields`), and a statement carries from zero to zero.

All targets of jumps in a statement are openings of it, or lie behind the innermost loop, and the
beginnings of all statements inside are openings too (`Stmt.level`).  With exact heights this needs
in addition that a statement leaves no value behind, so that only calls stand as statements.
-/

namespace Octet

open Code

/-! ## Calls -/

/-- An expression without a call in it. -/
def Expr.callFree : Expr → Bool
  | .literal .. | .identifier .. | .misplaced _ => true
  | .unary _ _ operand => operand.callFree
  | .binary _ left _ right => left.callFree && right.callFree
  | .call .. => false

/-- An expression that is a call. -/
def Expr.isCall : Expr → Bool
  | .call .. => true
  | _ => false

/-- An expression with no call in it, except that it may be one. -/
def Expr.callsApart : Expr → Bool
  | .call _ _ args => args.all Expr.callFree
  | e => e.callFree

mutual

/-- Every call in a statement is the whole of an expression that stands as a statement. -/
def Stmt.callsApart : Stmt → Bool
  | .exprStmt _ e => e.callsApart
  | .letDecl _ _ value | .assign _ _ value | .returning _ (some value) => value.callFree
  | .returning _ none | .breaking _ | .misplaced _ => true
  | .conditional _ cond body rest =>
    cond.callFree && (Stmt.callsApartList body && rest.callsApart)
  | .loop _ body | .fnDecl _ _ _ body => Stmt.callsApartList body

/-- Every call in a block is the whole of an expression that stands as a statement. -/
def Stmt.callsApartList : List Stmt → Bool
  | [] => true
  | s :: ss => s.callsApart && Stmt.callsApartList ss

/-- Every call in a chain is the whole of an expression that stands as a statement. -/
def Chain.callsApart : Chain → Bool
  | .done => true
  | .otherwise body => Stmt.callsApartList body
  | .elseIf cond body rest => cond.callFree && (Stmt.callsApartList body && rest.callsApart)

end

mutual

/-- Every expression that stands as a statement is a call. -/
def Stmt.onlyCalls : Stmt → Bool
  | .exprStmt _ e => e.isCall
  | .letDecl .. | .assign .. | .returning .. | .breaking _ | .misplaced _ => true
  | .conditional _ _ body rest => Stmt.onlyCallsList body && rest.onlyCalls
  | .loop _ body | .fnDecl _ _ _ body => Stmt.onlyCallsList body

/-- Every expression that stands as a statement in a block is a call. -/
def Stmt.onlyCallsList : List Stmt → Bool
  | [] => true
  | s :: ss => s.onlyCalls && Stmt.onlyCallsList ss

/-- Every expression that stands as a statement in a chain is a call. -/
def Chain.onlyCalls : Chain → Bool
  | .done => true
  | .otherwise body => Stmt.onlyCallsList body
  | .elseIf _ body rest => Stmt.onlyCallsList body && rest.onlyCalls

end

/-- Every call of a program is the whole of an expression that stands as a statement. -/
def Program.CallsApart (p : Program) : Prop :=
  Stmt.callsApartList p.items = true

/-- Every expression that stands as a statement in a program is a call. -/
def Program.OnlyCalls (p : Program) : Prop :=
  Stmt.onlyCallsList p.items = true

instance (p : Program) : Decidable p.CallsApart :=
  inferInstanceAs (Decidable (_ = true))

instance (p : Program) : Decidable p.OnlyCalls :=
  inferInstanceAs (Decidable (_ = true))

/-! ## Where statements begin -/

mutual

/-- Where the code of a statement at an address begins, and the code of the statements inside. -/
def Stmt.starts (base : Nat) : Stmt → List Nat
  | .exprStmt .. | .letDecl .. | .assign .. | .returning .. | .breaking _ | .fnDecl ..
  | .misplaced _ => [base]
  | .conditional _ cond body rest =>
    base :: (Stmt.startsList (base + cond.size + 2) body ++
      rest.starts (base + cond.size + 2 + Stmt.sizeList body))
  | .loop _ body => base :: Stmt.startsList base body

/-- Where the code of the statements of a block begins. -/
def Stmt.startsList (base : Nat) : List Stmt → List Nat
  | [] => []
  | s :: ss => s.starts base ++ Stmt.startsList (base + s.size) ss

/-- Where the code of the statements of a chain begins. -/
def Chain.starts (base : Nat) : Chain → List Nat
  | .done => []
  | .otherwise body => Stmt.startsList (base + 2) body
  | .elseIf cond body rest =>
    Stmt.startsList (base + 2 + cond.size + 2) body ++
      rest.starts (base + 2 + cond.size + 2 + Stmt.sizeList body)

end

/-- Where the code of the statements of a program begins, however deep they stand. -/
def Program.starts (p : Program) : List Nat :=
  Stmt.startsList 0 p.items

/-! ## Expressions -/

/-- Operands and their operator. -/
theorem Yields.operator {tight : Bool} {is : List Instr} {operators : List (String × Opcode)}
    {op : String} {i : Instr} {arity : Nat} (h : Yields tight is arity)
    (hi : operator? operators op = some i)
    (hall : ∀ entry ∈ operators, ∀ j ∈ entry.2.instr? [], j.pops = arity ∧ j.pushes = true ∧
      j.target? = none) : Yields tight (is ++ [i]) 1 := by
  obtain ⟨opcode, hop, hj⟩ := Option.bind_eq_some_iff.1 hi
  obtain ⟨hpops, hpushes, htarget⟩ := hall _ (mem_of_lookup hop) i hj
  refine ⟨fun k => (h.carries k).append ?_, fun j hj => ?_⟩
  · refine carries_single (by omega) ?_ (by rw [htarget]; exact nofun)
    rw [Instr.heightAfter_of_pushes _ hpushes, hpops, Nat.add_sub_cancel]
  · rcases List.mem_append.1 hj with hj | hj
    · exact h.straight j hj
    · rw [List.mem_singleton.1 hj, htarget]

theorem yields_literal {t : Tables} {tight : Bool} {value : Option Scalar} {is : List Instr}
    (h : literalInstrs? t value = some is) : Yields tight is 1 := by
  match value with
  | some (.bool b) =>
    cases h
    exact .single rfl rfl rfl
  | some (.int n) =>
    rw [literalInstrs?] at h
    split at h
    · cases h
      exact .single rfl rfl rfl
    · cases h
  | some (.text s) =>
    obtain ⟨k, -, rfl⟩ := Option.map_eq_some_iff.1 h
    exact .single rfl rfl rfl
  | some (.real x) => cases h
  | none => cases h

/-- An expression without a call leaves its value on the stack. -/
theorem Expr.yields {t : Tables} {tight : Bool} : ∀ (e : Expr) {is : List Instr},
    e.callFree = true → e.instrs? t = some is → Yields tight is 1
  | .literal pos value, is, _, his => by
    rw [Expr.instrs?] at his
    exact yields_literal his
  | .identifier pos name, is, _, his => by
    rw [Expr.instrs?] at his
    obtain ⟨r, -, rfl⟩ := Option.map_eq_some_iff.1 his
    exact .single rfl rfl rfl
  | .unary pos op operand, is, hfree, his => by
    rw [Expr.callFree] at hfree
    rw [Expr.instrs?] at his
    split at his
    · cases his
      exact .single rfl rfl rfl
    · obtain ⟨js, hjs, his⟩ := Option.bind_eq_some_iff.1 his
      obtain ⟨i, hi, his⟩ := Option.bind_eq_some_iff.1 his
      cases his
      exact (Expr.yields operand hfree hjs).operator hi (by decide)
  | .binary pos left op right, is, hfree, his => by
    rw [Expr.callFree, Bool.and_eq_true] at hfree
    obtain ⟨js, ks, i, hjs, hks, hi, rfl⟩ := Expr.of_binary his
    have hoperands : Yields tight (js ++ ks) 2 :=
      (Expr.yields left hfree.1 hjs).append (Expr.yields right hfree.2 hks)
    exact hoperands.operator hi (by decide)
  | .call pos name args, is, hfree, _ => by cases hfree
  | .misplaced kind, is, _, his => by
    rw [Expr.instrs?] at his
    cases his

/-- The arguments of a call leave their values on the stack. -/
theorem yields_arguments {t : Tables} {tight : Bool} : ∀ {es : List Expr} {is : List Instr},
    es.all Expr.callFree = true → Expr.instrsList? t es = some is → Yields tight is es.length
  | [], is, _, his => by
    rw [Expr.instrsList?] at his
    cases his
    exact .nil tight
  | e :: es, is, hfree, his => by
    rw [List.all_cons, Bool.and_eq_true] at hfree
    obtain ⟨js, ks, hjs, hks, rfl⟩ := Expr.of_cons his
    rw [List.length_cons, Nat.add_comm]
    exact (Expr.yields e hfree.1 hjs).append (yields_arguments hfree.2 hks)

/-! ## Statements -/

theorem level_jumpTo {tight : Bool} {outside : Nat → Prop} {base a : Nat} {i : Instr}
    (hi : jumpTo? a = some i) (ha : outside a) : Level tight outside base [i] [] := by
  obtain ⟨b, hb, rfl⟩ := Option.map_eq_some_iff.1 hi
  refine Level.consumed (.nil tight) (Nat.le_refl 0) rfl fun a' ha' => ?_
  rwa [← Option.some.inj ha', toNat_of_byte? hb]

theorem level_branchTo {tight : Bool} {outside : Nat → Prop} {base a : Nat} {test : List Instr}
    {i : Instr} (htest : Yields tight test 1) (hi : branchTo? a = some i) (ha : outside a) :
    Level tight outside base (test ++ [i]) [] := by
  obtain ⟨b, hb, rfl⟩ := Option.map_eq_some_iff.1 hi
  refine Level.consumed htest (Nat.le_refl 1) rfl fun a' ha' => ?_
  rwa [← Option.some.inj ha', toNat_of_byte? hb]

/-- An expression that stands as a statement leaves a value behind, unless it is a call. -/
theorem Expr.level {t : Tables} {tight : Bool} {outside : Nat → Prop} {base : Nat} {e : Expr}
    {is : List Instr} (hapart : e.callsApart = true) (hcalls : tight = true → e.isCall = true)
    (h : e.instrs? t = some is) : Level tight outside base is [] := by
  by_cases hcall : e.isCall = true
  · cases e with
    | call pos name args =>
      rw [Expr.callsApart] at hapart
      rw [Expr.instrs?] at h
      obtain ⟨builtin, -, h⟩ := Option.bind_eq_some_iff.1 h
      split at h
      · rename_i harity
        obtain ⟨js, hjs, h⟩ := Option.bind_eq_some_iff.1 h
        cases h
        have hpops : (Instr.callBuiltin (UInt8.ofNat builtin.id)).pops = args.length := by
          rw [harity]
          cases builtin <;> rfl
        refine Level.consumed (yields_arguments hapart hjs) (Nat.le_of_eq hpops) ?_ nofun
        show args.length - (Instr.callBuiltin (UInt8.ofNat builtin.id)).pops + 0 = 0
        rw [hpops, Nat.sub_self]
      · cases h
    | _ => cases hcall
  · have hloose : tight = false := Bool.eq_false_iff.2 fun htight => hcall (hcalls htight)
    subst hloose
    have hfree : e.callFree = true := by
      cases e with
      | call pos name args => exact absurd rfl hcall
      | _ => exact hapart
    have hvalue : Yields false is 1 := e.yields hfree h
    refine ⟨(hvalue.carries 0).more (Nat.le_refl 0) (Nat.zero_le _), fun i hi a ha => ?_,
      fun _ ha => absurd ha List.not_mem_nil⟩
    rw [hvalue.straight i hi] at ha
    cases ha

/-- A test, its block and what follows the block. -/
theorem level_clause {tight : Bool} {outside : Nat → Prop} {base bodyStart restStart entry : Nat}
    {test block others : List Instr} {branch : Instr} {inside inside' : List Nat}
    (htest : Yields tight test 1) (hbranch : branchTo? (restStart + entry) = some branch)
    (hblock : Level tight outside bodyStart block inside)
    (hothers : Level tight outside restStart others inside')
    (hentry : Opens tight restStart others (restStart + entry))
    (hbody : bodyStart = base + Code.size test + 2)
    (hrest : restStart = bodyStart + Code.size block) :
    Level tight outside base (test ++ [branch] ++ block ++ others) (inside ++ inside') := by
  have hsize : branch.size = 2 := by
    obtain ⟨b, -, rfl⟩ := Option.map_eq_some_iff.1 hbranch
    rfl
  have hguard : Level tight (fun a => outside a ∨ a = restStart + entry) base
      (test ++ [branch]) [] := level_branchTo htest hbranch (.inr rfl)
  have hfront := hguard.append (hblock.close fun a ha => .inl (.inl ha))
    (by rw [size_append, size_cons, size_nil, hsize]; omega)
  have hend : restStart = base + Code.size (test ++ [branch] ++ block) := by
    rw [size_append, size_append, size_cons, size_nil, hsize]
    omega
  refine (hfront.append (hothers.close fun a ha => .inl (.inl ha)) hend).close fun a ha => ?_
  rcases ha with ha | rfl
  · exact .inl ha
  · rw [hend] at hentry ⊢
    exact .inr (hentry.right hfront.carries)

mutual

/-- A statement carries from zero to zero, and its jumps lead to openings of it or behind the
innermost loop. -/
theorem Stmt.level {t : Tables} {tight : Bool} : ∀ (s : Stmt) {loopEnd : Option Nat} {base : Nat}
    {is : List Instr}, s.callsApart = true → (tight = true → s.onlyCalls = true) →
    s.instrs? t loopEnd base = some is →
    Level tight (fun a => loopEnd = some a) base is (s.starts base)
  | .exprStmt pos e, loopEnd, base, is, hapart, hcalls, h => by
    rw [Stmt.callsApart] at hapart
    rw [Stmt.onlyCalls] at hcalls
    rw [Stmt.instrs?] at h
    rw [Stmt.starts]
    exact (Expr.level hapart hcalls h).cons
  | .letDecl pos name value, loopEnd, base, is, hapart, _, h
  | .assign pos name value, loopEnd, base, is, hapart, _, h => by
    rw [Stmt.callsApart] at hapart
    rw [Stmt.instrs?] at h
    rw [Stmt.starts]
    obtain ⟨js, r, hjs, -, rfl⟩ := Stmt.of_store h
    exact (Level.consumed (i := .storeRegister r) (value.yields hapart hjs) (Nat.le_refl 1) rfl
      nofun).cons
  | .returning pos none, loopEnd, base, is, _, _, h => by
    rw [Stmt.instrs?] at h
    rw [Stmt.starts]
    cases h
    exact (Level.consumed (i := .ret) (.nil tight) (Nat.le_refl 0) rfl nofun).cons
  | .returning pos (some value), loopEnd, base, is, hapart, _, h => by
    rw [Stmt.callsApart] at hapart
    rw [Stmt.instrs?] at h
    rw [Stmt.starts]
    obtain ⟨js, hjs, h⟩ := Option.bind_eq_some_iff.1 h
    cases h
    exact (Level.consumed (i := .ret) (value.yields hapart hjs) (Nat.zero_le 1) rfl nofun).cons
  | .breaking pos, loopEnd, base, is, _, _, h => by
    rw [Stmt.starts]
    obtain ⟨a, i, ha, hi, rfl⟩ := Stmt.of_breaking h
    exact (level_jumpTo hi ha).cons
  | .conditional pos cond body rest, loopEnd, base, is, hapart, hcalls, h => by
    rw [Stmt.callsApart, Bool.and_eq_true, Bool.and_eq_true] at hapart
    rw [Stmt.onlyCalls, Bool.and_eq_true] at hcalls
    rw [Stmt.starts]
    obtain ⟨test, branch, block, others, htest, hbranch, hblock, hothers, rfl⟩ :=
      Stmt.of_conditional h
    have hbody := Stmt.levelList body hapart.2.1 (fun htight => (hcalls htight).1) hblock
    obtain ⟨hrest, hentry⟩ :=
      Chain.level rest hapart.2.2 (fun htight => (hcalls htight).2) hothers
    have hsize : Code.size block = Stmt.sizeList body := (Stmt.laidOutList body hblock).size_eq
    have hsize' : Code.size others = rest.size := (Chain.laidOut rest hothers).1.size_eq
    -- behind the conditional is the end of the chain
    have hchain : Level tight (fun a => loopEnd = some a) (base + cond.size + 2 +
        Stmt.sizeList body) others (rest.starts (base + cond.size + 2 + Stmt.sizeList body)) := by
      refine hrest.close fun a ha => ha.imp_right fun ha => ?_
      rw [ha, ← hsize']
      exact opens_end hrest.carries
    exact (level_clause (cond.yields hapart.1 htest) hbranch hbody hchain hentry
      (by rw [Expr.size_instrs htest]) (by rw [hsize])).cons
  | .loop pos body, loopEnd, base, is, hapart, hcalls, h => by
    rw [Stmt.callsApart] at hapart
    rw [Stmt.onlyCalls] at hcalls
    rw [Stmt.starts]
    obtain ⟨block, back, hblock, hback, rfl⟩ := Stmt.of_loop h
    have hsize : Code.size block = Stmt.sizeList body := (Stmt.laidOutList body hblock).size_eq
    have hend : base + Stmt.sizeList body + 2 = base + Code.size (block ++ [back]) := by
      rw [size_append, hsize, size_jumpTo hback, Nat.add_assoc]
    have hbody := Stmt.levelList body hapart hcalls hblock
    have hjump : Level tight (fun a => a = base ∨ some (base + Stmt.sizeList body + 2) = some a)
        (base + Stmt.sizeList body) [back] [] := level_jumpTo hback (.inl rfl)
    have hall := (hbody.close fun a ha => .inl (.inr ha)).append hjump (by rw [hsize])
    rw [List.append_nil] at hall
    -- back to the beginning, and behind the loop
    refine (hall.close fun a ha => .inr ?_).cons
    rcases ha with rfl | ha
    · exact opens_base hall.carries
    · rw [← Option.some.inj ha, hend]
      exact opens_end hall.carries
  | .fnDecl .., loopEnd, base, is, _, _, h
  | .misplaced kind, loopEnd, base, is, _, _, h => by
    rw [Stmt.instrs?] at h
    cases h

theorem Stmt.levelList {t : Tables} {tight : Bool} : ∀ (ss : List Stmt) {loopEnd : Option Nat}
    {base : Nat} {is : List Instr}, Stmt.callsApartList ss = true →
    (tight = true → Stmt.onlyCallsList ss = true) →
    Stmt.instrsList? t loopEnd base ss = some is →
    Level tight (fun a => loopEnd = some a) base is (Stmt.startsList base ss)
  | [], loopEnd, base, is, _, _, h => by
    rw [Stmt.instrsList?] at h
    cases h
    rw [Stmt.startsList]
    exact .nil ..
  | s :: ss, loopEnd, base, is, hapart, hcalls, h => by
    rw [Stmt.callsApartList, Bool.and_eq_true] at hapart
    rw [Stmt.onlyCallsList, Bool.and_eq_true] at hcalls
    rw [Stmt.startsList]
    obtain ⟨js, ks, hjs, hks, rfl⟩ := Stmt.of_cons h
    have hsize : Code.size js = s.size := (Stmt.laidOut s hjs).size_eq
    exact (Stmt.level s hapart.1 (fun htight => (hcalls htight).1) hjs).append
      (Stmt.levelList ss hapart.2 (fun htight => (hcalls htight).2) hks) (by rw [hsize])

/-- A chain carries from zero to zero as well.  It may also jump behind the conditional, and a
failed test in front of it goes on at an opening. -/
theorem Chain.level {t : Tables} {tight : Bool} : ∀ (rest : Chain) {loopEnd : Option Nat}
    {finish base : Nat} {is : List Instr}, rest.callsApart = true →
    (tight = true → rest.onlyCalls = true) → rest.instrs? t loopEnd finish base = some is →
    Level tight (fun a => loopEnd = some a ∨ a = finish) base is (rest.starts base) ∧
      Opens tight base is (base + rest.entry)
  | .done, loopEnd, finish, base, is, _, _, h => by
    rw [Chain.instrs?] at h
    cases h
    rw [Chain.starts]
    exact ⟨.nil .., opens_base (carries_nil tight 0)⟩
  | .otherwise body, loopEnd, finish, base, is, hapart, hcalls, h => by
    rw [Chain.callsApart] at hapart
    rw [Chain.onlyCalls] at hcalls
    rw [Chain.starts]
    obtain ⟨exit, block, hexit, hblock, rfl⟩ := Chain.of_otherwise h
    have hjump : Level tight (fun a => loopEnd = some a ∨ a = finish) base [exit] [] :=
      level_jumpTo hexit (.inr rfl)
    have hsize : Code.size [exit] = 2 := size_jumpTo hexit
    have hbody := Stmt.levelList body hapart hcalls hblock
    have hend : Opens tight base [exit] (base + 2) := hsize ▸ opens_end hjump.carries
    exact ⟨hjump.append (hbody.close fun a ha => .inl (.inl ha)) (by rw [hsize]),
      hend.left hbody.carries⟩
  | .elseIf cond body rest, loopEnd, finish, base, is, hapart, hcalls, h => by
    rw [Chain.callsApart, Bool.and_eq_true, Bool.and_eq_true] at hapart
    rw [Chain.onlyCalls, Bool.and_eq_true] at hcalls
    rw [Chain.starts]
    obtain ⟨exit, test, branch, block, others, hexit, htest, hbranch, hblock, hothers, rfl⟩ :=
      Chain.of_elseIf h
    have hjump : Level tight (fun a => loopEnd = some a ∨ a = finish) base [exit] [] :=
      level_jumpTo hexit (.inr rfl)
    have hsize : Code.size [exit] = 2 := size_jumpTo hexit
    have hbody := Stmt.levelList body hapart.2.1 (fun htight => (hcalls htight).1) hblock
    obtain ⟨hrest, hentry⟩ :=
      Chain.level rest hapart.2.2 (fun htight => (hcalls htight).2) hothers
    have hblockSize : Code.size block = Stmt.sizeList body :=
      (Stmt.laidOutList body hblock).size_eq
    have hclause : Level tight (fun a => loopEnd = some a ∨ a = finish) (base + 2)
        (test ++ [branch] ++ block ++ others) _ :=
      level_clause (cond.yields hapart.1 htest) hbranch
        (hbody.close fun a ha => .inl (.inl ha)) hrest hentry (by rw [Expr.size_instrs htest])
        (by rw [hblockSize])
    simp only [List.append_assoc] at hclause ⊢
    have hend : Opens tight base [exit] (base + 2) := hsize ▸ opens_end hjump.carries
    exact ⟨hjump.append hclause (by rw [hsize]), hend.left hclause.carries⟩

end

/-- A whole program has no places outside to jump to. -/
theorem Program.level {t : Tables} {tight : Bool} {p : Program} {is : List Instr}
    (hapart : p.CallsApart) (hcalls : tight = true → p.OnlyCalls) (h : p.instrs? t = some is) :
    Level tight (fun _ => False) 0 is p.starts :=
  (Stmt.levelList p.items hapart hcalls h).close fun _ ha => nomatch ha

end Octet
