import Mathlib.Data.List.Pairwise
import Octet.Proofs.Layout.Expressions
import Octet.Proofs.Layout.Heights
import Octet.Proofs.Layout.Ways
import Octet.Proofs.Machine.Leftovers

/-!
# What statements leave on the stack

An expression that stands as a statement leaves its value on the stack, unless it is a call, and no
other statement leaves anything: the value of a binding is stored, a test is consumed by its branch,
and a value that is returned is taken by the `ret`.  Calls that are operands do not change this:
they have no value, so an operator finds one value less than it should, but it never leaves more.

So the stack is empty at a `ret` without a value if no value was left before.  The proof goes
backwards through the layout (`Stmt.Relays`), like the one about variables in scope: a part finds
the stack empty where it should if whatever comes after it does (`Stmt.findsEmpty`).

A `ret` alone does not tell whether a value belongs to it.  Both kinds of returns are found in the
tree, and as no two statements overlap in the code, no address is taken for one of the other kind
(`Program.BareReturn.ne`).
-/

namespace Octet

open Code

/-! ## Statements and their addresses -/

mutual

/-- The statements of which a statement at an address consists and that have no others inside, each
with the address at which it begins. -/
def Stmt.lines (base : Nat) : Stmt → List (Nat × Stmt)
  | .exprStmt pos e => [(base, .exprStmt pos e)]
  | .letDecl pos name value => [(base, .letDecl pos name value)]
  | .assign pos name value => [(base, .assign pos name value)]
  | .returning pos value => [(base, .returning pos value)]
  | .breaking pos => [(base, .breaking pos)]
  | .conditional _ cond body rest =>
    Stmt.linesList (base + cond.size + 2) body ++
      rest.lines (base + cond.size + 2 + Stmt.sizeList body)
  | .loop _ body => Stmt.linesList base body
  | .fnDecl .. | .misplaced _ => []

/-- The statements of which a block at an address consists. -/
def Stmt.linesList (base : Nat) : List Stmt → List (Nat × Stmt)
  | [] => []
  | s :: ss => s.lines base ++ Stmt.linesList (base + s.size) ss

/-- The statements of which consists what follows a block of a conditional. -/
def Chain.lines (base : Nat) : Chain → List (Nat × Stmt)
  | .done => []
  | .otherwise body => Stmt.linesList (base + 2) body
  | .elseIf cond body rest =>
    Stmt.linesList (base + 2 + cond.size + 2) body ++
      rest.lines (base + 2 + cond.size + 2 + Stmt.sizeList body)

end

/-- The statements of which a program consists and that have no others inside, each with the address
at which it begins. -/
def Program.lines (p : Program) : List (Nat × Stmt) :=
  Stmt.linesList 0 p.items

/-- At this address stands the `ret` of a return without a value. -/
def Program.BareReturn (p : Program) (a : Nat) : Prop :=
  ∃ pos, (a, .returning pos none) ∈ p.lines

/-- At this address begins a statement that leaves its value behind: an expression that is no
call. -/
def Program.LeavesValue (p : Program) (a : Nat) : Prop :=
  ∃ pos e, (a, .exprStmt pos e) ∈ p.lines ∧ e.isCall = false

/-- Statements that lie between two addresses, one after the other. -/
structure InOrder (base finish : Nat) (lines : List (Nat × Stmt)) : Prop where
  within : ∀ x ∈ lines, base ≤ x.1 ∧ x.1 + x.2.size ≤ finish
  apart : lines.Pairwise fun x y => x.1 + x.2.size ≤ y.1

namespace InOrder

variable {base middle finish : Nat} {lines later : List (Nat × Stmt)}

theorem nil (base finish : Nat) : InOrder base finish [] :=
  ⟨fun _ hx => absurd hx List.not_mem_nil, .nil⟩

theorem single {s : Stmt} (h : base + s.size = finish) : InOrder base finish [(base, s)] := by
  refine ⟨fun x hx => ?_, List.pairwise_singleton ..⟩
  rw [List.mem_singleton.1 hx]
  exact ⟨Nat.le_refl base, Nat.le_of_eq h⟩

/-- The same statements between addresses further apart. -/
theorem widen {base' finish' : Nat} (h : InOrder base finish lines) (hbase : base' ≤ base)
    (hfinish : finish ≤ finish') : InOrder base' finish' lines where
  within x hx := ⟨Nat.le_trans hbase (h.within x hx).1, Nat.le_trans (h.within x hx).2 hfinish⟩
  apart := h.apart

theorem append (h : InOrder base middle lines) (hlater : InOrder middle finish later)
    (hbase : base ≤ middle) (hfinish : middle ≤ finish) :
    InOrder base finish (lines ++ later) where
  within x hx := by
    rcases List.mem_append.1 hx with hx | hx
    · exact (h.widen (Nat.le_refl base) hfinish).within x hx
    · exact (hlater.widen hbase (Nat.le_refl finish)).within x hx
  apart := List.pairwise_append.2 ⟨h.apart, hlater.apart, fun x hx y hy =>
    Nat.le_trans (h.within x hx).2 (hlater.within y hy).1⟩

/-- Of two statements one lies in front of the other, or they are the same. -/
theorem eq_or_apart {x y : Nat × Stmt} (h : InOrder base finish lines) (hx : x ∈ lines)
    (hy : y ∈ lines) : x = y ∨ x.1 + x.2.size ≤ y.1 ∨ y.1 + y.2.size ≤ x.1 :=
  List.Pairwise.forall_of_forall_of_flip
    (R := fun x y => x = y ∨ x.1 + x.2.size ≤ y.1 ∨ y.1 + y.2.size ≤ x.1)
    (fun _ _ => .inl rfl) (h.apart.imp fun h => .inr (.inl h))
    (h.apart.imp fun h => .inr (.inr h)) hx hy

end InOrder

mutual

theorem Stmt.inOrder_lines : ∀ (s : Stmt) (base : Nat),
    InOrder base (base + s.size) (s.lines base)
  | .exprStmt pos e, base => .single rfl
  | .letDecl pos name value, base => .single rfl
  | .assign pos name value, base => .single rfl
  | .returning pos value, base => .single rfl
  | .breaking pos, base => .single rfl
  | .conditional pos cond body rest, base => by
    rw [Stmt.lines, Stmt.size]
    have hbody := Stmt.inOrder_linesList body (base + cond.size + 2)
    have hrest := rest.inOrder_lines (base + cond.size + 2 + Stmt.sizeList body)
    refine (hbody.append hrest (by omega) (by omega)).widen (by omega) (by omega)
  | .loop pos body, base => by
    rw [Stmt.lines, Stmt.size]
    exact (Stmt.inOrder_linesList body base).widen (Nat.le_refl base) (by omega)
  | .fnDecl .., base => .nil ..
  | .misplaced kind, base => .nil ..

theorem Stmt.inOrder_linesList : ∀ (ss : List Stmt) (base : Nat),
    InOrder base (base + Stmt.sizeList ss) (Stmt.linesList base ss)
  | [], base => .nil ..
  | s :: ss, base => by
    rw [Stmt.linesList, Stmt.sizeList]
    have hrest := Stmt.inOrder_linesList ss (base + s.size)
    rw [Nat.add_assoc] at hrest
    exact (s.inOrder_lines base).append hrest (by omega) (by omega)

theorem Chain.inOrder_lines : ∀ (rest : Chain) (base : Nat),
    InOrder base (base + rest.size) (rest.lines base)
  | .done, base => .nil ..
  | .otherwise body, base => by
    rw [Chain.lines, Chain.size]
    exact (Stmt.inOrder_linesList body (base + 2)).widen (by omega) (by omega)
  | .elseIf cond body rest, base => by
    rw [Chain.lines, Chain.size]
    have hbody := Stmt.inOrder_linesList body (base + 2 + cond.size + 2)
    have hrest := rest.inOrder_lines (base + 2 + cond.size + 2 + Stmt.sizeList body)
    refine (hbody.append hrest (by omega) (by omega)).widen (by omega) (by omega)

end

/-- The `ret` of a return without a value is not the one of a return with a value. -/
theorem Program.BareReturn.ne {p : Program} {a b : Nat} {pos : Pos} {value : Expr}
    (ha : p.BareReturn a) (hb : (b, .returning pos (some value)) ∈ p.lines) :
    a ≠ b + value.size := by
  obtain ⟨pos', ha⟩ := ha
  have hin : InOrder 0 (0 + Stmt.sizeList p.items) p.lines := Stmt.inOrder_linesList p.items 0
  rcases hin.eq_or_apart ha hb with heq | hbefore | hbehind
  · cases heq
  · have hsize : (Stmt.returning pos' none).size = 1 := rfl
    dsimp only at hbefore
    omega
  · have hsize : (Stmt.returning pos (some value)).size = value.size + 1 := rfl
    dsimp only at hbehind
    omega

/-! ## Lines in code -/

/-- A statement is laid out, and its instructions stand in the code where it begins. -/
def StandsIn (t : Tables) (code : List UInt8) (line : Nat × Stmt) : Prop :=
  ∃ loopEnd is, line.2.instrs? t loopEnd line.1 = some is ∧ Placed code line.1 is

section

variable {t : Tables} {code : List UInt8} {line : Nat × Stmt}

theorem standsIn_single {loopEnd : Option Nat} {base : Nat} {s : Stmt} {is : List Instr}
    (h : s.instrs? t loopEnd base = some is) (hplaced : Placed code base is)
    (hline : line ∈ [(base, s)]) : StandsIn t code line := by
  rw [List.mem_singleton.1 hline]
  exact ⟨loopEnd, is, h, hplaced⟩

mutual

/-- The statements of which a statement consists stand where they begin. -/
theorem Stmt.standsIn : ∀ (s : Stmt) {loopEnd : Option Nat} {base : Nat} {is : List Instr},
    s.instrs? t loopEnd base = some is → Placed code base is → line ∈ s.lines base →
    StandsIn t code line
  | .exprStmt .., loopEnd, base, is, h, hplaced, hline
  | .letDecl .., loopEnd, base, is, h, hplaced, hline
  | .assign .., loopEnd, base, is, h, hplaced, hline
  | .returning .., loopEnd, base, is, h, hplaced, hline
  | .breaking _, loopEnd, base, is, h, hplaced, hline => standsIn_single h hplaced hline
  | .conditional pos cond body rest, loopEnd, base, is, h, hplaced, hline => by
    rw [Stmt.lines] at hline
    obtain ⟨test, branch, block, others, htest, hbranch, hblock, hothers, rfl⟩ :=
      Stmt.of_conditional h
    obtain ⟨-, -, hblocked, hchained⟩ :=
      placed_clause htest (size_branchTo hbranch) hblock hplaced
    rcases List.mem_append.1 hline with hline | hline
    · exact Stmt.standsInList body hblock hblocked hline
    · exact Chain.standsIn rest hothers hchained hline
  | .loop pos body, loopEnd, base, is, h, hplaced, hline => by
    rw [Stmt.lines] at hline
    obtain ⟨block, back, hblock, -, rfl⟩ := Stmt.of_loop h
    exact Stmt.standsInList body hblock (placed_append hplaced).1 hline
  | .fnDecl .., loopEnd, base, is, h, hplaced, hline
  | .misplaced _, loopEnd, base, is, h, hplaced, hline => by
    rw [Stmt.instrs?] at h
    cases h

/-- The statements of which a block consists stand where they begin. -/
theorem Stmt.standsInList : ∀ (ss : List Stmt) {loopEnd : Option Nat} {base : Nat}
    {is : List Instr}, Stmt.instrsList? t loopEnd base ss = some is → Placed code base is →
    line ∈ Stmt.linesList base ss → StandsIn t code line
  | [], loopEnd, base, is, h, hplaced, hline => absurd hline List.not_mem_nil
  | s :: ss, loopEnd, base, is, h, hplaced, hline => by
    rw [Stmt.linesList] at hline
    obtain ⟨js, ks, hjs, hks, rfl⟩ := Stmt.of_cons h
    obtain ⟨hfirst, hothers⟩ := placed_append hplaced
    rw [(Stmt.laidOut s hjs).size_eq] at hothers
    rcases List.mem_append.1 hline with hline | hline
    · exact Stmt.standsIn s hjs hfirst hline
    · exact Stmt.standsInList ss hks hothers hline

/-- The statements in what follows a block of a conditional stand where they begin. -/
theorem Chain.standsIn : ∀ (rest : Chain) {loopEnd : Option Nat} {finish base : Nat}
    {is : List Instr}, rest.instrs? t loopEnd finish base = some is → Placed code base is →
    line ∈ rest.lines base → StandsIn t code line
  | .done, loopEnd, finish, base, is, h, hplaced, hline => absurd hline List.not_mem_nil
  | .otherwise body, loopEnd, finish, base, is, h, hplaced, hline => by
    rw [Chain.lines] at hline
    obtain ⟨exit, block, hexit, hblock, rfl⟩ := Chain.of_otherwise h
    have hblocked := (placed_append hplaced).2
    rw [size_jumpTo hexit] at hblocked
    exact Stmt.standsInList body hblock hblocked hline
  | .elseIf cond body rest, loopEnd, finish, base, is, h, hplaced, hline => by
    rw [Chain.lines] at hline
    obtain ⟨exit, test, branch, block, others, hexit, htest, hbranch, hblock, hothers, rfl⟩ :=
      Chain.of_elseIf h
    obtain ⟨-, -, -, hblocked, hchained⟩ :=
      placed_elseIf hexit htest (size_branchTo hbranch) hblock hplaced
    rcases List.mem_append.1 hline with hline | hline
    · exact Stmt.standsInList body hblock hblocked hline
    · exact Chain.standsIn rest hothers hchained hline

end

end

theorem Program.standsIn {p : Program} {t : Tables} {is : List Instr} {line : Nat × Stmt}
    (h : p.instrs? t = some is) (hline : line ∈ p.lines) : StandsIn t (assemble is) line :=
  Stmt.standsInList p.items h (placed_assemble (Program.laidOut h).spellable) hline

/-- Where a program returns without a value, a `ret` stands in its code. -/
theorem Program.BareReturn.fetch {p : Program} {t : Tables} {is : List Instr} {a : Nat}
    (h : p.instrs? t = some is) (ha : p.BareReturn a) : fetch? (assemble is) a = some .ret := by
  obtain ⟨pos, hline⟩ := ha
  obtain ⟨loopEnd, js, hjs, hplaced⟩ := Program.standsIn h hline
  cases hjs
  exact fetch?_of_placed hplaced

/-! ## Expressions -/

section

variable {t : Tables} {h k : Nat}

/-- Behind an operator there is at most one value more than in front of its operands. -/
theorem heightAfter_operator {operators : List (String × Opcode)} {op : String} {i : Instr}
    {arity : Nat} (hi : operator? operators op = some i)
    (hall : ∀ entry ∈ operators, ∀ j ∈ entry.2.instr? [], j.pops = arity ∧ j.pushes = true)
    (hle : k ≤ h + arity) : i.heightAfter k ≤ h + 1 := by
  obtain ⟨opcode, hop, hj⟩ := Option.bind_eq_some_iff.1 hi
  obtain ⟨hpops, hpushes⟩ := hall _ (mem_of_lookup hop) i hj
  rw [Instr.heightAfter_of_pushes _ hpushes, hpops]
  omega

/-- Whether or not an expression is a call, it leaves a value at most. -/
theorem le_succ_of_isCall {e : Expr} (hle : k ≤ h + (!e.isCall).toNat) : k ≤ h + 1 :=
  Nat.le_trans hle (Nat.add_le_add_left (Bool.toNat_le _) h)

theorem heightBehind_literal {value : Option Scalar} {is : List Instr}
    (h : literalInstrs? t value = some is) : heightBehind k is = k + 1 := by
  match value with
  | some (.bool b) =>
    cases h
    rfl
  | some (.int n) =>
    rw [literalInstrs?] at h
    split at h
    · cases h
      rfl
    · cases h
  | some (.text s) =>
    obtain ⟨i, -, rfl⟩ := Option.map_eq_some_iff.1 h
    rfl
  | some (.real x) => cases h
  | none => cases h

/-- An expression is laid out as some instruction at least. -/
theorem Expr.ne_nil {e : Expr} {is : List Instr} (his : e.instrs? t = some is) : is ≠ [] := by
  cases e with
  | literal pos value =>
    rw [Expr.instrs?] at his
    rintro rfl
    have hheight : 0 = 0 + 1 := heightBehind_literal his
    cases hheight
  | identifier pos name =>
    rw [Expr.instrs?] at his
    obtain ⟨r, -, rfl⟩ := Option.map_eq_some_iff.1 his
    exact List.cons_ne_nil _ _
  | unary pos op operand =>
    rw [Expr.instrs?] at his
    split at his
    · cases his
      exact List.cons_ne_nil _ _
    · obtain ⟨js, -, his⟩ := Option.bind_eq_some_iff.1 his
      obtain ⟨i, -, his⟩ := Option.bind_eq_some_iff.1 his
      cases his
      exact List.append_ne_nil_of_right_ne_nil _ (List.cons_ne_nil _ _)
  | binary pos left op right =>
    obtain ⟨js, ks, i, -, -, -, rfl⟩ := Expr.of_binary his
    exact List.append_ne_nil_of_right_ne_nil _ (List.cons_ne_nil _ _)
  | call pos name args =>
    rw [Expr.instrs?] at his
    obtain ⟨builtin, -, his⟩ := Option.bind_eq_some_iff.1 his
    split at his
    · obtain ⟨js, -, his⟩ := Option.bind_eq_some_iff.1 his
      cases his
      exact List.append_ne_nil_of_right_ne_nil _ (List.cons_ne_nil _ _)
    · cases his
  | misplaced kind =>
    rw [Expr.instrs?] at his
    cases his

/-- Where a program leaves a value, its first instruction goes on behind itself. -/
theorem Program.LeavesValue.fetch_ne {p : Program} {is : List Instr} {a : Nat}
    (his : p.instrs? t = some is) (ha : p.LeavesValue a) : fetch? (assemble is) a ≠ some .ret := by
  obtain ⟨pos, e, hline, -⟩ := ha
  obtain ⟨loopEnd, js, hjs, hplaced⟩ := Program.standsIn his hline
  rw [Stmt.instrs?] at hjs
  obtain ⟨i, js, rfl⟩ := List.exists_cons_of_ne_nil (Expr.ne_nil hjs)
  rw [fetch?_of_placed hplaced]
  exact fun hret => (Expr.straight e hjs i (List.mem_cons_self ..)).goesOn (Option.some.inj hret)

mutual

/-- **An expression leaves a value at most**, and a call leaves none. -/
theorem Expr.heightBehind_le : ∀ (e : Expr) {is : List Instr} (h : Nat), e.instrs? t = some is →
    heightBehind h is ≤ h + (!e.isCall).toNat
  | .literal pos value, is, h, his => by
    rw [Expr.instrs?] at his
    exact Nat.le_of_eq (heightBehind_literal his)
  | .identifier pos name, is, h, his => by
    rw [Expr.instrs?] at his
    obtain ⟨r, -, rfl⟩ := Option.map_eq_some_iff.1 his
    exact Nat.le_refl _
  | .unary pos op operand, is, h, his => by
    rw [Expr.instrs?] at his
    split at his
    · cases his
      exact Nat.le_refl _
    · obtain ⟨js, hjs, his⟩ := Option.bind_eq_some_iff.1 his
      obtain ⟨i, hi, his⟩ := Option.bind_eq_some_iff.1 his
      cases his
      have hoperand := le_succ_of_isCall (Expr.heightBehind_le operand h hjs)
      rw [heightBehind_append]
      exact heightAfter_operator hi (by decide) hoperand
  | .binary pos left op right, is, h, his => by
    obtain ⟨js, ks, i, hjs, hks, hi, rfl⟩ := Expr.of_binary his
    have hleft := le_succ_of_isCall (Expr.heightBehind_le left h hjs)
    have hright := le_succ_of_isCall (Expr.heightBehind_le right (heightBehind h js) hks)
    have hoperands : heightBehind (heightBehind h js) ks ≤ h + 2 :=
      Nat.le_trans hright (Nat.succ_le_succ hleft)
    rw [heightBehind_append, heightBehind_append]
    exact heightAfter_operator hi (by decide) hoperands
  | .call pos name args, is, h, his => by
    rw [Expr.instrs?] at his
    obtain ⟨builtin, -, his⟩ := Option.bind_eq_some_iff.1 his
    split at his
    · rename_i harity
      obtain ⟨js, hjs, his⟩ := Option.bind_eq_some_iff.1 his
      cases his
      have hargs := Expr.heightBehind_leList args h hjs
      have hpops : (Instr.callBuiltin (UInt8.ofNat builtin.id)).pops = args.length := by
        rw [harity]
        cases builtin <;> rfl
      rw [heightBehind_append]
      show heightBehind h js - (Instr.callBuiltin (UInt8.ofNat builtin.id)).pops + 0 ≤ h + 0
      omega
    · cases his
  | .misplaced kind, is, h, his => by
    rw [Expr.instrs?] at his
    cases his

/-- Arguments leave a value each at most. -/
theorem Expr.heightBehind_leList : ∀ (es : List Expr) {is : List Instr} (h : Nat),
    Expr.instrsList? t es = some is → heightBehind h is ≤ h + es.length
  | [], is, h, his => by
    rw [Expr.instrsList?] at his
    cases his
    exact Nat.le_refl h
  | e :: es, is, h, his => by
    obtain ⟨js, ks, hjs, hks, rfl⟩ := Expr.of_cons his
    have hfirst := le_succ_of_isCall (Expr.heightBehind_le e h hjs)
    have hothers := Expr.heightBehind_leList es (heightBehind h js) hks
    rw [heightBehind_append, List.length_cons]
    omega

end

end

/-! ## Parts -/

section

variable {code : List UInt8} {avoided marked : Nat → Prop} {n a : Nat} {t : Tables}

/-- An expression in front of something. -/
theorem Expr.findsEmpty {e : Expr} {is : List Instr} {h : Nat} (his : e.instrs? t = some is)
    (hplaced : Placed code a is)
    (hnext : FindsEmpty code avoided marked n (a + e.size) (h + (!e.isCall).toNat)) :
    FindsEmpty code avoided marked n a h := by
  rw [← Expr.size_instrs his] at hnext
  refine .straight hplaced (fun i hi => ?_) (hnext.mono (e.heightBehind_le h his))
  have hstraight := Expr.straight e his i hi
  exact ⟨hstraight.target, hstraight.goesOn⟩

/-- A value in front of what takes it. -/
theorem Expr.findsEmpty_value {e : Expr} {is : List Instr} (his : e.instrs? t = some is)
    (hplaced : Placed code a is) (hnext : FindsEmpty code avoided marked n (a + e.size) 1) :
    FindsEmpty code avoided marked n a 0 :=
  Expr.findsEmpty his hplaced (hnext.mono (by rw [Nat.zero_add]; exact Bool.toNat_le _))

/-- If the stack is empty at an address, the next instructions find it empty where they should. -/
def FindsEmptyAt (code : List UInt8) (avoided marked : Nat → Prop) (n a : Nat) : Prop :=
  FindsEmpty code avoided marked n a 0

/-- A jump in front of something. -/
theorem findsEmpty_ahead (code : List UInt8) (avoided marked : Nat → Prop) :
    Ahead code (FindsEmptyAt code avoided marked) where
  none _ := trivial
  fewer := .fewer
  jump hi hplaced hnext htarget := by
    obtain ⟨b, hb, rfl⟩ := Option.map_eq_some_iff.1 hi
    refine .step (fetch?_of_placed hplaced) nofun hnext fun t ht => ?_
    cases ht
    rwa [toNat_of_byte? hb]

/-- A test and a branch in front of a block. -/
theorem Expr.relays_findsEmpty (cond : Expr) :
    cond.Relays t code (FindsEmptyAt code avoided marked) := by
  intro n a target test branch htest hbranch hplacedTest hplacedBranch hblock htarget
  obtain ⟨b, hb, rfl⟩ := Option.map_eq_some_iff.1 hbranch
  refine Expr.findsEmpty_value htest hplacedTest ?_
  refine .cons (fetch?_of_placed hplacedBranch) nofun hblock fun u hu => ?_
  cases hu
  rwa [toNat_of_byte? hb]

/-- A value that is stored in front of something. -/
theorem findsEmpty_store {value : Expr} {js : List Instr} {r : UInt8}
    (hjs : value.instrs? t = some js) (hplaced : Placed code a (js ++ [.storeRegister r]))
    (hnext : FindsEmpty code avoided marked n (a + (value.size + 2)) 0) :
    FindsEmpty code avoided marked n a 0 := by
  obtain ⟨hvalue, hstore⟩ := placed_append hplaced
  rw [Expr.size_instrs hjs] at hstore
  rw [← Nat.add_assoc] at hnext
  refine Expr.findsEmpty_value hjs hvalue (.cons (fetch?_of_placed hstore) nofun hnext ?_)
  intro t ht
  cases ht

/-- Statements whose values are left where it is avoided, and whose returns with a value are not
marked. -/
structure Minds (avoided marked : Nat → Prop) (lines : List (Nat × Stmt)) : Prop where
  leaves : ∀ a pos e, (a, .exprStmt pos e) ∈ lines → e.isCall = false → avoided a
  returns : ∀ a pos value, (a, .returning pos (some value)) ∈ lines → ¬ marked (a + value.size)

theorem Minds.mono {lines lines' : List (Nat × Stmt)} (hminds : Minds avoided marked lines)
    (hsub : lines' ⊆ lines) : Minds avoided marked lines' where
  leaves a pos e he := hminds.leaves a pos e (hsub he)
  returns a pos value hvalue := hminds.returns a pos value (hsub hvalue)

theorem Minds.left {lines lines' : List (Nat × Stmt)}
    (hminds : Minds avoided marked (lines ++ lines')) : Minds avoided marked lines :=
  hminds.mono (List.subset_append_left ..)

theorem Minds.right {lines lines' : List (Nat × Stmt)}
    (hminds : Minds avoided marked (lines ++ lines')) : Minds avoided marked lines' :=
  hminds.mono (List.subset_append_right ..)

mutual

/-- **A statement finds the stack empty where it should** if what comes after it does, unless a
value is left on the way. -/
theorem Stmt.findsEmpty : ∀ (s : Stmt) {base : Nat}, Minds avoided marked (s.lines base) →
    s.Relays t code (FindsEmptyAt code avoided marked) (FindsEmptyAt code avoided marked) base
  | .exprStmt pos e, base, hminds => by
    intro loopEnd is n h hplaced hnext _
    rw [Stmt.instrs?] at h
    rw [Stmt.size] at hnext
    by_cases hcall : e.isCall = true
    · refine Expr.findsEmpty h hplaced ?_
      rwa [hcall]
    · refine .of_avoided (hminds.leaves base pos e ?_ (Bool.eq_false_iff.2 hcall))
      exact List.mem_singleton_self _
  | .letDecl pos name value, base, hminds
  | .assign pos name value, base, hminds => by
    intro loopEnd is n h hplaced hnext _
    rw [Stmt.instrs?] at h
    obtain ⟨js, r, hjs, -, rfl⟩ := Stmt.of_store h
    exact findsEmpty_store hjs hplaced hnext
  | .returning pos none, base, hminds => by
    intro loopEnd is n h hplaced hnext _
    rw [Stmt.instrs?] at h
    cases h
    exact .cons (fetch?_of_placed hplaced) (fun _ _ => rfl) hnext nofun
  | .returning pos (some value), base, hminds => by
    intro loopEnd is n h hplaced hnext _
    rw [Stmt.instrs?] at h
    rw [Stmt.size, ← Nat.add_assoc] at hnext
    obtain ⟨js, hjs, h⟩ := Option.bind_eq_some_iff.1 h
    cases h
    obtain ⟨hvalue, hret⟩ := placed_append hplaced
    rw [Expr.size_instrs hjs] at hret
    have hunmarked := hminds.returns base pos value (List.mem_singleton_self _)
    refine Expr.findsEmpty_value hjs hvalue ?_
    exact .cons (fetch?_of_placed hret) (fun _ hmarked => absurd hmarked hunmarked) hnext nofun
  | .breaking pos, base, hminds => Stmt.relays_breaking (findsEmpty_ahead ..) pos
  | .conditional pos cond body rest, base, hminds => by
    rw [Stmt.lines] at hminds
    exact Stmt.relays_conditional cond.relays_findsEmpty (Stmt.findsEmptyList body hminds.left)
      (Chain.findsEmpty rest hminds.right)
  | .loop pos body, base, hminds => by
    rw [Stmt.lines] at hminds
    exact Stmt.relays_loop (findsEmpty_ahead ..) (Stmt.findsEmptyList body hminds)
  | .fnDecl .., base, hminds
  | .misplaced kind, base, hminds => by
    intro loopEnd is n h _ _ _
    rw [Stmt.instrs?] at h
    cases h

/-- A block finds the stack empty where it should if what comes after it does. -/
theorem Stmt.findsEmptyList : ∀ (ss : List Stmt) {base : Nat},
    Minds avoided marked (Stmt.linesList base ss) →
    Stmt.RelaysList t code (FindsEmptyAt code avoided marked) base ss
  | [], base, _ => Stmt.relays_nil
  | s :: ss, base, hminds => by
    rw [Stmt.linesList] at hminds
    exact Stmt.relays_cons (Stmt.findsEmpty s hminds.left) (Stmt.findsEmptyList ss hminds.right)
      fun _ _ => id

/-- What follows a block of a conditional finds the stack empty where it should if what comes after
the conditional does. -/
theorem Chain.findsEmpty : ∀ (rest : Chain) {base : Nat}, Minds avoided marked (rest.lines base) →
    rest.Relays t code (FindsEmptyAt code avoided marked) base
  | .done, base, _ => Chain.relays_done
  | .otherwise body, base, hminds => by
    rw [Chain.lines] at hminds
    exact Chain.relays_otherwise (findsEmpty_ahead ..) (Stmt.findsEmptyList body hminds)
  | .elseIf cond body rest, base, hminds => by
    rw [Chain.lines] at hminds
    exact Chain.relays_elseIf (findsEmpty_ahead ..) cond.relays_findsEmpty
      (Stmt.findsEmptyList body hminds.left) (Chain.findsEmpty rest hminds.right)

end

/-- **The code of a program finds the stack empty at each bare return**, unless a value is left on
the way to it. -/
theorem Program.findsEmpty {p : Program} {is : List Instr} (h : p.instrs? t = some is) (n : Nat) :
    FindsEmpty (assemble is) p.LeavesValue p.BareReturn n 0 0 := by
  have hlaid := Program.laidOut h
  have hminds : Minds p.LeavesValue p.BareReturn p.lines :=
    ⟨fun a pos e he hcall => ⟨pos, e, he, hcall⟩, fun a pos value hvalue hbare =>
      hbare.ne hvalue rfl⟩
  have hend : FindsEmptyAt (assemble is) p.LeavesValue p.BareReturn n
      (0 + Stmt.sizeList p.items) := by
    rw [Nat.zero_add, ← hlaid.size_eq, ← length_assemble]
    exact .of_end _ _ _ n 0
  exact Stmt.findsEmptyList p.items hminds h (placed_assemble hlaid.spellable) hend nofun

end

end Octet
