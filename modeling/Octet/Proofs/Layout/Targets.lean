import Octet.Proofs.Layout.Direct

/-!
# What the operands of a layout refer to

An operand is a bare byte.  Whether it means anything is a matter of what it is
used for: a text needs an entry in the pool, a variable a register, a call a
built-in, and a jump an instruction to go to.  `Instr.Refers` puts these demands
into one predicate, and this file shows that every instruction of a direct layout
meets them.

## Addresses inside a part

The demand on jumps is the one that takes an argument.  A part of a program jumps
to addresses inside of itself, to the place behind the innermost loop, and, after
a block of a conditional, behind the conditional.  `Starts base is a` says that the
address `a` is inside of a part that starts at `base`: it is in front of one of the
instructions `is`, or behind all of them.  What is inside of a part is inside of
every larger part as well (`starts_left`, `starts_right`), and a whole program has
no addresses left to jump to but its own.

Sizes come along, since the second of two parts starts where the first one ends:
`LaidOut` collects what is to be known of a part.
-/

namespace Octet

open Code

/-- What an operand refers to is there. -/
def Instr.Refers (t : Tables) (target : Nat → Prop) : Instr → Prop
  | .pushInt n => Word32.least ≤ n ∧ n ≤ Word32.greatest
  | .loadConstant i => i.toNat < t.constants.length
  | .loadRegister r | .storeRegister r => r.toNat < t.registers.length
  | .jumpIfFalse a | .jump a => target a.toNat
  | .callBuiltin id => (Builtin.ofId? id.toNat).isSome
  | _ => True

theorem Instr.Refers.spellable {t : Tables} {target : Nat → Prop} {i : Instr}
    (h : i.Refers t target) : i.Spellable := by
  cases i with
  | pushInt n => exact h
  | _ => trivial

theorem Instr.Refers.mono {t : Tables} {target target' : Nat → Prop} {i : Instr}
    (h : i.Refers t target) (hsub : ∀ a, target a → target' a) : i.Refers t target' := by
  cases i with
  | jumpIfFalse a => exact hsub _ h
  | jump a => exact hsub _ h
  | _ => exact h

/-! ## Addresses -/

/-- An address is in front of one of the instructions that start at `base`, or
behind all of them. -/
def Starts (base : Nat) (is : List Instr) (a : Nat) : Prop :=
  ∃ js, js <+: is ∧ a = base + Code.size js

theorem starts_base (base : Nat) (is : List Instr) : Starts base is base :=
  ⟨[], List.nil_prefix, rfl⟩

theorem starts_end (base : Nat) (is : List Instr) : Starts base is (base + Code.size is) :=
  ⟨is, List.prefix_rfl, rfl⟩

theorem starts_left {base a : Nat} {is : List Instr} (h : Starts base is a) (js : List Instr) :
    Starts base (is ++ js) a := by
  obtain ⟨ks, hks, ha⟩ := h
  exact ⟨ks, hks.trans (List.prefix_append ..), ha⟩

theorem starts_right {base a : Nat} {js : List Instr} (is : List Instr)
    (h : Starts (base + Code.size is) js a) : Starts base (is ++ js) a := by
  obtain ⟨ks, hks, ha⟩ := h
  refine ⟨is ++ ks, (List.prefix_append_right_inj is).2 hks, ?_⟩
  rw [size_append, ha]
  omega

/-- No address of a part lies in front of it. -/
theorem starts_ge {base a : Nat} {is : List Instr} (h : Starts base is a) : base ≤ a := by
  obtain ⟨js, -, rfl⟩ := h
  omega

/-- No address of a part lies behind its end. -/
theorem le_of_starts {base a : Nat} {is : List Instr} (h : Starts base is a) :
    a ≤ base + Code.size is := by
  obtain ⟨js, ⟨ks, rfl⟩, rfl⟩ := h
  rw [size_append]
  omega

theorem mem_locate_append (base : Nat) (is : List Instr) (i : Instr) (js : List Instr) :
    (base + Code.size is, i) ∈ locate base (is ++ i :: js) := by
  rw [locate_append]
  exact List.mem_append_right _ (List.mem_cons_self ..)

/-- The addresses of a whole program are the boundaries of its code. -/
theorem boundary_of_starts {is : List Instr} (hspell : ∀ i ∈ is, i.Spellable) {a : Nat}
    (h : Starts 0 is a) : Boundary (assemble is) a := by
  refine ⟨locate 0 is, listing?_assemble hspell, ?_⟩
  obtain ⟨js, ⟨ks, rfl⟩, rfl⟩ := h
  cases ks with
  | nil => exact .inr (by rw [length_assemble, List.append_nil, Nat.zero_add])
  | cons k ks => exact .inl ⟨k, mem_locate_append 0 js k ks⟩

/-! ## Parts of a program -/

/-- What is known of the instructions of a part. -/
structure LaidOut (t : Tables) (target : Nat → Prop) (size : Nat) (is : List Instr) : Prop where
  size_eq : Code.size is = size
  refers : ∀ i ∈ is, i.Refers t target

namespace LaidOut

theorem nil (t : Tables) (target : Nat → Prop) : LaidOut t target 0 [] :=
  ⟨rfl, fun _ hi => absurd hi List.not_mem_nil⟩

theorem single {t : Tables} {target : Nat → Prop} (i : Instr) (h : i.Refers t target) :
    LaidOut t target i.size [i] := by
  refine ⟨by simp, fun j hj => ?_⟩
  rw [List.mem_singleton.1 hj]
  exact h

theorem append {t : Tables} {target : Nat → Prop} {m n : Nat} {is js : List Instr}
    (h : LaidOut t target m is) (h' : LaidOut t target n js) :
    LaidOut t target (m + n) (is ++ js) := by
  refine ⟨by rw [size_append, h.size_eq, h'.size_eq], fun i hi => ?_⟩
  rcases List.mem_append.1 hi with hi | hi
  · exact h.refers i hi
  · exact h'.refers i hi

theorem spellable {t : Tables} {target : Nat → Prop} {n : Nat} {is : List Instr}
    (h : LaidOut t target n is) : ∀ i ∈ is, i.Spellable :=
  fun i hi => (h.refers i hi).spellable

theorem mono {t : Tables} {target target' : Nat → Prop} {n : Nat} {is : List Instr}
    (h : LaidOut t target n is) (hsub : ∀ a, target a → target' a) : LaidOut t target' n is :=
  ⟨h.size_eq, fun i hi => (h.refers i hi).mono hsub⟩

end LaidOut

/-- An entry that is found has a number below the number of entries. -/
theorem lt_of_idxOf? {l : List String} {x : String} {i : Nat} (h : l.idxOf? x = some i) :
    i < l.length := by
  obtain ⟨hi, -⟩ := List.findIdx?_eq_some_iff_getElem.1 h
  exact hi

theorem Tables.lt_of_constant? {t : Tables} {text : String} {i : UInt8}
    (h : t.constant? text = some i) : i.toNat < t.constants.length :=
  lt_of_idxOf? (idxOf?_of_constant? h)

theorem Tables.lt_of_register? {t : Tables} {name : String} {r : UInt8}
    (h : t.register? name = some r) : r.toNat < t.registers.length :=
  lt_of_idxOf? (idxOf?_of_register? h)

/-- What a table has for an operator is one of its entries. -/
theorem mem_of_lookup {operators : List (String × Opcode)} {op : String} {opcode : Opcode}
    (h : operators.lookup op = some opcode) : (op, opcode) ∈ operators := by
  obtain ⟨front, back, rfl, -⟩ := List.lookup_eq_some_iff.1 h
  exact List.mem_append_right _ (List.mem_cons_self ..)

/-- An operator is an instruction without an operand. -/
theorem size_operator {operators : List (String × Opcode)} {op : String} {i : Instr}
    (h : operator? operators op = some i) : i.size = 1 := by
  obtain ⟨opcode, -, hi⟩ := Option.bind_eq_some_iff.1 h
  have hread : (opcode.instr? []).isSome := by rw [hi]; rfl
  rw [Instr.size, Instr.opcode_of_instr? hi]
  exact congrArg (1 + ·) (Nat.le_zero.1 ((Opcode.isSome_instr? opcode []).1 hread))

theorem laidOut_operator {t : Tables} {target : Nat → Prop} {operators : List (String × Opcode)}
    {op : String} {i : Instr} (h : operator? operators op = some i) : LaidOut t target 1 [i] := by
  have hrefers : i.Refers t target := by
    obtain ⟨opcode, -, hi⟩ := Option.bind_eq_some_iff.1 h
    cases opcode <;> cases hi <;> trivial
  rw [← size_operator h]
  exact LaidOut.single i hrefers

theorem laidOut_literal {t : Tables} {target : Nat → Prop} {pos : Pos} {value : Option Scalar}
    {is : List Instr} (h : literalInstrs? t value = some is) :
    LaidOut t target (Expr.size (.literal pos value)) is := by
  match value with
  | some (.bool b) =>
    cases h
    exact LaidOut.single (.pushBool b) trivial
  | some (.int n) =>
    rw [literalInstrs?] at h
    split at h
    · rename_i hn
      cases h
      exact LaidOut.single (.pushInt n) hn
    · cases h
  | some (.text s) =>
    obtain ⟨i, hi, rfl⟩ := Option.map_eq_some_iff.1 h
    exact LaidOut.single (.loadConstant i) (Tables.lt_of_constant? hi)
  | some (.real x) => cases h
  | none => cases h

theorem isSome_ofId?_id (b : Builtin) : (Builtin.ofId? (UInt8.ofNat b.id).toNat).isSome := by
  cases b <;> rfl

mutual

/-- The operands of an expression refer to something, and its size is the one that
was announced. -/
theorem Expr.laidOut {t : Tables} {target : Nat → Prop} : ∀ (e : Expr) {is : List Instr},
    e.instrs? t = some is → LaidOut t target e.size is
  | .literal pos value, is, h => by
    rw [Expr.instrs?] at h
    exact laidOut_literal h
  | .identifier pos name, is, h => by
    rw [Expr.instrs?] at h
    obtain ⟨r, hr, rfl⟩ := Option.map_eq_some_iff.1 h
    rw [Expr.size]
    exact LaidOut.single (.loadRegister r) (Tables.lt_of_register? hr)
  | .unary pos op operand, is, h => by
    rw [Expr.instrs?] at h
    rw [Expr.size]
    by_cases hleast : op = "-" ∧ operand.isLeastMagnitude
    · rw [if_pos hleast] at h ⊢
      cases h
      have hword : Word32.least ≤ Word32.least ∧ Word32.least ≤ Word32.greatest := by decide
      exact LaidOut.single (.pushInt Word32.least) hword
    · rw [if_neg hleast] at h ⊢
      obtain ⟨js, hjs, h⟩ := Option.bind_eq_some_iff.1 h
      obtain ⟨i, hi, h⟩ := Option.bind_eq_some_iff.1 h
      cases h
      exact (Expr.laidOut operand hjs).append (laidOut_operator hi)
  | .binary pos left op right, is, h => by
    rw [Expr.size]
    obtain ⟨js, ks, i, hjs, hks, hi, rfl⟩ := Expr.of_binary h
    exact ((Expr.laidOut left hjs).append (Expr.laidOut right hks)).append (laidOut_operator hi)
  | .call pos name args, is, h => by
    rw [Expr.instrs?] at h
    rw [Expr.size]
    obtain ⟨builtin, -, h⟩ := Option.bind_eq_some_iff.1 h
    split at h
    · obtain ⟨js, hjs, h⟩ := Option.bind_eq_some_iff.1 h
      cases h
      exact (Expr.laidOutList args hjs).append
        (LaidOut.single (.callBuiltin _) (isSome_ofId?_id builtin))
    · cases h
  | .misplaced kind, is, h => by
    rw [Expr.instrs?] at h
    cases h

theorem Expr.laidOutList {t : Tables} {target : Nat → Prop} : ∀ (es : List Expr) {is : List Instr},
    Expr.instrsList? t es = some is → LaidOut t target (Expr.sizeList es) is
  | [], is, h => by
    rw [Expr.instrsList?] at h
    cases h
    rw [Expr.sizeList]
    exact LaidOut.nil t target
  | e :: es, is, h => by
    rw [Expr.sizeList]
    obtain ⟨js, ks, hjs, hks, rfl⟩ := Expr.of_cons h
    exact (Expr.laidOut e hjs).append (Expr.laidOutList es hks)

end

/-- The instructions of an expression have the announced size. -/
theorem Expr.size_instrs {t : Tables} {e : Expr} {is : List Instr} (h : e.instrs? t = some is) :
    Code.size is = e.size := by
  have hlaid : LaidOut t (fun _ => True) e.size is := Expr.laidOut e h
  exact hlaid.size_eq

theorem Expr.size_instrsList {t : Tables} {es : List Expr} {is : List Instr}
    (h : Expr.instrsList? t es = some is) : Code.size is = Expr.sizeList es := by
  have hlaid : LaidOut t (fun _ => True) (Expr.sizeList es) is := Expr.laidOutList es h
  exact hlaid.size_eq

/-! ## Statements -/

/-- Where a part of a program may jump to: inside of itself, and behind the
innermost loop. -/
def StaysIn (loopEnd : Option Nat) (base : Nat) (is : List Instr) (a : Nat) : Prop :=
  Starts base is a ∨ loopEnd = some a

/-- The first of two parts stays in both of them. -/
theorem LaidOut.left {t : Tables} {loopEnd : Option Nat} {base n : Nat} {is : List Instr}
    (h : LaidOut t (StaysIn loopEnd base is) n is) (js : List Instr) :
    LaidOut t (StaysIn loopEnd base (is ++ js)) n is :=
  h.mono fun _ ha => ha.imp_left fun ha => starts_left ha js

/-- The second of two parts stays in both of them. -/
theorem LaidOut.right {t : Tables} {loopEnd : Option Nat} {base start n : Nat}
    {is js : List Instr} (h : LaidOut t (StaysIn loopEnd start js) n js)
    (hstart : start = base + Code.size is) :
    LaidOut t (StaysIn loopEnd base (is ++ js)) n js := by
  subst hstart
  exact h.mono fun _ ha => ha.imp_left fun ha => starts_right is ha

theorem eq_of_jumpTo? {a : Nat} {i : Instr} (h : jumpTo? a = some i) :
    i = .jump (UInt8.ofNat a) ∧ (UInt8.ofNat a).toNat = a := by
  obtain ⟨b, hb, rfl⟩ := Option.map_eq_some_iff.1 h
  have hnat := toNat_of_byte? hb
  rw [← hnat, UInt8.ofNat_toNat]
  exact ⟨rfl, rfl⟩

theorem size_jumpTo {a : Nat} {i : Instr} (h : jumpTo? a = some i) : Code.size [i] = 2 := by
  obtain ⟨b, -, rfl⟩ := Option.map_eq_some_iff.1 h
  rfl

theorem size_branchTo {a : Nat} {i : Instr} (h : branchTo? a = some i) : i.size = 2 := by
  obtain ⟨b, -, rfl⟩ := Option.map_eq_some_iff.1 h
  rfl

/-- A jump refers to its target. -/
theorem laidOut_jumpTo {t : Tables} {target : Nat → Prop} {a : Nat} {i : Instr}
    (hi : jumpTo? a = some i) (ha : target a) : LaidOut t target 2 [i] := by
  obtain ⟨b, hb, rfl⟩ := Option.map_eq_some_iff.1 hi
  have hrefers : target b.toNat := (toNat_of_byte? hb).symm ▸ ha
  exact LaidOut.single (.jump b) hrefers

theorem laidOut_branchTo {t : Tables} {target : Nat → Prop} {a : Nat} {i : Instr}
    (hi : branchTo? a = some i) (ha : target a) : LaidOut t target 2 [i] := by
  obtain ⟨b, hb, rfl⟩ := Option.map_eq_some_iff.1 hi
  have hrefers : target b.toNat := (toNat_of_byte? hb).symm ▸ ha
  exact LaidOut.single (.jumpIfFalse b) hrefers

/-- Where a chain may jump to: behind the conditional as well. -/
def StaysInOr (finish : Nat) (loopEnd : Option Nat) (base : Nat) (is : List Instr) (a : Nat) :
    Prop :=
  StaysIn loopEnd base is a ∨ a = finish

theorem LaidOut.rightOr {t : Tables} {finish : Nat} {loopEnd : Option Nat} {base start n : Nat}
    {is js : List Instr} (h : LaidOut t (StaysInOr finish loopEnd start js) n js)
    (hstart : start = base + Code.size is) :
    LaidOut t (StaysInOr finish loopEnd base (is ++ js)) n js := by
  subst hstart
  exact h.mono fun _ ha => ha.imp_left fun ha => ha.imp_left fun ha => starts_right is ha

/-- The size of a test and the branch behind it. -/
theorem size_test {t : Tables} {cond : Expr} {test : List Instr} {branch : Instr}
    (htest : cond.instrs? t = some test) (hbranch : branch.size = 2) :
    Code.size (test ++ [branch]) = cond.size + 2 := by
  rw [size_append, Expr.size_instrs htest, size_cons, hbranch]
  rfl

/-- A test, its block and what follows the block. -/
theorem laidOut_clause {t : Tables} {loopEnd : Option Nat} {finish base entry l m n : Nat}
    {test block others : List Instr} {branch : Instr}
    (htest : ∀ target, LaidOut t target l test)
    (hbranch : branchTo? (base + l + 2 + m + entry) = some branch)
    (hblock : LaidOut t (StaysIn loopEnd (base + l + 2) block) m block)
    (hothers : LaidOut t (StaysInOr finish loopEnd (base + l + 2 + m) others) n others)
    (hentry : Starts (base + l + 2 + m) others (base + l + 2 + m + entry)) :
    LaidOut t (StaysInOr finish loopEnd base (test ++ [branch] ++ block ++ others))
      (l + 2 + m + n) (test ++ [branch] ++ block ++ others) := by
  have hsize : Code.size test = l := (htest fun _ => True).size_eq
  have hsize' : Code.size (test ++ [branch]) = l + 2 := by
    obtain ⟨b, -, rfl⟩ := Option.map_eq_some_iff.1 hbranch
    rw [size_append, hsize]
    rfl
  have hsize'' : Code.size (test ++ [branch] ++ block) = l + 2 + m := by
    rw [size_append, hsize', hblock.size_eq]
  have hgo : Starts base (test ++ [branch] ++ block ++ others) (base + l + 2 + m + entry) := by
    refine starts_right _ ?_
    rw [hsize'', show base + (l + 2 + m) = base + l + 2 + m by omega]
    exact hentry
  have hblock' : LaidOut t (StaysIn loopEnd base (test ++ [branch] ++ block)) m block :=
    hblock.right (by rw [hsize']; omega)
  have hblock'' : LaidOut t (StaysIn loopEnd base (test ++ [branch] ++ block ++ others)) m block :=
    hblock'.mono fun _ ha => ha.imp_left fun ha => starts_left ha others
  exact (((htest _).append (laidOut_branchTo hbranch (.inl (.inl hgo)))).append
    (hblock''.mono fun _ ha => .inl ha)).append (hothers.rightOr (by rw [hsize'']; omega))

mutual

/-- The operands of a statement refer to something, and its size is the one that was
announced. -/
theorem Stmt.laidOut {t : Tables} : ∀ (s : Stmt) {loopEnd : Option Nat} {base : Nat}
    {is : List Instr}, s.instrs? t loopEnd base = some is →
    LaidOut t (StaysIn loopEnd base is) s.size is
  | .exprStmt pos e, loopEnd, base, is, h => by
    rw [Stmt.instrs?] at h
    rw [Stmt.size]
    exact Expr.laidOut e h
  | .letDecl pos name value, loopEnd, base, is, h
  | .assign pos name value, loopEnd, base, is, h => by
    rw [Stmt.instrs?] at h
    rw [Stmt.size]
    obtain ⟨js, r, hjs, hr, rfl⟩ := Stmt.of_store h
    exact (Expr.laidOut value hjs).append
      (LaidOut.single (.storeRegister r) (Tables.lt_of_register? hr))
  | .returning pos none, loopEnd, base, is, h => by
    rw [Stmt.instrs?] at h
    rw [Stmt.size]
    cases h
    exact LaidOut.single .ret trivial
  | .returning pos (some value), loopEnd, base, is, h => by
    rw [Stmt.instrs?] at h
    rw [Stmt.size]
    obtain ⟨js, hjs, h⟩ := Option.bind_eq_some_iff.1 h
    cases h
    exact (Expr.laidOut value hjs).append (LaidOut.single .ret trivial)
  | .breaking pos, loopEnd, base, is, h => by
    rw [Stmt.size]
    obtain ⟨a, i, ha, hi, rfl⟩ := Stmt.of_breaking h
    exact laidOut_jumpTo hi (.inr ha)
  | .conditional pos cond body rest, loopEnd, base, is, h => by
    rw [Stmt.size]
    obtain ⟨test, branch, block, others, htest, hbranch, hblock, hothers, rfl⟩ :=
      Stmt.of_conditional h
    obtain ⟨hrest, hentry⟩ := Chain.laidOut rest hothers
    have hall := laidOut_clause (fun target => Expr.laidOut cond htest) hbranch
      (Stmt.laidOutList body hblock) hrest hentry
    refine hall.mono fun a ha => ?_
    rcases ha with ha | rfl
    · exact ha
    · left
      have hend := starts_end base (test ++ [branch] ++ block ++ others)
      rw [hall.size_eq] at hend
      simpa only [Nat.add_assoc] using hend
  | .loop pos body, loopEnd, base, is, h => by
    rw [Stmt.size]
    obtain ⟨block, back, hblock, hback, rfl⟩ := Stmt.of_loop h
    have hbody := (Stmt.laidOutList body hblock).left [back]
    have hall := hbody.append (laidOut_jumpTo hback (.inl (starts_base ..)))
    refine hall.mono fun a ha => ?_
    rcases ha with ha | ha
    · exact .inl ha
    · left
      have hend := starts_end base (block ++ [back])
      rw [hall.size_eq] at hend
      cases ha
      exact hend
  | .fnDecl .., loopEnd, base, is, h
  | .misplaced kind, loopEnd, base, is, h => by
    rw [Stmt.instrs?] at h
    cases h

theorem Stmt.laidOutList {t : Tables} : ∀ (ss : List Stmt) {loopEnd : Option Nat} {base : Nat}
    {is : List Instr}, Stmt.instrsList? t loopEnd base ss = some is →
    LaidOut t (StaysIn loopEnd base is) (Stmt.sizeList ss) is
  | [], loopEnd, base, is, h => by
    rw [Stmt.instrsList?] at h
    cases h
    rw [Stmt.sizeList]
    exact LaidOut.nil ..
  | s :: ss, loopEnd, base, is, h => by
    rw [Stmt.sizeList]
    obtain ⟨js, ks, hjs, hks, rfl⟩ := Stmt.of_cons h
    have hs := Stmt.laidOut s hjs
    exact (hs.left ks).append ((Stmt.laidOutList ss hks).right (by rw [hs.size_eq]))

/-- The operands of a chain refer to something, and a failed test in front of it finds
an instruction to go on with. -/
theorem Chain.laidOut {t : Tables} : ∀ (rest : Chain) {loopEnd : Option Nat} {finish base : Nat}
    {is : List Instr}, rest.instrs? t loopEnd finish base = some is →
    LaidOut t (StaysInOr finish loopEnd base is) rest.size is ∧
      Starts base is (base + rest.entry)
  | .done, loopEnd, finish, base, is, h => by
    rw [Chain.instrs?] at h
    cases h
    rw [Chain.size]
    exact ⟨LaidOut.nil .., starts_base ..⟩
  | .otherwise body, loopEnd, finish, base, is, h => by
    rw [Chain.size]
    obtain ⟨exit, block, hexit, hblock, rfl⟩ := Chain.of_otherwise h
    have hjump : LaidOut t (StaysInOr finish loopEnd base ([exit] ++ block)) 2 [exit] :=
      laidOut_jumpTo hexit (.inr rfl)
    have hbody := (Stmt.laidOutList body hblock).right (by rw [hjump.size_eq])
    refine ⟨hjump.append (hbody.mono fun _ ha => .inl ha), starts_left ?_ block⟩
    have hend := starts_end base [exit]
    rw [hjump.size_eq] at hend
    exact hend
  | .elseIf cond body rest, loopEnd, finish, base, is, h => by
    rw [Chain.size]
    obtain ⟨exit, test, branch, block, others, hexit, htest, hbranch, hblock, hothers, rfl⟩ :=
      Chain.of_elseIf h
    obtain ⟨hrest, hentry⟩ := Chain.laidOut rest hothers
    have hclause := laidOut_clause (fun target => Expr.laidOut cond htest) hbranch
      (Stmt.laidOutList body hblock) hrest hentry
    simp only [List.append_assoc] at hclause ⊢
    have hjump : LaidOut t (StaysInOr finish loopEnd base
        ([exit] ++ (test ++ ([branch] ++ (block ++ others))))) 2 [exit] :=
      laidOut_jumpTo hexit (.inr rfl)
    refine ⟨hjump.append (hclause.rightOr (by rw [hjump.size_eq])), starts_left ?_ _⟩
    have hend := starts_end base [exit]
    rw [hjump.size_eq] at hend
    exact hend

end

/-- **A whole program jumps to its own addresses only**, and all its other operands
refer to something as well. -/
theorem Program.laidOut {t : Tables} {p : Program} {is : List Instr}
    (h : p.instrs? t = some is) : LaidOut t (Starts 0 is) (Stmt.sizeList p.items) is :=
  (Stmt.laidOutList p.items h).mono fun _ ha => ha.elim id nofun

/-! ## Clauses in code -/

/-- A conditional is placed as a test, a branch, a block and a chain. -/
theorem placed_clause {t : Tables} {code : List UInt8} {cond : Expr} {body : List Stmt}
    {loopEnd : Option Nat} {a : Nat} {test block others : List Instr} {branch : Instr}
    (htest : cond.instrs? t = some test) (hbranch : branch.size = 2)
    (hblock : Stmt.instrsList? t loopEnd (a + cond.size + 2) body = some block)
    (hplaced : Placed code a (test ++ [branch] ++ block ++ others)) :
    Placed code a test ∧ Placed code (a + cond.size) [branch] ∧
      Placed code (a + cond.size + 2) block ∧
      Placed code (a + cond.size + 2 + Stmt.sizeList body) others := by
  obtain ⟨hfront, hothers⟩ := placed_append hplaced
  obtain ⟨hhead, hbody⟩ := placed_append hfront
  obtain ⟨htested, hbranched⟩ := placed_append hhead
  have hsize := size_test htest hbranch
  rw [Expr.size_instrs htest] at hbranched
  rw [hsize, ← Nat.add_assoc] at hbody
  rw [size_append, hsize, (Stmt.laidOutList body hblock).size_eq, ← Nat.add_assoc,
    ← Nat.add_assoc] at hothers
  exact ⟨htested, hbranched, hbody, hothers⟩

/-- A further clause is placed as a jump and what a conditional is placed as. -/
theorem placed_elseIf {t : Tables} {code : List UInt8} {cond : Expr} {body : List Stmt}
    {loopEnd : Option Nat} {a finish : Nat} {exit branch : Instr} {test block others : List Instr}
    (hexit : jumpTo? finish = some exit) (htest : cond.instrs? t = some test)
    (hbranch : branch.size = 2)
    (hblock : Stmt.instrsList? t loopEnd (a + 2 + cond.size + 2) body = some block)
    (hplaced : Placed code a ([exit] ++ test ++ [branch] ++ block ++ others)) :
    Placed code a [exit] ∧ Placed code (a + 2) test ∧ Placed code (a + 2 + cond.size) [branch] ∧
      Placed code (a + 2 + cond.size + 2) block ∧
      Placed code (a + 2 + cond.size + 2 + Stmt.sizeList body) others := by
  rw [List.append_assoc, List.append_assoc, List.append_assoc] at hplaced
  obtain ⟨hexited, hclause⟩ := placed_append hplaced
  rw [size_jumpTo hexit, ← List.append_assoc, ← List.append_assoc] at hclause
  exact ⟨hexited, placed_clause htest hbranch hblock hclause⟩

end Octet
