import Mathlib.Data.List.Forall2
import Octet.Proofs.Layout.Targets
import Octet.Proofs.Machine.Ensures
import Octet.Proofs.Meaning.Interpreter

/-!
# The machine does what the meaning says

The machine and the meaning of a program work on different things.  The machine has
numbers where the meaning has texts and names; the tables that the program was laid
out with tell which number is which.  `Matches` says that a state and a world are the
same up to that: the same stack, the same variables, the same output.

`Simulates` then says of an effect that it is the counterpart of a meaning.  From
matching states both end well, and the states match again, or both fail, for the same
reason and with the same output.  The rules for it go along the structure of the two,
just as those of `Effect.Ensures` go along the structure of one, and at the end of
this file stands one lemma for each instruction.

## The same reason

A failure of the machine says more than one of the meaning, and less: it knows where
the instruction stands, and it knows a register instead of a name.  `Trap.fault?`
translates it.  A failure that only broken code has is not translated at all.
-/

namespace Octet

open Effect

/-! ## States -/

/-- A value of the machine is a value of the program. -/
inductive Held (t : Tables) : Datum → Value → Prop
  | int (n : Int) : Held t (.int n) (.i32 n)
  | bool (b : Bool) : Held t (.bool b) (.bool b)
  | text {s : String} {i : Nat} (h : t.constants.idxOf? s = some i) : Held t (.text s) (.str i)

/-- Only one entry has a given place. -/
theorem eq_of_idxOf? {l : List String} {x y : String} {i : Nat} (hx : l.idxOf? x = some i)
    (hy : l.idxOf? y = some i) : x = y := by
  obtain ⟨hi, hfound, -⟩ := List.findIdx?_eq_some_iff_getElem.1 hx
  obtain ⟨_, hfound', -⟩ := List.findIdx?_eq_some_iff_getElem.1 hy
  exact (eq_of_beq hfound).symm.trans (eq_of_beq hfound')

/-- The entry of a place is the one that has it. -/
theorem getElem?_of_idxOf? {l : List String} {x : String} {i : Nat} (h : l.idxOf? x = some i) :
    l[i]? = some x := by
  obtain ⟨hi, hfound, -⟩ := List.findIdx?_eq_some_iff_getElem.1 h
  rw [List.getElem?_eq_getElem hi, eq_of_beq hfound]

namespace Held

variable {t : Tables} {d e : Datum} {u v : Value}

theorem tag_eq (h : Held t d v) : d.tag = v.tag := by
  cases h <;> rfl

/-- The machine tells values apart as the program does. -/
theorem eq_iff (h : Held t d u) (h' : Held t e v) : d = e ↔ u = v := by
  cases h with
  | int n => cases h' <;> simp
  | bool b => cases h' <;> simp
  | text hs =>
    cases h' with
    | int n => simp
    | bool b => simp
    | text hs' =>
      constructor
      · intro heq
        cases heq
        rw [hs] at hs'
        cases hs'
        rfl
      · intro heq
        cases heq
        rw [eq_of_idxOf? hs hs']

end Held

/-- A state of the machine is a world of the program, and the machine was not asked to
stop. -/
structure Matches (t : Tables) (w : World) (s : State) : Prop where
  stack : List.Forall₂ (Held t) w.stack s.stack
  store : ∀ (name : String) (r : UInt8), t.registers.idxOf? name = some r.toNat →
    Option.Rel (Held t) (w.store name) (s.register r)
  output : w.output = s.output
  quiet : s.stopRequested = false
  result : s.result = none

/-- A failure of the machine as a failure of the program. -/
def Trap.fault? (registers : List String) : Trap → Option Fault
  | .overflow limit => some (.overflow limit)
  | .underflow => some .underflow
  | .wrongTag expected found => some (.wrongTag expected found)
  | .unsetRegister r => registers[r.toNat]?.map .unset
  | .divisionByZero => some .divisionByZero
  | .incomparable left right => some (.incomparable left right)
  | .badLogic .and left right => some (.badLogic .and left right)
  | .badLogic .or left right => some (.badLogic .or left right)
  | .notOfText => some .notOfText
  | _ => none

theorem Trap.fault?_unsetRegister (registers : List String) (r : UInt8) :
    (Trap.unsetRegister r).fault? registers = registers[r.toNat]?.map .unset := rfl

/-! ## Counterparts -/

/-- Two ends are counterparts of each other, that of a meaning and that of an effect
which started from a given state. -/
inductive Counterpart {α β : Type} (t : Tables) (X : α → β → Prop) (s : State) :
    Except Fault α × World → Except MachineError β × State → Prop
  | ok {x : α} {y : β} {w' : World} {s' : State} (hvalue : X x y) (hmatches : Matches t w' s')
      (hip : s'.ip = s.ip) (hhalted : s'.halted = s.halted) :
      Counterpart t X s (.ok x, w') (.ok y, s')
  | error {f : Fault} {cause : Trap} {offset : Nat} {w' : World} {s' : State}
      (hcause : cause.fault? t.registers = some f) (houtput : w'.output = s'.output) :
      Counterpart t X s (.error f, w') (.error (.trap cause offset), s')

/-- An effect does what a meaning says. -/
def Simulates {α β : Type} (setup : Setup) (t : Tables) (X : α → β → Prop) (m : Meaning α)
    (a : Effect β) : Prop :=
  ∀ w s, Matches t w s → Counterpart t X s (m.perform setup.maxStack w) (a.perform setup s)

namespace Simulates

variable {α β γ δ : Type} {setup : Setup} {t : Tables} {X : α → β → Prop} {Y : γ → δ → Prop}

theorem pure {x : α} {y : β} (h : X x y) : Simulates setup t X (pure x) (pure y) :=
  fun _ _ hmatches => .ok h hmatches rfl rfl

/-- One part after another. -/
theorem bind {m : Meaning α} {a : Effect β} {f : α → Meaning γ} {g : β → Effect δ}
    (h : Simulates setup t X m a) (h' : ∀ x y, X x y → Simulates setup t Y (f x) (g y)) :
    Simulates setup t Y (m >>= f) (a >>= g) := by
  intro w s hmatches
  have hfirst := h w s hmatches
  rw [Meaning.perform_bind, perform_bind]
  generalize m.perform setup.maxStack w = end₁ at hfirst ⊢
  generalize a.perform setup s = end₂ at hfirst ⊢
  cases hfirst with
  | error hcause houtput => exact .error hcause houtput
  | ok hvalue hmatches' hip hhalted =>
    rename_i x y w' s'
    have hsecond := h' x y hvalue w' s' hmatches'
    show Counterpart t Y s ((f x).perform setup.maxStack w') ((g y).perform setup s')
    generalize (f x).perform setup.maxStack w' = end₃ at hsecond ⊢
    generalize (g y).perform setup s' = end₄ at hsecond ⊢
    cases hsecond with
    | error hcause houtput => exact .error hcause houtput
    | ok hvalue' hmatches'' hip' hhalted' =>
      exact .ok hvalue' hmatches'' (hip'.trans hip) (hhalted'.trans hhalted)

theorem fail {f : Fault} {cause : Trap} (h : cause.fault? t.registers = some f) :
    Simulates setup t X (Meaning.fail f) (trap cause) :=
  fun _ _ hmatches => .error h hmatches.output

end Simulates

section

variable {setup : Setup} {t : Tables}

/-- The two yield the same. -/
abbrev Same {α : Type} : α → α → Prop := fun x y => x = y

/-! ## Primitive effects -/

theorem simulates_push {d : Datum} {v : Value} (h : Held t d v) :
    Simulates setup t Same (Meaning.push d) (push v) := by
  intro w s hmatches
  have hlength : w.stack.length = s.stack.length := hmatches.stack.length_eq
  rw [Meaning.perform_push, hlength]
  by_cases hfull : setup.maxStack ≤ s.stack.length
  · rw [if_pos hfull, perform_push_of_full hfull]
    exact .error rfl hmatches.output
  · rw [if_neg hfull, perform_push_of_room hfull]
    exact .ok rfl { hmatches with stack := .cons h hmatches.stack } rfl rfl

theorem simulates_pop : Simulates setup t (Held t) Meaning.pop pop := by
  intro w s hmatches
  have hstack := hmatches.stack
  rw [Meaning.perform_pop, perform_pop]
  cases hw : w.stack with
  | nil =>
    rw [hw] at hstack
    rw [List.forall₂_nil_left_iff.1 hstack]
    exact .error rfl hmatches.output
  | cons d rest =>
    rw [hw] at hstack
    obtain ⟨v, rest', hhead, htail, heq⟩ := List.forall₂_cons_left_iff.1 hstack
    rw [heq]
    exact .ok hhead { hmatches with stack := htail } rfl rfl

theorem simulates_popInt : Simulates setup t Same Meaning.popInt popInt := by
  refine simulates_pop.bind fun d v h => ?_
  cases h with
  | int n => exact .pure rfl
  | bool b => exact .fail rfl
  | text _ => exact .fail rfl

theorem simulates_popBool : Simulates setup t Same Meaning.popBool popBool := by
  refine simulates_pop.bind fun d v h => ?_
  cases h with
  | bool b => exact .pure rfl
  | int n => exact .fail rfl
  | text _ => exact .fail rfl

theorem simulates_popText :
    Simulates setup t (fun s i => t.constants.idxOf? s = some i) Meaning.popText popStr := by
  refine simulates_pop.bind fun d v h => ?_
  cases h with
  | text hs => exact .pure hs
  | int n => exact .fail rfl
  | bool b => exact .fail rfl

/-- Looking up a text by its number has no counterpart: the meaning has the text. -/
theorem simulates_constant (hconstants : setup.image.constants = t.constants) {s : String}
    {i : Nat} (h : t.constants.idxOf? s = some i) :
    Simulates setup t (fun x y => x = s ∧ y = s) (pure s) (constant i) := by
  intro w st hmatches
  rw [perform_constant, hconstants, getElem?_of_idxOf? h]
  exact .ok ⟨rfl, rfl⟩ hmatches rfl rfl

theorem simulates_load {name : String} {r : UInt8}
    (h : t.registers.idxOf? name = some r.toNat) :
    Simulates setup t (Held t) (Meaning.valueOf name) (load r) := by
  intro w s hmatches
  have hvalue := hmatches.store name r h
  rw [Meaning.perform_valueOf, perform_load]
  generalize w.store name = d at hvalue ⊢
  generalize s.register r = v at hvalue ⊢
  cases hvalue with
  | none =>
    have hcause : (Trap.unsetRegister r).fault? t.registers = some (.unset name) := by
      rw [Trap.fault?_unsetRegister, getElem?_of_idxOf? h, Option.map_some]
    exact .error hcause hmatches.output
  | some hheld => exact .ok hheld hmatches rfl rfl

theorem simulates_store {name : String} {r : UInt8}
    (h : t.registers.idxOf? name = some r.toNat) {d : Datum} {v : Value} (hheld : Held t d v) :
    Simulates setup t Same (Meaning.assign name d) (store r v) := by
  intro w s hmatches
  refine .ok rfl { hmatches with store := ?_ } rfl rfl
  intro x q hx
  rw [register_store]
  show Option.Rel (Held t) (if x = name then some d else w.store x) _
  by_cases hname : x = name
  · rw [if_pos hname]
    rw [hname, h] at hx
    rw [if_pos (UInt8.toNat_inj.1 (Option.some.inj hx)).symm]
    exact .some hheld
  · -- two names have two registers
    have hother : q ≠ r := by
      rintro rfl
      exact hname (eq_of_idxOf? hx h)
    rw [if_neg hname, if_neg hother]
    exact hmatches.store x q hx

theorem simulates_write (text : String) :
    Simulates setup t Same (Meaning.write text) (write text) := by
  intro w s hmatches
  have houtput : w.output.push text = s.output.push text := by rw [hmatches.output]
  exact .ok rfl { hmatches with output := houtput } rfl rfl

/-! ## Instructions -/

theorem simulates_pushInt {n : Int} (h : Word32.least ≤ n ∧ n ≤ Word32.greatest) :
    Simulates setup t Same (Meaning.push (.int n))
      (Machine.execute BuiltinTable.standard (.pushInt n)) := by
  refine simulates_push ?_
  rw [Value.ofInt, Word32.wrap_of_mem h.1 h.2]
  exact .int n

theorem simulates_loadConstant (hconstants : setup.image.constants = t.constants) {s : String}
    {i : UInt8} (h : t.constants.idxOf? s = some i.toNat) :
    Simulates setup t Same (Meaning.push (.text s))
      (Machine.execute BuiltinTable.standard (.loadConstant i)) := by
  have hboth : Simulates setup t Same (pure s >>= fun s => Meaning.push (.text s))
      (do let _ ← constant i.toNat; push (.str i.toNat)) := by
    refine (simulates_constant hconstants h).bind fun x y hxy => ?_
    obtain ⟨rfl, -⟩ := hxy
    exact simulates_push (.text h)
  rw [pure_bind] at hboth
  exact hboth

/-- The instruction of an operator. -/
def BinaryOp.instr : BinaryOp → Instr
  | arith op => .arith op
  | order op => .order op
  | equality negated => .equality negated
  | logic op => .logic op

/-- The instruction of an operator. -/
def UnaryOp.instr : UnaryOp → Instr
  | not => .not
  | neg => .neg

/-- An operator that is laid out has a meaning. -/
theorem ofSpelling?_of_binary {op : String} {i : Instr}
    (h : operator? binaryOperators op = some i) :
    ∃ b, BinaryOp.ofSpelling? op = some b ∧ i = b.instr := by
  obtain ⟨opcode, hopcode, hi⟩ := Option.bind_eq_some_iff.1 h
  obtain ⟨front, back, hsplit, -⟩ := List.lookup_eq_some_iff.1 hopcode
  have hmem : (op, opcode) ∈ binaryOperators := by
    rw [hsplit]
    exact List.mem_append_right _ (List.mem_cons_self ..)
  simp only [binaryOperators, List.mem_cons, Prod.mk.injEq, List.not_mem_nil, or_false] at hmem
  rcases hmem with ⟨rfl, rfl⟩ | ⟨rfl, rfl⟩ | ⟨rfl, rfl⟩ | ⟨rfl, rfl⟩ | ⟨rfl, rfl⟩ | ⟨rfl, rfl⟩ |
    ⟨rfl, rfl⟩ | ⟨rfl, rfl⟩ | ⟨rfl, rfl⟩ | ⟨rfl, rfl⟩ | ⟨rfl, rfl⟩ | ⟨rfl, rfl⟩ | ⟨rfl, rfl⟩ <;>
    cases hi <;> exact ⟨_, rfl, rfl⟩

theorem ofSpelling?_of_unary {op : String} {i : Instr}
    (h : operator? unaryOperators op = some i) :
    ∃ u, UnaryOp.ofSpelling? op = some u ∧ i = u.instr := by
  obtain ⟨opcode, hopcode, hi⟩ := Option.bind_eq_some_iff.1 h
  obtain ⟨front, back, hsplit, -⟩ := List.lookup_eq_some_iff.1 hopcode
  have hmem : (op, opcode) ∈ unaryOperators := by
    rw [hsplit]
    exact List.mem_append_right _ (List.mem_cons_self ..)
  simp only [unaryOperators, List.mem_cons, Prod.mk.injEq, List.not_mem_nil, or_false] at hmem
  rcases hmem with ⟨rfl, rfl⟩ | ⟨rfl, rfl⟩ <;> cases hi <;> exact ⟨_, rfl, rfl⟩

theorem simulates_logic (op : LogicOp) : Simulates setup t Same (BinaryOp.logic op).meaning
    (Machine.execute BuiltinTable.standard (.logic op)) := by
  refine simulates_pop.bind fun b v hb => simulates_pop.bind fun a u ha => ?_
  have hfail : ∀ left right, (Trap.badLogic op.opcode left right).fault? t.registers =
      some (.badLogic op left right) := by
    intro left right
    cases op <;> rfl
  cases ha with
  | bool x =>
    cases hb with
    | bool y => exact simulates_push (.bool _)
    | int y => exact .fail (hfail ..)
    | text _ => exact .fail (hfail ..)
  | int x =>
    cases hb with
    | int y => exact simulates_push (.int _)
    | bool y => exact .fail (hfail ..)
    | text _ => exact .fail (hfail ..)
  | text _ => cases hb <;> exact .fail (hfail ..)

/-- **An operator between two operands does what its meaning says.** -/
theorem simulates_binary (op : BinaryOp) :
    Simulates setup t Same op.meaning (Machine.execute BuiltinTable.standard op.instr) := by
  cases op with
  | arith op =>
    refine simulates_popInt.bind fun b b' hb => simulates_popInt.bind fun a a' ha => ?_
    subst hb ha
    cases op.eval? a b with
    | some n => exact simulates_push (.int _)
    | none => exact .fail rfl
  | order op =>
    refine simulates_popInt.bind fun b b' hb => simulates_popInt.bind fun a a' ha => ?_
    subst hb ha
    exact simulates_push (.bool _)
  | equality negated =>
    refine simulates_pop.bind fun b v hb => simulates_pop.bind fun a u ha => ?_
    rw [ha.tag_eq, hb.tag_eq, decide_eq_decide.2 (ha.eq_iff hb)]
    by_cases htag : u.tag = v.tag
    · rw [if_pos htag, if_pos htag]
      exact simulates_push (.bool _)
    · rw [if_neg htag, if_neg htag]
      exact .fail rfl
  | logic op => exact simulates_logic op

/-- **An operator in front of its operand does what its meaning says.** -/
theorem simulates_unary (op : UnaryOp) :
    Simulates setup t Same op.meaning (Machine.execute BuiltinTable.standard op.instr) := by
  cases op with
  | not =>
    refine simulates_pop.bind fun d v h => ?_
    cases h with
    | bool b => exact simulates_push (.bool _)
    | int n => exact simulates_push (.int _)
    | text _ => exact .fail rfl
  | neg =>
    refine simulates_popInt.bind fun a a' ha => ?_
    subst ha
    exact simulates_push (.int _)

/-- **A built-in does what its meaning says**, unless it shows the machine. -/
theorem simulates_builtin (hconstants : setup.image.constants = t.constants) {b : Builtin}
    (h : b ≠ .debug) : Simulates setup t Same b.meaning
      (Machine.execute BuiltinTable.standard (.callBuiltin (UInt8.ofNat b.id))) := by
  have hperform : Machine.execute BuiltinTable.standard (.callBuiltin (UInt8.ofNat b.id)) =
      b.perform := by
    cases b <;> rfl
  rw [hperform]
  cases b with
  | debug => exact absurd rfl h
  | printInt =>
    refine simulates_popInt.bind fun n n' hn => ?_
    subst hn
    exact simulates_write _
  | printBool =>
    refine simulates_popBool.bind fun b b' hb => ?_
    subst hb
    exact simulates_write _
  | printStr =>
    refine simulates_popText.bind fun s i hs => ?_
    have hboth : Simulates setup t Same (pure s >>= fun s => Meaning.write (s ++ "\n"))
        (do let text ← constant i; write (text ++ "\n")) := by
      refine (simulates_constant hconstants hs).bind fun x y hxy => ?_
      obtain ⟨rfl, rfl⟩ := hxy
      exact simulates_write _
    rw [pure_bind] at hboth
    exact hboth

end

end Octet
