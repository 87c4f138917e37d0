import Octet.Proofs.Machine.Ensures
import Octet.Proofs.Number.Words

/-!
# Integers are computed with as words

The machine computes with integers that have no bound and wraps what comes out.  A machine word has
no room for anything in between, so what an instruction *ought* to do is a matter of bit vectors,
and `Opcode.onWords?` and `Opcode.onWord?` say it in a table: one row for each opcode, with the
operation on signed vectors of 32 bits that has its name.

`execute_words` is the agreement of the two for all operands, the least word and its opposite among
them.  Apart from the table it says what the unbounded computation comes to before it is wrapped:
that the quotient and the remainder are those of division towards zero, of which one pair of
operands gives no words, and that bits are combined as in two's complement without end.
-/

namespace Octet

/-- A bit vector as a value of the machine. -/
def Value.ofWord (x : BitVec 32) : Value :=
  .i32 x.toInt

theorem Value.ofInt_eq {n : Int} {x : BitVec 32} (h : Word32.wrap n = x.toInt) :
    Value.ofInt n = .ofWord x :=
  congrArg Value.i32 h

/-- What an opcode makes of two words, the upper operand being the second one. -/
def Opcode.onWords? (x y : BitVec 32) : Opcode → Option Value
  | .add => some (.ofWord (x + y))
  | .sub => some (.ofWord (x - y))
  | .mul => some (.ofWord (x * y))
  | .div => if y = 0 then none else some (.ofWord (x.sdiv y))
  | .mod => if y = 0 then none else some (.ofWord (x.srem y))
  | .and => some (.ofWord (x &&& y))
  | .or => some (.ofWord (x ||| y))
  | .lt => some (.bool (x.slt y))
  | .gt => some (.bool (y.slt x))
  | .le => some (.bool (x.sle y))
  | .ge => some (.bool (y.sle x))
  | .eq => some (.bool (x == y))
  | .ne => some (.bool (x != y))
  | _ => none

/-- What an opcode makes of one word. -/
def Opcode.onWord? (x : BitVec 32) : Opcode → Option Value
  | .neg => some (.ofWord (-x))
  | .not => some (.ofWord (~~~x))
  | _ => none

/-- What an instruction computes from two integers. -/
def Instr.value? (a b : Int) : Instr → Option Value
  | .arith op => (op.eval? a b).map .ofInt
  | .order op => some (.bool (op.eval a b))
  | .equality negated => some (.bool (decide (a = b) != negated))
  | .logic op => some (.ofInt (op.evalInt a b))
  | _ => none

section

variable {a b : Int} {v : Value}

/-- **What is computed from two words is what the table says.** -/
theorem value_of_onWords (ha : Word32.least ≤ a ∧ a ≤ Word32.greatest)
    (hb : Word32.least ≤ b ∧ b ≤ Word32.greatest) {op : Opcode}
    (hv : op.onWords? (BitVec.ofInt 32 a) (BitVec.ofInt 32 b) = some v) :
    ∃ i, op.instr? [] = some i ∧ i.value? a b = some v := by
  have hleft := Word32.toInt_ofInt ha
  have hright := Word32.toInt_ofInt hb
  have hzero : BitVec.ofInt 32 b = 0 ↔ b = 0 := by
    have hinj := Word32.ofInt_inj (b := 0) hb (by decide)
    simpa using hinj
  have hequal := Word32.ofInt_inj ha hb
  cases op with
  | add =>
    cases hv
    exact ⟨.arith .add, rfl, congrArg some (Value.ofInt_eq (Word32.wrap_add a b))⟩
  | sub =>
    cases hv
    exact ⟨.arith .sub, rfl, congrArg some (Value.ofInt_eq (Word32.wrap_sub a b))⟩
  | mul =>
    cases hv
    exact ⟨.arith .mul, rfl, congrArg some (Value.ofInt_eq (Word32.wrap_mul a b))⟩
  | div =>
    simp only [Opcode.onWords?, hzero] at hv
    split at hv
    · cases hv
    · rename_i hb0
      cases hv
      refine ⟨.arith .div, rfl, ?_⟩
      simp only [Instr.value?, ArithOp.eval?, Word32.quotient?, if_neg hb0, Option.map_some]
      exact congrArg some (Value.ofInt_eq (Word32.wrap_tdiv ha hb))
  | mod =>
    simp only [Opcode.onWords?, hzero] at hv
    split at hv
    · cases hv
    · rename_i hb0
      cases hv
      refine ⟨.arith .mod, rfl, ?_⟩
      simp only [Instr.value?, ArithOp.eval?, Word32.quotient?, if_neg hb0, Option.map_some,
        ← Int.tmod_def]
      exact congrArg some (Value.ofInt_eq (Word32.wrap_tmod ha hb))
  | and | or =>
    cases hv
    exact ⟨.logic _, rfl, congrArg some (Value.ofInt_eq (Word32.wrap_toInt _))⟩
  | lt | gt | le | ge =>
    cases hv
    refine ⟨.order _, rfl, ?_⟩
    simp [Instr.value?, OrderOp.eval, BitVec.slt_eq_decide, BitVec.sle_eq_decide, hleft, hright]
  | eq | ne =>
    cases hv
    refine ⟨.equality _, rfl, ?_⟩
    simp [Instr.value?, ← hequal, beq_eq_decide, bne]
  | _ => cases hv

end

namespace Machine

open Effect

variable {builtins : BuiltinTable} {setup : Setup} {s : State} {rest : List Value}

/-! ## Operands -/

theorem perform_popInt {n : Int} (h : s.stack = .i32 n :: rest) :
    popInt.perform setup s = (.ok n, { s with stack := rest }) := by
  rw [popInt, perform_bind, perform_pop, h]
  rfl

/-- Two integers taken off the stack, the upper one first. -/
theorem perform_popInts {α : Type} {a b : Int} (f : Int → Int → Effect α)
    (h : s.stack = .i32 b :: .i32 a :: rest) :
    (do let b ← popInt; let a ← popInt; f a b : Effect α).perform setup s =
      (f a b).perform setup { s with stack := rest } := by
  rw [perform_bind, perform_popInt h]
  show (popInt >>= fun n => f n b).perform setup { s with stack := .i32 a :: rest } = _
  rw [perform_bind, perform_popInt rfl]

/-- Two values taken off the stack, the upper one first. -/
theorem perform_pops {α : Type} {u v : Value} (f : Value → Value → Effect α)
    (h : s.stack = v :: u :: rest) :
    (do let b ← pop; let a ← pop; f a b : Effect α).perform setup s =
      (f u v).perform setup { s with stack := rest } := by
  rw [perform_bind, perform_pop, h]
  show (pop >>= fun w => f w v).perform setup { s with stack := u :: rest } = _
  rw [perform_bind, perform_pop]

/-- An instruction with two operands pushes its value in their place. -/
theorem execute_value {a b : Int} {i : Instr} {v : Value}
    (hstack : s.stack = .i32 b :: .i32 a :: rest) (hv : i.value? a b = some v) :
    (execute builtins i).perform setup s = (push v).perform setup { s with stack := rest } := by
  cases i with
  | arith op =>
    obtain ⟨n, hn, rfl⟩ := Option.map_eq_some_iff.1 hv
    refine (perform_popInts _ hstack).trans ?_
    simp only [hn]
  | order op =>
    cases hv
    exact perform_popInts _ hstack
  | equality negated =>
    cases hv
    refine (perform_pops _ hstack).trans ?_
    simp [Value.tag]
  | logic op =>
    cases hv
    exact perform_pops _ hstack
  | _ => cases hv

/-- An instruction with one operand pushes its value in its place. -/
theorem execute_onWord {a : Int} {op : Opcode} {v : Value} (hstack : s.stack = .i32 a :: rest)
    (hv : op.onWord? (BitVec.ofInt 32 a) = some v) :
    ∃ i, op.instr? [] = some i ∧
      (execute builtins i).perform setup s = (push v).perform setup { s with stack := rest } := by
  cases op with
  | neg =>
    cases hv
    refine ⟨.neg, rfl, ?_⟩
    rw [execute, perform_bind, perform_popInt hstack, ← Value.ofInt_eq (Word32.wrap_neg a)]
  | not =>
    cases hv
    refine ⟨.not, rfl, ?_⟩
    rw [execute, perform_bind, perform_pop, hstack, ← Value.ofInt_eq (Word32.wrap_complement a)]
  | _ => cases hv

/-- An instruction pushes a value in the place of its operands, and there is room for it if the
stack was no higher than it may be. -/
def Replaces (builtins : BuiltinTable) (setup : Setup) (i : Instr) (s : State) (rest : List Value)
    (v : Value) : Prop :=
  (execute builtins i).perform setup s = (push v).perform setup { s with stack := rest } ∧
    ((s.stack.length : Int) ≤ max 0 setup.maxStack →
      (execute builtins i).perform setup s = (.ok (), { s with stack := v :: rest }))

theorem replaces_of_perform {i : Instr} {v : Value} (hlength : rest.length < s.stack.length)
    (h : (execute builtins i).perform setup s =
      (push v).perform setup { s with stack := rest }) : Replaces builtins setup i s rest v := by
  refine ⟨h, fun hheight => ?_⟩
  rw [h, perform_push_of_room]
  show ¬ setup.maxStack ≤ rest.length
  omega

/-- **The machine computes with words.**  Take two words on top of the stack, or one of them, and
whatever else the state and the built-ins may be.  An opcode of the table performs the operation
on bit vectors that the table has for it: nothing of the state changes but the operands, which give
way to the result.

What division computes before it wraps is an exact quotient and an exact remainder, towards zero:
the remainder is smaller than the divisor and has the sign of the dividend.  It is a word, and so is
the quotient unless the least word is divided by `-1`.  What logic computes are the bits of the
integers. -/
theorem execute_words {a b : Int} (ha : Word32.least ≤ a ∧ a ≤ Word32.greatest)
    (hb : Word32.least ≤ b ∧ b ≤ Word32.greatest) (builtins : BuiltinTable) (setup : Setup)
    (s : State) (rest : List Value) :
    (s.stack = .i32 b :: .i32 a :: rest → ∀ op v,
      Opcode.onWords? (BitVec.ofInt 32 a) (BitVec.ofInt 32 b) op = some v →
      ∃ i, op.instr? [] = some i ∧ Replaces builtins setup i s rest v) ∧
    (s.stack = .i32 a :: rest → ∀ op v, Opcode.onWord? (BitVec.ofInt 32 a) op = some v →
      ∃ i, op.instr? [] = some i ∧ Replaces builtins setup i s rest v) ∧
    (b ≠ 0 → ∃ q r, ArithOp.div.eval? a b = some q ∧ ArithOp.mod.eval? a b = some r ∧
      a = b * q + r ∧ r.natAbs < b.natAbs ∧ (r = 0 ∨ r.sign = a.sign) ∧
      (Word32.wrap q ≠ q ↔ a = Word32.least ∧ b = -1) ∧ Word32.wrap r = r) ∧
    LogicOp.and.evalInt a b = a.land b ∧ LogicOp.or.evalInt a b = a.lor b := by
  refine ⟨fun hstack op v hv => ?_, fun hstack op v hv => ?_, fun hzero => ?_,
    Word32.and_eq_land ha hb, Word32.or_eq_lor ha hb⟩
  · obtain ⟨i, hi, hvalue⟩ := value_of_onWords ha hb hv
    refine ⟨i, hi, replaces_of_perform ?_ (execute_value hstack hvalue)⟩
    rw [hstack, List.length_cons, List.length_cons]
    omega
  · obtain ⟨i, hi, hperform⟩ := execute_onWord hstack hv
    refine ⟨i, hi, replaces_of_perform ?_ hperform⟩
    simp [hstack]
  · have hrem : a - b * a.tdiv b = a.tmod b := (Int.tmod_def a b).symm
    obtain ⟨hlt, hsign⟩ := Word32.remainder_bounds a hzero
    refine ⟨a.tdiv b, a.tmod b, ?_, ?_, (Int.mul_tdiv_add_tmod a b).symm, hlt, hsign,
      (not_congr (Word32.wrap_quotient ha hzero)).trans Classical.not_not,
      Word32.wrap_remainder a hb hzero⟩
    · rw [ArithOp.eval?, Word32.quotient?, if_neg hzero]
    · rw [ArithOp.eval?, Word32.quotient?, if_neg hzero, Option.map_some, hrem]

/-- A state with `2` and `-7` on the stack, over a truth value. -/
def operandState : State where
  stack := [.i32 2, .i32 (-7), .bool true]

theorem execute_words_division :
    (execute BuiltinTable.standard (.arith .div)).perform ⟨⟨[], []⟩, 3⟩ operandState =
      (.ok (), { operandState with stack := [.i32 (-3), .bool true] }) ∧
    (execute BuiltinTable.standard (.arith .mod)).perform ⟨⟨[], []⟩, 3⟩ operandState =
      (.ok (), { operandState with stack := [.i32 (-1), .bool true] }) := by
  obtain ⟨htwo, -, -, -⟩ := execute_words (a := -7) (b := 2) (by decide) (by decide)
    BuiltinTable.standard ⟨⟨[], []⟩, 3⟩ operandState [.bool true]
  refine ⟨?_, ?_⟩
  · obtain ⟨i, hi, -, hroom⟩ := htwo rfl .div (.i32 (-3)) (by decide)
    cases hi
    exact hroom (by decide)
  · obtain ⟨i, hi, -, hroom⟩ := htwo rfl .mod (.i32 (-1)) (by decide)
    cases hi
    exact hroom (by decide)

end Machine
end Octet
