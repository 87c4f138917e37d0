import Octet.Proofs.Layout.Targets
import Octet.Proofs.Machine.Heights

/-!
# What expressions are laid out as

The instructions of an expression are performed one after the other.  They jump nowhere, store
nothing and do not halt the machine, and the registers that they load are those of the variables
that the expression reads: `Straight` is all of this, and `Expr.straight` the fact.  What the parts
of a program do that is worth a proof, they do between their expressions.
-/

namespace Octet

mutual

/-- The variables that an expression reads. -/
def Expr.reads : Expr → List String
  | .literal .. | .misplaced _ => []
  | .identifier _ name => [name]
  | .unary _ _ operand => operand.reads
  | .binary _ left _ right => left.reads ++ right.reads
  | .call _ _ args => Expr.readsList args

/-- The variables that expressions read. -/
def Expr.readsList : List Expr → List String
  | [] => []
  | e :: es => e.reads ++ Expr.readsList es

end

/-- The registers of variables. -/
def Tables.Known (t : Tables) (names : List String) (r : UInt8) : Prop :=
  ∃ name ∈ names, t.register? name = some r

theorem Tables.Known.mono {t : Tables} {names names' : List String} {r : UInt8}
    (h : t.Known names r) (hsub : names ⊆ names') : t.Known names' r := by
  obtain ⟨name, hname, hr⟩ := h
  exact ⟨name, hsub hname, hr⟩

/-- An instruction that goes on behind itself and leaves the registers alone, and reads known ones
only. -/
structure Instr.Straight (known : UInt8 → Prop) (i : Instr) : Prop where
  target : i.target? = none
  stores : i.stores = []
  goesOn : i ≠ .ret
  load : ∀ r, i = .loadRegister r → known r

/-- Instructions one after the other, which read known registers only. -/
def Straight (known : UInt8 → Prop) (is : List Instr) : Prop :=
  ∀ i ∈ is, i.Straight known

section

variable {known known' : UInt8 → Prop} {is js : List Instr}

theorem straight_nil : Straight known [] :=
  fun _ hi => absurd hi List.not_mem_nil

theorem straight_single {i : Instr} (h : i.Straight known) : Straight known [i] := by
  intro j hj
  rw [List.mem_singleton.1 hj]
  exact h

theorem Straight.append (h : Straight known is) (h' : Straight known js) :
    Straight known (is ++ js) := by
  intro i hi
  rcases List.mem_append.1 hi with hi | hi
  · exact h i hi
  · exact h' i hi

theorem Straight.mono (h : Straight known is) (hsub : ∀ r, known r → known' r) :
    Straight known' is :=
  fun i hi => { h i hi with load := fun r hr => hsub r ((h i hi).load r hr) }

theorem straight_operator {operators : List (String × Opcode)} {op : String} {i : Instr}
    (hops : ∀ entry ∈ operators, entry.2 ≠ .ret) (h : operator? operators op = some i) :
    Straight known [i] := by
  obtain ⟨opcode, hlookup, hi⟩ := Option.bind_eq_some_iff.1 h
  have hret := hops _ (mem_of_lookup hlookup)
  refine straight_single ?_
  cases opcode with
  | ret => exact absurd rfl hret
  | pushInt | pushBool | loadConstant | loadRegister | storeRegister | jumpIfFalse | jump
  | callBuiltin => cases hi
  | _ =>
    cases hi
    exact ⟨rfl, rfl, by simp, by simp⟩

theorem straight_literal {t : Tables} {value : Option Scalar} (h : literalInstrs? t value = some is) :
    Straight known is := by
  match value with
  | some (.bool b) =>
    cases h
    exact straight_single ⟨rfl, rfl, by simp, by simp⟩
  | some (.int n) =>
    rw [literalInstrs?] at h
    split at h
    · cases h
      exact straight_single ⟨rfl, rfl, by simp, by simp⟩
    · cases h
  | some (.text s) =>
    obtain ⟨i, -, rfl⟩ := Option.map_eq_some_iff.1 h
    exact straight_single ⟨rfl, rfl, by simp, by simp⟩
  | some (.real x) => cases h
  | none => cases h

theorem Straight.known_left {t : Tables} {names others : List String}
    (h : Straight (t.Known names) is) : Straight (t.Known (names ++ others)) is :=
  h.mono fun _ hr => hr.mono (List.subset_append_left names others)

theorem Straight.known_right {t : Tables} {names others : List String}
    (h : Straight (t.Known names) is) : Straight (t.Known (others ++ names)) is :=
  h.mono fun _ hr => hr.mono (List.subset_append_right others names)

mutual

/-- **An expression loads the variables that it reads**, and nothing else comes of it than a
value. -/
theorem Expr.straight {t : Tables} : ∀ (e : Expr) {is : List Instr}, e.instrs? t = some is →
    Straight (t.Known e.reads) is
  | .literal pos value, is, h => by
    rw [Expr.instrs?] at h
    exact straight_literal h
  | .identifier pos name, is, h => by
    rw [Expr.instrs?] at h
    obtain ⟨r, hr, rfl⟩ := Option.map_eq_some_iff.1 h
    refine straight_single ⟨rfl, rfl, by simp, fun q hq => ?_⟩
    cases hq
    exact ⟨name, List.mem_singleton_self name, hr⟩
  | .unary pos op operand, is, h => by
    rw [Expr.instrs?] at h
    by_cases hleast : op = "-" ∧ operand.isLeastMagnitude
    · rw [if_pos hleast] at h
      cases h
      exact straight_single ⟨rfl, rfl, by simp, by simp⟩
    · rw [if_neg hleast] at h
      obtain ⟨js, hjs, h⟩ := Option.bind_eq_some_iff.1 h
      obtain ⟨i, hi, h⟩ := Option.bind_eq_some_iff.1 h
      cases h
      exact (Expr.straight operand hjs).append (straight_operator (by decide) hi)
  | .binary pos left op right, is, h => by
    obtain ⟨js, ks, i, hjs, hks, hi, rfl⟩ := Expr.of_binary h
    exact ((Expr.straight left hjs).known_left.append (Expr.straight right hks).known_right).append
      (straight_operator (by decide) hi)
  | .call pos name args, is, h => by
    rw [Expr.instrs?] at h
    obtain ⟨builtin, -, h⟩ := Option.bind_eq_some_iff.1 h
    split at h
    · obtain ⟨js, hjs, h⟩ := Option.bind_eq_some_iff.1 h
      cases h
      exact (Expr.straightList args hjs).append (straight_single ⟨rfl, rfl, by simp, by simp⟩)
    · cases h
  | .misplaced kind, is, h => by
    rw [Expr.instrs?] at h
    cases h

theorem Expr.straightList {t : Tables} : ∀ (es : List Expr) {is : List Instr},
    Expr.instrsList? t es = some is → Straight (t.Known (Expr.readsList es)) is
  | [], is, h => by
    rw [Expr.instrsList?] at h
    cases h
    exact straight_nil
  | e :: es, is, h => by
    obtain ⟨js, ks, hjs, hks, rfl⟩ := Expr.of_cons h
    exact (Expr.straight e hjs).known_left.append (Expr.straightList es hks).known_right

end

end

end Octet
