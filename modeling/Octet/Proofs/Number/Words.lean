import Mathlib.Data.Int.Bitwise
import Octet.Number.Word32

/-!
# Words as bit vectors

A word is kept as an integer, and an operation on words is carried out on integers without a bound
and reduced afterwards.  This file compares that with the arithmetic of bit vectors, which never
leaves its 32 bits: to reduce an integer is to read back the bit vector that it spells (`wrap_eq`),
and since spelling respects sums, products and opposites, so does reducing.

Three operations need more than that.

* The quotient without its fraction is no ring operation.  It is as great as the dividend at most,
  so it is a word again, except for the least word divided by `-1` (`wrap_quotient`).
* The remainder takes the sign of the dividend and is smaller than the divisor, so it is always a
  word (`wrap_remainder`).
* Both bits of two integers, or either of them, mean the same in two's complement of any width
  (`and_eq_land`, `or_eq_lor`).
-/

namespace Octet
namespace Word32

/-! ## Reducing -/

theorem wrap_eq (n : Int) : wrap n = (BitVec.ofInt 32 n).toInt := by
  have hsize : size = 2 ^ 32 := rfl
  rw [wrap, hsize, BitVec.toInt_ofInt]

section

variable {a b : Int}

theorem toInt_ofInt (ha : least ≤ a ∧ a ≤ greatest) : (BitVec.ofInt 32 a).toInt = a := by
  rw [← wrap_eq, wrap_of_mem ha.1 ha.2]

theorem wrap_toInt (x : BitVec 32) : wrap x.toInt = x.toInt := by
  rw [wrap_eq, BitVec.ofInt_toInt]

theorem wrap_add (a b : Int) : wrap (a + b) = (BitVec.ofInt 32 a + BitVec.ofInt 32 b).toInt := by
  rw [wrap_eq, BitVec.ofInt_add]

theorem wrap_neg (a : Int) : wrap (-a) = (-BitVec.ofInt 32 a).toInt := by
  rw [wrap_eq, BitVec.ofInt_neg]

theorem wrap_sub (a b : Int) : wrap (a - b) = (BitVec.ofInt 32 a - BitVec.ofInt 32 b).toInt := by
  rw [Int.sub_eq_add_neg, wrap_add, BitVec.ofInt_neg, BitVec.sub_eq_add_neg]

theorem wrap_mul (a b : Int) : wrap (a * b) = (BitVec.ofInt 32 a * BitVec.ofInt 32 b).toInt := by
  rw [wrap_eq, BitVec.ofInt_mul]

theorem wrap_complement (a : Int) : wrap (complement a) = (~~~BitVec.ofInt 32 a).toInt := by
  rw [complement, wrap_sub, BitVec.ofInt_neg, BitVec.not_eq_neg_add]
  rfl

/-- Words that spell the same bits are the same. -/
theorem ofInt_inj (ha : least ≤ a ∧ a ≤ greatest) (hb : least ≤ b ∧ b ≤ greatest) :
    BitVec.ofInt 32 a = BitVec.ofInt 32 b ↔ a = b := by
  rw [← BitVec.toInt_inj, toInt_ofInt ha, toInt_ofInt hb]

/-! ## Dividing -/

theorem wrap_tdiv (ha : least ≤ a ∧ a ≤ greatest) (hb : least ≤ b ∧ b ≤ greatest) :
    wrap (a.tdiv b) = ((BitVec.ofInt 32 a).sdiv (BitVec.ofInt 32 b)).toInt := by
  rw [BitVec.toInt_sdiv, toInt_ofInt ha, toInt_ofInt hb]
  rfl

theorem wrap_tmod (ha : least ≤ a ∧ a ≤ greatest) (hb : least ≤ b ∧ b ≤ greatest) :
    wrap (a.tmod b) = ((BitVec.ofInt 32 a).srem (BitVec.ofInt 32 b)).toInt := by
  have hrem : ((BitVec.ofInt 32 a).srem (BitVec.ofInt 32 b)).toInt = a.tmod b := by
    rw [BitVec.toInt_srem, toInt_ofInt ha, toInt_ofInt hb]
  rw [← hrem, wrap_toInt]

/-- The remainder is smaller than the divisor and has the sign of the dividend. -/
theorem remainder_bounds (a : Int) (hzero : b ≠ 0) :
    (a.tmod b).natAbs < b.natAbs ∧ (a.tmod b = 0 ∨ (a.tmod b).sign = a.sign) := by
  have hlt : (a.tmod b).natAbs < b.natAbs := by
    rw [Int.natAbs_tmod]
    exact Nat.mod_lt _ (Int.natAbs_pos.2 hzero)
  refine ⟨hlt, ?_⟩
  by_cases hrest : a.tmod b = 0
  · exact .inl hrest
  have ha : a ≠ 0 := by
    rintro rfl
    exact hrest (Int.zero_tmod b)
  right
  rcases Int.le_total 0 a with hpos | hneg
  · have hrem := Int.tmod_nonneg b hpos
    rw [Int.sign_eq_one_of_pos (by omega), Int.sign_eq_one_of_pos (by omega)]
  · have hrem := Int.tmod_nonneg b (Int.neg_nonneg_of_nonpos hneg)
    rw [Int.neg_tmod] at hrem
    rw [Int.sign_eq_neg_one_of_neg (by omega), Int.sign_eq_neg_one_of_neg (by omega)]

/-- The remainder of words is a word. -/
theorem wrap_remainder (a : Int) (hb : least ≤ b ∧ b ≤ greatest) (hzero : b ≠ 0) :
    wrap (a.tmod b) = a.tmod b := by
  have hlt := (remainder_bounds a hzero).1
  rw [least, greatest] at hb
  refine wrap_of_mem ?_ ?_
  · rw [least]
    omega
  · rw [greatest]
    omega

/-- **The quotient of words is a word**, except for the least word divided by `-1`. -/
theorem wrap_quotient (ha : least ≤ a ∧ a ≤ greatest) (hzero : b ≠ 0) :
    wrap (a.tdiv b) = a.tdiv b ↔ ¬ (a = least ∧ b = -1) := by
  refine ⟨?_, fun hother => ?_⟩
  · rintro hwrap ⟨rfl, rfl⟩
    revert hwrap
    decide
  have hle := Int.natAbs_tdiv_le_natAbs a b
  have hdiv := Int.mul_tdiv_add_tmod a b
  have hlt := (remainder_bounds a hzero).1
  rw [least] at ha hother
  rw [greatest] at ha
  -- were it no word, it would be as great as the least word, and the divisor `-1`
  have hword : a.tdiv b ≠ 2147483648 := by
    intro hgreat
    rw [hgreat] at hdiv
    omega
  refine wrap_of_mem ?_ ?_
  · rw [least]
    omega
  · rw [greatest]
    omega

end

/-! ## Bits -/

theorem getLsbD_ofInt (n : Int) (w i : Nat) :
    (BitVec.ofInt w n).getLsbD i = (decide (i < w) && n.testBit i) := by
  cases n with
  | ofNat m =>
    rw [Int.ofNat_eq_natCast, BitVec.ofInt_natCast, BitVec.getLsbD_ofNat]
    rfl
  | negSucc m =>
    rw [BitVec.ofInt_negSucc_eq_not_ofNat, BitVec.getLsbD_not, BitVec.getLsbD_ofNat, Int.testBit]
    by_cases hi : i < w <;> simp [hi]

theorem ofInt_land (a b : Int) (w : Nat) :
    BitVec.ofInt w (a.land b) = BitVec.ofInt w a &&& BitVec.ofInt w b := by
  refine BitVec.eq_of_getLsbD_eq fun i hi => ?_
  rw [BitVec.getLsbD_and, getLsbD_ofInt, getLsbD_ofInt, getLsbD_ofInt, Int.testBit_land]
  simp [hi]

theorem ofInt_lor (a b : Int) (w : Nat) :
    BitVec.ofInt w (a.lor b) = BitVec.ofInt w a ||| BitVec.ofInt w b := by
  refine BitVec.eq_of_getLsbD_eq fun i hi => ?_
  rw [BitVec.getLsbD_or, getLsbD_ofInt, getLsbD_ofInt, getLsbD_ofInt, Int.testBit_lor]
  simp [hi]

/-- The bits of a word beyond its width repeat its sign. -/
theorem mem_iff_testBit (a : Int) :
    (least ≤ a ∧ a ≤ greatest) ↔ ∀ i, 31 ≤ i → a.testBit i = decide (a < 0) := by
  have hnat : ∀ m : Nat, m < 2 ^ 31 ↔ ∀ i, 31 ≤ i → m.testBit i = false := fun m =>
    ⟨fun hm i hi => Nat.testBit_lt_two_pow (Nat.lt_of_lt_of_le hm (Nat.pow_le_pow_right (by decide) hi)),
      fun hbits => Nat.lt_pow_two_of_testBit m hbits⟩
  cases a with
  | ofNat m =>
    have hm : (least ≤ Int.ofNat m ∧ Int.ofNat m ≤ greatest) ↔ m < 2 ^ 31 := by
      simp only [least, greatest, Int.ofNat_eq_natCast]
      omega
    have hsign : ¬ (m : Int) < 0 := by omega
    rw [hm, hnat m]
    simp [Int.testBit, hsign]
  | negSucc m =>
    have hm : (least ≤ Int.negSucc m ∧ Int.negSucc m ≤ greatest) ↔ m < 2 ^ 31 := by
      simp only [least, greatest]
      omega
    rw [hm, hnat m]
    simp [Int.testBit]

theorem land_neg_iff (a b : Int) : a.land b < 0 ↔ a < 0 ∧ b < 0 := by
  have hnat (n : Nat) : ¬ (n : Int) < 0 := by omega
  cases a <;> cases b <;> simp [Int.land, hnat]

theorem lor_neg_iff (a b : Int) : a.lor b < 0 ↔ a < 0 ∨ b < 0 := by
  have hnat (n : Nat) : ¬ (n : Int) < 0 := by omega
  cases a <;> cases b <;> simp [Int.lor, hnat]

/-- **Both bits of two words are those of the integers**, in two's complement without end. -/
theorem and_eq_land {a b : Int} (ha : least ≤ a ∧ a ≤ greatest) (hb : least ≤ b ∧ b ≤ greatest) :
    and a b = a.land b := by
  have hword : least ≤ a.land b ∧ a.land b ≤ greatest := by
    refine (mem_iff_testBit _).2 fun i hi => ?_
    rw [Int.testBit_land, (mem_iff_testBit a).1 ha i hi, (mem_iff_testBit b).1 hb i hi]
    simp [land_neg_iff]
  rw [and, ← ofInt_land, toInt_ofInt hword]

/-- **Either bit of two words is that of the integers**, in two's complement without end. -/
theorem or_eq_lor {a b : Int} (ha : least ≤ a ∧ a ≤ greatest) (hb : least ≤ b ∧ b ≤ greatest) :
    or a b = a.lor b := by
  have hword : least ≤ a.lor b ∧ a.lor b ≤ greatest := by
    refine (mem_iff_testBit _).2 fun i hi => ?_
    rw [Int.testBit_lor, (mem_iff_testBit a).1 ha i hi, (mem_iff_testBit b).1 hb i hi]
    simp [lor_neg_iff]
  rw [or, ← ofInt_lor, toInt_ofInt hword]

end Word32
end Octet
