import Mathlib.Data.Int.ModEq
import Octet.Proofs.Number.TwosComplement
import Octet.Proofs.Number.Words

/-!
# Wrapping and the bytes of a word

A literal gets into a unit as four bytes, and everything that the machine computes is wrapped.  That
the two fit together is the subject of `codec_agrees`: four bytes stand for the integers that
wrapping leaves alone, and the four lowest bytes of any other integer stand for what it is wrapped
to.

`wrap` is a balanced remainder.  It may also be computed with masks (`masked`), which keep the low 32
bits of an integer in two's complement and then take the highest of them for a sign; a negative
integer has as many bits as any other for that purpose, and its low bits are those of its remainder
(`land_allOnes`).
-/

namespace Octet
namespace Word32

/-! ## Masks -/

/-- The low 32 bits of an integer, the highest of which counts negatively. -/
def masked (n : Int) : Int :=
  let low := n.land 0xFFFFFFFF
  if low.land 0x80000000 = 0 then low else low - size

/-- The low bits of an integer are its remainder, whatever its sign. -/
theorem land_allOnes (n : Int) (w : Nat) :
    n.land ((2 ^ w - 1 : Nat) : Int) = n % ((2 ^ w : Nat) : Int) := by
  cases n with
  | ofNat m =>
    show ((m &&& (2 ^ w - 1) : Nat) : Int) = _
    rw [Nat.and_two_pow_sub_one_eq_mod]
    rfl
  | negSucc m =>
    have hlt : m % 2 ^ w < 2 ^ w := Nat.mod_lt _ (Nat.two_pow_pos w)
    -- the bits of a negative integer are those of its predecessor's opposite, turned over
    have hbits : Nat.ldiff (2 ^ w - 1) m = 2 ^ w - (m % 2 ^ w + 1) := by
      refine Nat.eq_of_testBit_eq fun i => ?_
      rw [Nat.testBit_ldiff, Nat.testBit_two_pow_sub_one, Nat.testBit_two_pow_sub_succ hlt,
        Nat.testBit_mod_two_pow]
      by_cases hi : i < w <;> simp [hi]
    show ((Nat.ldiff (2 ^ w - 1) m : Nat) : Int) = _
    rw [hbits, Int.negSucc_emod m (Int.natCast_pos.2 (Nat.two_pow_pos w))]
    omega

/-- The highest of 32 bits tells which half a number lies in. -/
theorem land_signBit {m : Nat} (h : m < size) :
    (m : Int).land 0x80000000 = 0 ↔ (m : Int) ≤ greatest := by
  have hland : (m : Int).land 0x80000000 = ((m &&& 2 ^ 31 : Nat) : Int) := rfl
  have hbit : m.testBit 31 = decide (greatest < m) := by
    rw [Nat.testBit_eq_decide_div_mod_eq, decide_eq_decide]
    simp only [size, greatest] at *
    omega
  rw [hland, Nat.and_two_pow, hbit, ← Int.not_lt]
  by_cases hgreat : greatest < m <;> simp [hgreat]

theorem wrap_eq_masked (n : Int) : wrap n = masked n := by
  have hlow : n.land 0xFFFFFFFF = n % size := land_allOnes n 32
  have hnonneg : 0 ≤ n % size := Int.emod_nonneg n (by decide)
  have hlt : n % size < size := Int.emod_lt_of_pos n (by decide)
  obtain ⟨m, hm⟩ := Int.eq_ofNat_of_zero_le hnonneg
  rw [hm] at hlt
  have hhalf : ((size : Int) + 1) / 2 = greatest + 1 := rfl
  simp only [masked, wrap, Int.bmod_def, hlow, hm, hhalf, land_signBit (Int.ofNat_lt.1 hlt),
    Int.lt_add_one_iff]

/-! ## Congruence -/

/-- Wrapping gives the one word that is congruent to an integer. -/
theorem eq_wrap_iff {m n : Int} :
    m = wrap n ↔ (least ≤ m ∧ m ≤ greatest) ∧ m ≡ n [ZMOD size] := by
  constructor
  · rintro rfl
    exact ⟨wrap_mem n, Int.bmod_emod⟩
  · rintro ⟨hmem, hcongr⟩
    rw [← wrap_of_mem hmem.1 hmem.2, wrap, wrap, ← Int.emod_bmod m, hcongr, Int.emod_bmod]

theorem ofInt_wrap (n : Int) : BitVec.ofInt 32 (wrap n) = BitVec.ofInt 32 n := by
  rw [wrap_eq, BitVec.ofInt_toInt]

/-- An operation of which the low bits are computed from those of the operands may be given wrapped
operands. -/
theorem wrap_of_bits {op : Int → Int → Int} {bits : BitVec 32 → BitVec 32 → BitVec 32}
    (h : ∀ a b, wrap (op a b) = (bits (BitVec.ofInt 32 a) (BitVec.ofInt 32 b)).toInt) (a b : Int) :
    wrap (op (wrap a) (wrap b)) = wrap (op a b) := by
  rw [h, h, ofInt_wrap, ofInt_wrap]

theorem mem_iff_two_pow (n : Int) :
    (least ≤ n ∧ n ≤ greatest) ↔ (-2 ^ 31 ≤ n ∧ n ≤ 2 ^ 31 - 1) :=
  Iff.rfl

/-- **The bytes of words and wrapping agree.**

An integer has bytes if it is a word, and only then; there are four of them, and they are read as
the integer they were written for.  Any four bytes are the bytes of what they are read as, and `k`
bytes are read as an integer that has `8 * k` bits, one of them for its sign.

What wrapping makes of an integer, by masks or as a balanced remainder, is the one word congruent to
it, and is also what the four lowest bytes of the integer in two's complement are read as.  Sums,
differences and products may be wrapped along the way or once at the end. -/
theorem codec_agrees :
    (∀ n : Int, ((encode? n).isSome ↔ -2 ^ 31 ≤ n ∧ n ≤ 2 ^ 31 - 1) ∧
      ∀ b, encode? n = some b → b.length = 4 ∧ decode b = n) ∧
    (∀ b : List UInt8, b.length = 4 → encode? (decode b) = some b) ∧
    (∀ b : List UInt8, 1 ≤ b.length →
      -2 ^ (8 * b.length - 1) ≤ decode b ∧ decode b < 2 ^ (8 * b.length - 1)) ∧
    (∀ m n : Int, m = wrap n ↔ (-2 ^ 31 ≤ m ∧ m ≤ 2 ^ 31 - 1) ∧ m ≡ n [ZMOD 2 ^ 32]) ∧
    (∀ n : Int, wrap n = masked n ∧ wrap n = decode (lowBytes n 4)) ∧
    ∀ a b : Int, wrap (wrap a + wrap b) = wrap (a + b) ∧ wrap (wrap a - wrap b) = wrap (a - b) ∧
      wrap (wrap a * wrap b) = wrap (a * b) := by
  refine ⟨fun n => ⟨?_, fun b hb => encode?_eq_some_iff.1 hb⟩,
    fun b hb => encode?_eq_some_iff.2 ⟨hb, rfl⟩, fun b hb => decode_bounds hb, fun m n => ?_,
    fun n => ⟨wrap_eq_masked n, ?_⟩,
    fun a b => ⟨wrap_of_bits wrap_add a b, wrap_of_bits wrap_sub a b, wrap_of_bits wrap_mul a b⟩⟩
  · rw [isSome_encode?, mem_iff_two_pow]
  · rw [eq_wrap_iff, mem_iff_two_pow]
    rfl
  · rw [← bytes_eq_lowBytes, decode_bytes]

theorem codec_agrees_negative :
    (encode? (-2147483648) = some [0x80, 0, 0, 0] ∧ decode [0x80, 0, 0, 0] = -2147483648) ∧
      (-2 ^ (8 * 3 - 1) ≤ decode [0x80, 0, 1] ∧ decode [0x80, 0, 1] < 2 ^ (8 * 3 - 1)) ∧
      wrap 2147483648 = -2147483648 := by
  obtain ⟨hencode, hdecode, hbounds, hwrap, -, -⟩ := codec_agrees
  have hread : decode [0x80, 0, 0, 0] = -2147483648 := by decide
  have hwritten := hdecode [0x80, 0, 0, 0] rfl
  rw [hread] at hwritten
  have hwrapped : -2147483648 = wrap 2147483648 := (hwrap _ _).2 ⟨by simp, by decide⟩
  exact ⟨⟨hwritten, ((hencode _).2 _ hwritten).2⟩, hbounds [0x80, 0, 1] (by decide), hwrapped.symm⟩

end Word32
end Octet
