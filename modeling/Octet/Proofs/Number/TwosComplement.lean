import Mathlib.Algebra.Group.Int.Defs
import Mathlib.Algebra.Group.Nat.Defs
import Octet.Number.Word32

/-!
# Integers in two's complement

An integer in two's complement has infinitely many bytes; from some point on they all repeat its
sign.  `lowBytes` cuts off the lowest of them, and reading and cutting undo each other as far as they
can, at any width:

* reading the lowest bytes of an integer reduces it (`decode_lowBytes`);
* the lowest bytes of what was read are the bytes that were read (`lowBytes_decode`).

So bytes of one width stand for the integers with that many bits (`decode_bounds`), each for one of
them.  Words are the case of four bytes: `bytes` are the four lowest (`bytes_eq_lowBytes`), and
`encode?` writes exactly the integers that four bytes stand for (`encode?_eq_some_iff`).

Everything goes through `unsigned`, the number that the bytes spell in base 256: bytes of one width
that spell the same number are the same (`unsigned_inj`), and the lowest bytes of an integer spell
its remainder (`unsigned_lowBytes`).
-/

namespace Octet
namespace Word32

/-! ## Bytes as digits -/

theorem foldl_unsigned (bytes : List UInt8) (acc : Nat) :
    bytes.foldl (fun acc b => acc * 256 + b.toNat) acc =
      acc * 256 ^ bytes.length + unsigned bytes := by
  induction bytes generalizing acc with
  | nil => simp [unsigned]
  | cons b rest ih =>
    rw [unsigned, List.foldl_cons, List.foldl_cons, ih, ih (0 * 256 + b.toNat), List.length_cons,
      Nat.pow_succ', Nat.zero_mul, Nat.zero_add, Nat.add_mul, Nat.mul_assoc, Nat.add_assoc]

@[simp] theorem unsigned_nil : unsigned [] = 0 := rfl

@[simp] theorem unsigned_cons (b : UInt8) (rest : List UInt8) :
    unsigned (b :: rest) = b.toNat * 256 ^ rest.length + unsigned rest := by
  rw [unsigned, List.foldl_cons, foldl_unsigned, Nat.zero_mul, Nat.zero_add]

theorem unsigned_lt (bytes : List UInt8) : unsigned bytes < 256 ^ bytes.length := by
  induction bytes with
  | nil => exact Nat.one_pos
  | cons b rest ih =>
    have hb : b.toNat + 1 ≤ 256 := b.toNat_lt
    calc unsigned (b :: rest) = b.toNat * 256 ^ rest.length + unsigned rest := unsigned_cons b rest
      _ < b.toNat * 256 ^ rest.length + 256 ^ rest.length := Nat.add_lt_add_left ih _
      _ = (b.toNat + 1) * 256 ^ rest.length := (Nat.succ_mul _ _).symm
      _ ≤ 256 * 256 ^ rest.length := Nat.mul_le_mul_right _ hb
      _ = 256 ^ (rest.length + 1) := Nat.pow_succ'.symm

/-- Bytes of one width spell different numbers. -/
theorem unsigned_inj {a b : List UInt8} (hlength : a.length = b.length)
    (h : unsigned a = unsigned b) : a = b := by
  induction a generalizing b with
  | nil => exact (List.length_eq_zero_iff.1 hlength.symm).symm
  | cons x a ih =>
    cases b with
    | nil => cases hlength
    | cons y b =>
      have hrest : a.length = b.length := Nat.succ.inj hlength
      have ha := unsigned_lt a
      have hb := unsigned_lt b
      rw [unsigned_cons, unsigned_cons, ← hrest] at h
      rw [← hrest] at hb
      have hpos : 0 < 256 ^ a.length := Nat.lt_of_le_of_lt (Nat.zero_le _) ha
      have hx : x.toNat = y.toNat := by
        have hquotient := congrArg (· / 256 ^ a.length) h
        simpa only [Nat.mul_comm _ (256 ^ a.length), Nat.mul_add_div hpos, Nat.div_eq_of_lt ha,
          Nat.div_eq_of_lt hb, Nat.add_zero] using hquotient
      rw [hx] at h
      rw [UInt8.toNat_inj.1 hx, ih hrest (Nat.add_left_cancel h)]

/-! ## The lowest bytes of an integer -/

/-- The `i`-th byte of an integer in two's complement, counted from the least significant. -/
def byteOf (n : Int) (i : Nat) : UInt8 :=
  UInt8.ofInt (n >>> (8 * i))

/-- The `k` lowest bytes of an integer in two's complement, the most significant first. -/
def lowBytes (n : Int) : Nat → List UInt8
  | 0 => []
  | k + 1 => byteOf n k :: lowBytes n k

@[simp] theorem length_lowBytes (n : Int) (k : Nat) : (lowBytes n k).length = k := by
  induction k with
  | zero => rfl
  | succ k ih => rw [lowBytes, List.length_cons, ih]

theorem toNat_byteOf (n : Int) (i : Nat) : ((byteOf n i).toNat : Int) = n / 256 ^ i % 256 := by
  have hpow : ((2 ^ (8 * i) : Nat) : Int) = 256 ^ i := by
    rw [Nat.pow_mul]
    exact Int.natCast_pow _ _
  rw [byteOf, Int.shiftRight_eq_div_pow, hpow, UInt8.ofInt, UInt8.toNat_ofNat']
  omega

/-- A remainder in base 256, its first digit apart. -/
theorem emod_pow_succ (n : Int) (k : Nat) :
    n % 256 ^ (k + 1) = n / 256 ^ k % 256 * 256 ^ k + n % 256 ^ k := by
  have hpos : (0 : Int) ≤ 256 ^ k := Int.pow_nonneg (by decide)
  have hquotient : n / (256 ^ k * 256) = n / 256 ^ k / 256 := (Int.ediv_ediv_of_nonneg hpos).symm
  rw [Int.pow_succ, Int.emod_def n (256 ^ k * 256), hquotient, Int.emod_def n (256 ^ k),
    Int.emod_def (n / 256 ^ k) 256]
  grind

theorem unsigned_lowBytes (n : Int) (k : Nat) :
    (unsigned (lowBytes n k) : Int) = n % 256 ^ k := by
  induction k with
  | zero => simp [lowBytes]
  | succ k ih =>
    rw [lowBytes, unsigned_cons, length_lowBytes, emod_pow_succ, ← toNat_byteOf, ← ih,
      Int.natCast_add, Int.natCast_mul, Int.natCast_pow]
    rfl

/-! ## Reading -/

theorem natCast_pow_length (bytes : List UInt8) :
    ((Nat.pow 256 bytes.length : Nat) : Int) = 256 ^ bytes.length :=
  Int.natCast_pow 256 bytes.length

/-- **Reading the lowest bytes of an integer reduces it.** -/
theorem decode_lowBytes (n : Int) (k : Nat) : decode (lowBytes n k) = n.bmod (256 ^ k) := by
  have hpow : Nat.pow 256 (lowBytes n k).length = 256 ^ k := by rw [length_lowBytes]; rfl
  have hcast : (256 : Int) ^ k = ((256 ^ k : Nat) : Int) := (Int.natCast_pow 256 k).symm
  rw [decode, hpow, unsigned_lowBytes, hcast, Int.emod_bmod]

/-- **The lowest bytes of what was read are the bytes that were read.** -/
theorem lowBytes_decode (bytes : List UInt8) : lowBytes (decode bytes) bytes.length = bytes := by
  refine unsigned_inj (length_lowBytes _ _) ?_
  have hlt : (unsigned bytes : Int) < ((Nat.pow 256 bytes.length : Nat) : Int) :=
    Int.ofNat_lt.2 (unsigned_lt bytes)
  rw [← Int.ofNat_inj, unsigned_lowBytes, ← natCast_pow_length, decode, Int.bmod_emod,
    Int.emod_eq_of_lt (Int.natCast_nonneg _) hlt]

/-- What bytes stand for has as many bits as they have, one of them for its sign. -/
theorem decode_bounds {bytes : List UInt8} (h : 1 ≤ bytes.length) :
    -2 ^ (8 * bytes.length - 1) ≤ decode bytes ∧ decode bytes < 2 ^ (8 * bytes.length - 1) := by
  have hpos : 0 < Nat.pow 256 bytes.length := Nat.pow_pos (by decide)
  have hhalf : ((Nat.pow 256 bytes.length : Nat) : Int) = 2 * 2 ^ (8 * bytes.length - 1) := by
    have hbits : 8 * bytes.length = 8 * bytes.length - 1 + 1 := by omega
    calc ((Nat.pow 256 bytes.length : Nat) : Int) = (2 ^ 8) ^ bytes.length := natCast_pow_length bytes
      _ = 2 ^ (8 * bytes.length) := Int.pow_mul.symm
      _ = 2 ^ (8 * bytes.length - 1 + 1) := by rw [← hbits]
      _ = 2 * 2 ^ (8 * bytes.length - 1) := by rw [Int.pow_succ, Int.mul_comm]
  have hlow := Int.le_bmod (x := unsigned bytes) hpos
  have hhigh := Int.bmod_lt (x := unsigned bytes) hpos
  rw [hhalf] at hlow hhigh
  rw [decode]
  omega

/-! ## Words -/

theorem toNat_byteAt (n i : Nat) : (byteAt n i).toNat = n / Nat.pow 256 i % 256 := by
  rw [byteAt, UInt8.toNat_ofNat']

/-- Four bytes of a number below `2 ^ 32` spell that number. -/
theorem unsigned_bytes (n : Int) : (unsigned (bytes n) : Int) = n % size := by
  have hpow : Nat.pow 256 3 = 16777216 ∧ Nat.pow 256 2 = 65536 ∧ Nat.pow 256 1 = 256 ∧
      Nat.pow 256 0 = 1 := ⟨rfl, rfl, rfl, rfl⟩
  obtain ⟨h₃, h₂, h₁, h₀⟩ := hpow
  have hsize : (size : Int) = 4294967296 := rfl
  have hlt : n % 4294967296 < 4294967296 := Int.emod_lt_of_pos n (by omega)
  have hge : 0 ≤ n % 4294967296 := Int.emod_nonneg n (by omega)
  simp only [unsigned, bytes, List.foldl_cons, List.foldl_nil, toNat_byteAt, h₃, h₂, h₁, h₀, hsize]
  generalize n % 4294967296 = m at hlt hge
  omega

theorem bytes_eq_lowBytes (n : Int) : bytes n = lowBytes n 4 := by
  refine unsigned_inj rfl (Int.ofNat_inj.1 ?_)
  rw [unsigned_bytes, unsigned_lowBytes]
  rfl

/-- Reading four bytes of an integer wraps it. -/
theorem decode_bytes (n : Int) : decode (bytes n) = wrap n := by
  rw [bytes_eq_lowBytes, decode_lowBytes]
  rfl

/-- Four bytes stand for a word. -/
theorem decode_mem {b : List UInt8} (h : b.length = 4) :
    least ≤ decode b ∧ decode b ≤ greatest := by
  rw [decode, h]
  exact wrap_mem _

theorem isSome_encode? (n : Int) : (encode? n).isSome ↔ least ≤ n ∧ n ≤ greatest := by
  simp [encode?]

/-- **Writing and reading a word undo each other**: what is written are four bytes that stand for
the integer, and if there are such bytes then they are written. -/
theorem encode?_eq_some_iff {n : Int} {b : List UInt8} :
    encode? n = some b ↔ b.length = 4 ∧ decode b = n := by
  constructor
  · intro h
    obtain ⟨hword, rfl⟩ := eq_bytes_of_encode? h
    exact ⟨length_bytes n, (decode_bytes n).trans (wrap_of_mem hword.1 hword.2)⟩
  · rintro ⟨hlength, rfl⟩
    have hback := lowBytes_decode b
    rw [hlength] at hback
    rw [encode?, if_pos (decode_mem hlength), bytes_eq_lowBytes, hback]

end Word32
end Octet
