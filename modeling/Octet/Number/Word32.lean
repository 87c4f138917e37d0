/-!
# Signed 32-bit words

The machine computes with signed words of 32 bits, kept as integers.  `wrap`
reduces an integer to the word congruent to it modulo `2 ^ 32`.  In the byte
stream a word is four bytes in two's complement, the most significant first:
`encode?` writes one, and refuses an integer that is no word, `decode` reads one.

`decode` takes any number of bytes, since the value of a two's complement number
does not depend on the width it is written in; no bytes at all are zero.
Division drops the fraction, so the remainder takes the sign of the dividend.
-/

namespace Octet
namespace Word32

/-- The number of words. -/
def size : Nat := 4294967296

/-- The least word. -/
def least : Int := -2147483648

/-- The greatest word. -/
def greatest : Int := 2147483647

/-- The word congruent to an integer modulo `2 ^ 32`. -/
def wrap (n : Int) : Int :=
  n.bmod size

/-- The number that bytes spell in base 256, the most significant first. -/
def unsigned (bytes : List UInt8) : Nat :=
  bytes.foldl (fun acc b => acc * 256 + b.toNat) 0

/-- The `i`-th byte of a number, counted from the least significant. -/
def byteAt (n i : Nat) : UInt8 :=
  UInt8.ofNat (n / Nat.pow 256 i)

/-- The four low bytes of an integer in two's complement, the most significant
first. -/
def bytes (n : Int) : List UInt8 :=
  let u := (n % size).toNat
  [byteAt u 3, byteAt u 2, byteAt u 1, byteAt u 0]

@[simp] theorem length_bytes (n : Int) : (bytes n).length = 4 := rfl

/-- The bytes of a word; nothing for an integer that is no word. -/
def encode? (n : Int) : Option (List UInt8) :=
  if least ≤ n ∧ n ≤ greatest then some (bytes n) else none

/-- Every word has its bytes. -/
theorem encode?_of_mem {n : Int} (h : least ≤ n ∧ n ≤ greatest) : encode? n = some (bytes n) :=
  if_pos h

/-- Bytes are written for words only. -/
theorem eq_bytes_of_encode? {n : Int} {b : List UInt8} (h : encode? n = some b) :
    (least ≤ n ∧ n ≤ greatest) ∧ b = bytes n := by
  rw [encode?] at h
  split at h
  · rename_i hword
    cases h
    exact ⟨hword, rfl⟩
  · cases h

/-- The integer that bytes spell in two's complement, the most significant
first. -/
def decode (bytes : List UInt8) : Int :=
  (unsigned bytes : Int).bmod (Nat.pow 256 bytes.length)

/-- The quotient without its fraction; nothing for a zero divisor. -/
def quotient? (a b : Int) : Option Int :=
  if b = 0 then none else some (a.tdiv b)

/-- Both bits of two words. -/
def and (a b : Int) : Int :=
  (BitVec.ofInt 32 a &&& BitVec.ofInt 32 b).toInt

/-- Either bit of two words. -/
def or (a b : Int) : Int :=
  (BitVec.ofInt 32 a ||| BitVec.ofInt 32 b).toInt

/-- Every bit of a word turned over. -/
def complement (a : Int) : Int :=
  -a - 1

/-- A wrapped integer is a word. -/
theorem wrap_mem (n : Int) : least ≤ wrap n ∧ wrap n ≤ greatest := by
  have h₁ := Int.le_bmod (x := n) (m := size) (by decide)
  have h₂ := Int.bmod_lt (x := n) (m := size) (by decide)
  simp only [wrap, least, greatest, size] at *
  omega

/-- A word is left alone. -/
theorem wrap_of_mem {n : Int} (h₁ : least ≤ n) (h₂ : n ≤ greatest) : wrap n = n := by
  simp only [least, greatest] at h₁ h₂
  simp only [wrap, size, Int.bmod]
  omega

end Word32
end Octet
