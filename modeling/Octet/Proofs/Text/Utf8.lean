import Octet.Text.Utf8

/-!
# Reading back what was written in UTF-8

`Utf8.decode` decides byte by byte whether bytes are a text.  It reads every text back from the
bytes that spell it (`decode_toByteArray`), so nothing that is well formed is refused.  The bytes
are those of the standard encoding, which knows nothing of leads and pending sequences.

A character is read back one byte after the other: the first byte opens a sequence that allows the
second bytes that a character of its kind may have (`lead_two`, `lead_three`, `lead_four`), and the
bits of the later ones are appended to those of the first.
-/

namespace Octet
namespace Text
namespace Utf8

/-! ## Bytes behind the first one -/

section

variable {offset : Nat} {p : Pending} {b : UInt8} {rest : List UInt8}

/-- The last byte of a sequence. -/
theorem decodeFrom_last (hmore : p.more = 0) (hb : p.low ≤ b.toNat ∧ b.toNat ≤ p.high) :
    decodeFrom offset (some p) (b :: rest) =
      (decodeFrom (offset + 1) none rest).map
        (Char.ofNat (p.bits * 64 + (b.toNat - 0x80)) :: ·) := by
  rw [decodeFrom, if_pos hb, hmore]
  cases decodeFrom (offset + 1) none rest <;> rfl

/-- A byte in the middle of a sequence. -/
theorem decodeFrom_middle {more : Nat} (hmore : p.more = more + 1)
    (hb : p.low ≤ b.toNat ∧ b.toNat ≤ p.high) :
    decodeFrom offset (some p) (b :: rest) =
      decodeFrom (offset + 1) (some ⟨p.offset, p.seen ++ [b], p.bits * 64 + (b.toNat - 0x80), more,
        0x80, 0xBF⟩) rest := by
  rw [decodeFrom, if_pos hb, hmore]

/-- No character of one byte opens a sequence. -/
theorem le_of_lead (hlead : lead offset b = some p) : 0x80 ≤ b.toNat := by
  refine Nat.le_of_not_lt fun hlt => ?_
  rw [lead, if_neg (by omega), if_neg (by omega), if_neg (by omega), if_neg (by omega),
    if_neg (by omega), if_neg (by omega), if_neg (by omega)] at hlead
  cases hlead

/-- A byte that opens a sequence. -/
theorem decodeFrom_lead (hlead : lead offset b = some p) :
    decodeFrom offset none (b :: rest) = decodeFrom (offset + 1) (some p) rest := by
  rw [decodeFrom, if_neg (Nat.not_lt.2 (le_of_lead hlead)), hlead]

end

/-! ## Characters -/

theorem toNat_ofNat_of_lt {n : Nat} (h : n < 256) : (UInt8.ofNat n).toNat = n := by
  rw [UInt8.toNat_ofNat']
  exact Nat.mod_eq_of_lt h

/-- The first byte of a character of two bytes. -/
theorem lead_two {v : Nat} (hlow : 0x80 ≤ v) (hhigh : v < 0x800) (offset : Nat) :
    lead offset (UInt8.ofNat (v / 64 % 32 + 192)) =
      some ⟨offset, [UInt8.ofNat (v / 64 % 32 + 192)], v / 64, 0, 0x80, 0xBF⟩ := by
  have hbyte : (UInt8.ofNat (v / 64 % 32 + 192)).toNat = v / 64 + 192 := by
    rw [toNat_ofNat_of_lt (by omega)]
    omega
  rw [lead, hbyte, if_pos (by omega), Nat.add_sub_cancel]

/-- The first byte of a character of three bytes.  What may follow excludes longer forms of shorter
characters, and surrogates. -/
theorem lead_three {v : Nat} (hlow : 0x800 ≤ v) (hhigh : v < 0x10000)
    (hvalid : v < 0xD800 ∨ 0xDFFF < v) (offset : Nat) :
    ∃ low high, low ≤ v / 64 % 64 + 128 ∧ v / 64 % 64 + 128 ≤ high ∧
      lead offset (UInt8.ofNat (v / 4096 % 16 + 224)) =
        some ⟨offset, [UInt8.ofNat (v / 4096 % 16 + 224)], v / 4096, 1, low, high⟩ := by
  have hbyte : (UInt8.ofNat (v / 4096 % 16 + 224)).toNat = v / 4096 + 224 := by
    rw [toNat_ofNat_of_lt (by omega)]
    omega
  rw [lead, hbyte, if_neg (by omega)]
  by_cases hfirst : v / 4096 = 0
  · refine ⟨0xA0, 0xBF, by omega, by omega, ?_⟩
    rw [if_pos (by omega), hfirst]
  · by_cases hsurrogate : v / 4096 = 0xD
    · refine ⟨0x80, 0x9F, by omega, by omega, ?_⟩
      rw [if_neg (by omega), if_pos (by omega), hsurrogate]
    · refine ⟨0x80, 0xBF, by omega, by omega, ?_⟩
      rw [if_neg (by omega), if_neg (by omega), if_pos (by omega), Nat.add_sub_cancel]

/-- The first byte of a character of four bytes.  What may follow excludes longer forms of shorter
characters, and what is behind the last plane. -/
theorem lead_four {v : Nat} (hlow : 0x10000 ≤ v) (hhigh : v < 0x110000) (offset : Nat) :
    ∃ low high, low ≤ v / 4096 % 64 + 128 ∧ v / 4096 % 64 + 128 ≤ high ∧
      lead offset (UInt8.ofNat (v / 262144 % 8 + 240)) =
        some ⟨offset, [UInt8.ofNat (v / 262144 % 8 + 240)], v / 262144, 2, low, high⟩ := by
  have hbyte : (UInt8.ofNat (v / 262144 % 8 + 240)).toNat = v / 262144 + 240 := by
    rw [toNat_ofNat_of_lt (by omega)]
    omega
  rw [lead, hbyte, if_neg (by omega), if_neg (by omega), if_neg (by omega), if_neg (by omega)]
  by_cases hfirst : v / 262144 = 0
  · refine ⟨0x90, 0xBF, by omega, by omega, ?_⟩
    rw [if_pos (by omega), hfirst]
  · by_cases hlast : v / 262144 = 4
    · refine ⟨0x80, 0x8F, by omega, by omega, ?_⟩
      rw [if_neg (by omega), if_neg (by omega), if_pos (by omega), hlast]
    · refine ⟨0x80, 0xBF, by omega, by omega, ?_⟩
      rw [if_neg (by omega), if_pos (by omega), Nat.add_sub_cancel]

/-- A byte that continues a sequence carries six bits. -/
theorem toNat_continuation (n : Nat) : (UInt8.ofNat (n % 64 + 128)).toNat = n % 64 + 128 :=
  toNat_ofNat_of_lt (by omega)

/-- Six bits are all that a byte in the middle or at the end of a sequence may carry. -/
theorem continuation_range (n : Nat) :
    0x80 ≤ (UInt8.ofNat (n % 64 + 128)).toNat ∧ (UInt8.ofNat (n % 64 + 128)).toNat ≤ 0xBF := by
  rw [toNat_continuation]
  omega

section

variable {v : Nat} (rest : List UInt8) (offset : Nat)

theorem decodeFrom_two (hlow : 0x80 ≤ v) (hhigh : v < 0x800) :
    decodeFrom offset none
        (UInt8.ofNat (v / 64 % 32 + 192) :: UInt8.ofNat (v % 64 + 128) :: rest) =
      (decodeFrom (offset + 2) none rest).map (Char.ofNat v :: ·) := by
  have hbits : v / 64 * 64 + (v % 64 + 128 - 0x80) = v := by omega
  rw [decodeFrom_lead (lead_two hlow hhigh offset),
    decodeFrom_last rfl (continuation_range v), toNat_continuation, hbits]

theorem decodeFrom_three (hlow : 0x800 ≤ v) (hhigh : v < 0x10000)
    (hvalid : v < 0xD800 ∨ 0xDFFF < v) :
    decodeFrom offset none (UInt8.ofNat (v / 4096 % 16 + 224) ::
        UInt8.ofNat (v / 64 % 64 + 128) :: UInt8.ofNat (v % 64 + 128) :: rest) =
      (decodeFrom (offset + 3) none rest).map (Char.ofNat v :: ·) := by
  have hbits : (v / 4096 * 64 + (v / 64 % 64 + 128 - 0x80)) * 64 + (v % 64 + 128 - 0x80) = v := by
    omega
  obtain ⟨low, high, hle, hge, hlead⟩ := lead_three hlow hhigh hvalid offset
  rw [← toNat_continuation] at hle hge
  rw [decodeFrom_lead hlead, decodeFrom_middle rfl ⟨hle, hge⟩,
    decodeFrom_last rfl (continuation_range v), toNat_continuation, toNat_continuation, hbits]

theorem decodeFrom_four (hlow : 0x10000 ≤ v) (hhigh : v < 0x110000) :
    decodeFrom offset none (UInt8.ofNat (v / 262144 % 8 + 240) ::
        UInt8.ofNat (v / 4096 % 64 + 128) :: UInt8.ofNat (v / 64 % 64 + 128) ::
        UInt8.ofNat (v % 64 + 128) :: rest) =
      (decodeFrom (offset + 4) none rest).map (Char.ofNat v :: ·) := by
  have hbits : ((v / 262144 * 64 + (v / 4096 % 64 + 128 - 0x80)) * 64 +
      (v / 64 % 64 + 128 - 0x80)) * 64 + (v % 64 + 128 - 0x80) = v := by
    omega
  obtain ⟨low, high, hle, hge, hlead⟩ := lead_four hlow hhigh offset
  rw [← toNat_continuation] at hle hge
  rw [decodeFrom_lead hlead, decodeFrom_middle rfl ⟨hle, hge⟩,
    decodeFrom_middle rfl (continuation_range (v / 64)),
    decodeFrom_last rfl (continuation_range v), toNat_continuation, toNat_continuation,
    toNat_continuation, hbits]

end

/-- A character is read back, whatever stands behind it. -/
theorem decodeFrom_encodeChar (c : Char) (rest : List UInt8) (offset : Nat) :
    ∃ later, decodeFrom offset none (String.utf8EncodeChar c ++ rest) =
      (decodeFrom later none rest).map (c :: ·) := by
  have hvalid : c.toNat < 0xD800 ∨ 0xDFFF < c.toNat ∧ c.toNat < 0x110000 := c.valid
  have hval : c.val.toNat = c.toNat := rfl
  have hback : c = Char.ofNat c.toNat := (Char.ofNat_toNat c).symm
  rw [String.utf8EncodeChar, hval]
  generalize c.toNat = v at hvalid hback
  subst hback
  by_cases hone : v ≤ 127
  · refine ⟨offset + 1, ?_⟩
    have hbyte : (UInt8.ofNat v).toNat = v := toNat_ofNat_of_lt (by omega)
    rw [if_pos hone, List.singleton_append, decodeFrom, hbyte, if_pos (by omega)]
    cases decodeFrom (offset + 1) none rest <;> rfl
  · rw [if_neg hone]
    by_cases htwo : v ≤ 2047
    · rw [if_pos htwo]
      exact ⟨_, decodeFrom_two rest offset (by omega) (by omega)⟩
    · rw [if_neg htwo]
      by_cases hthree : v ≤ 65535
      · rw [if_pos hthree]
        exact ⟨_, decodeFrom_three rest offset (by omega) (by omega) (by omega)⟩
      · rw [if_neg hthree]
        exact ⟨_, decodeFrom_four rest offset (by omega) (by omega)⟩

/-! ## Texts -/

theorem decodeFrom_encode (chars : List Char) (offset : Nat) :
    decodeFrom offset none (chars.flatMap String.utf8EncodeChar) = .ok chars := by
  induction chars generalizing offset with
  | nil => rfl
  | cons c chars ih =>
    obtain ⟨later, hlater⟩ :=
      decodeFrom_encodeChar c (chars.flatMap String.utf8EncodeChar) offset
    rw [List.flatMap_cons, hlater, ih]
    rfl

/-- **A text is read back from its bytes.** -/
theorem decode_toByteArray (text : String) :
    decode text.toByteArray.data.toList = .ok text.toList := by
  have hbytes : text.toByteArray.data.toList = text.toList.flatMap String.utf8EncodeChar := by
    rw [← String.utf8Encode_toList, List.utf8Encode, List.data_toByteArray]
  rw [hbytes]
  exact decodeFrom_encode text.toList 0

end Utf8
end Text
end Octet
