import Octet.Text.Quoted

/-!
# Reading bytes as UTF-8

`Utf8.decode` reads a byte string as UTF-8 and refuses whatever is not
well-formed: overlong forms, surrogates and code points past the last plane
included.  All of these are decided by the range that the *second* byte of a
sequence may have, which depends on the first (`Utf8.lead`); every later byte is
an ordinary continuation byte.

A refusal says where the faulty sequence starts, which of its bytes were well
formed up to the fault, and why it is faulty.  The reader looks at one byte at a
time and remembers at most one open sequence, so the recursion is on the bytes
themselves.
-/

namespace Octet
namespace Text
namespace Utf8

/-- Why a byte sequence is no character. -/
inductive Reason where
  /-- No sequence starts with this byte. -/
  | invalidStart
  /-- A byte follows that cannot continue the sequence. -/
  | invalidContinuation
  /-- The text ends inside the sequence. -/
  | unexpectedEnd
  deriving DecidableEq, Repr

/-- The wording of a reason. -/
def Reason.text : Reason → String
  | .invalidStart => "invalid start byte"
  | .invalidContinuation => "invalid continuation byte"
  | .unexpectedEnd => "unexpected end of data"

/-- A refused byte string: where the faulty sequence starts, its bytes up to the
fault, and what is wrong with it. -/
structure Fault where
  offset : Nat
  bytes : List UInt8
  reason : Reason
  deriving DecidableEq, Repr

/-- The wording of a refusal: one byte is shown by its value, several by the
stretch they cover. -/
def Fault.message (f : Fault) : String :=
  let place := match f.bytes with
    | [b] => "byte 0x" ++ String.ofList (hex 2 b.toNat) ++ " in position " ++ toString f.offset
    | bs => "bytes in position " ++ toString f.offset ++ "-" ++
        toString (f.offset + bs.length - 1)
  "'utf-8' codec can't decode " ++ place ++ ": " ++ f.reason.text

/-- A sequence whose last bytes are still to come. -/
structure Pending where
  /-- Where the sequence starts. -/
  offset : Nat
  /-- The bytes seen so far. -/
  seen : List UInt8
  /-- The bits they carry. -/
  bits : Nat
  /-- How many bytes follow the next one. -/
  more : Nat
  /-- The least byte that may come next. -/
  low : Nat
  /-- The greatest byte that may come next. -/
  high : Nat

/-- The sequence opened by a byte of `0x80` or more, if it opens one. -/
def lead (offset : Nat) (b : UInt8) : Option Pending :=
  let n := b.toNat
  if 0xC2 ≤ n ∧ n ≤ 0xDF then some ⟨offset, [b], n - 0xC0, 0, 0x80, 0xBF⟩
  else if n = 0xE0 then some ⟨offset, [b], 0, 1, 0xA0, 0xBF⟩
  else if n = 0xED then some ⟨offset, [b], 0xD, 1, 0x80, 0x9F⟩
  else if 0xE1 ≤ n ∧ n ≤ 0xEF then some ⟨offset, [b], n - 0xE0, 1, 0x80, 0xBF⟩
  else if n = 0xF0 then some ⟨offset, [b], 0, 2, 0x90, 0xBF⟩
  else if 0xF1 ≤ n ∧ n ≤ 0xF3 then some ⟨offset, [b], n - 0xF0, 2, 0x80, 0xBF⟩
  else if n = 0xF4 then some ⟨offset, [b], 4, 2, 0x80, 0x8F⟩
  else none

/-- Read on from `offset`, with at most one sequence open. -/
def decodeFrom (offset : Nat) : Option Pending → List UInt8 → Except Fault (List Char)
  | none, [] => .ok []
  | some p, [] => .error ⟨p.offset, p.seen, .unexpectedEnd⟩
  | none, b :: rest =>
    if b.toNat < 0x80 then do
      let text ← decodeFrom (offset + 1) none rest
      return Char.ofNat b.toNat :: text
    else match lead offset b with
      | none => .error ⟨offset, [b], .invalidStart⟩
      | some p => decodeFrom (offset + 1) (some p) rest
  | some p, b :: rest =>
    if p.low ≤ b.toNat ∧ b.toNat ≤ p.high then
      let bits := p.bits * 64 + (b.toNat - 0x80)
      match p.more with
      | 0 => do
        let text ← decodeFrom (offset + 1) none rest
        return Char.ofNat bits :: text
      | more + 1 =>
        decodeFrom (offset + 1) (some ⟨p.offset, p.seen ++ [b], bits, more, 0x80, 0xBF⟩) rest
    else .error ⟨p.offset, p.seen, .invalidContinuation⟩

/-- The text that a byte string spells in UTF-8. -/
def decode (bytes : List UInt8) : Except Fault (List Char) :=
  decodeFrom 0 none bytes

end Utf8
end Text
end Octet
