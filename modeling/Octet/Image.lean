/-!
# Images

The compiled form of a program is an *image*: a string of bytes and the texts it
refers to.  Registers, texts and addresses are named by a single byte, so there
are at most 256 of each.
-/

namespace Octet

/-- A compiled program: its instructions and its texts. -/
structure Image where
  code : List UInt8
  constants : List String
  deriving DecidableEq, Repr

/-- The number of registers. -/
def maxRegisters : Nat := 256

/-- The greatest number of texts that an image may refer to. -/
def maxConstants : Nat := 256

/-- The greatest number of bytes of an image. -/
def maxCodeSize : Nat := 256

end Octet
