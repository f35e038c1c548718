/-! The 16-bit check value of an image.
A register takes the bytes in at its low end and is shifted out at bit 24, where the
polynomial x^16 + x^12 + x^5 + 1 is taken off. -/
namespace RiteImage.Checksum

def polynomial : UInt32 := 0x1102100

/-- Shifts by one bit and reduces if the bit that arrives at 24 is set. -/
def shift (register : UInt32) : UInt32 :=
  let shifted := register <<< 1
  if shifted &&& 0x1000000 = 0 then shifted else shifted ^^^ polynomial

def absorb (register : UInt32) (byte : UInt8) : UInt32 :=
  Nat.repeat shift 8 (register ||| byte.toUInt32)

def compute (bytes : List UInt8) (seed : UInt16) : UInt16 :=
  (bytes.foldl absorb (seed.toUInt32 <<< 8) >>> 8).toUInt16

end RiteImage.Checksum
