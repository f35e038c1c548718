/-! Doubles as 64-bit words, with exact arithmetic on natural numbers.
A finite double is its significand times a power of two, counted in the smallest
positive double, which is one over two to the 1074. -/
namespace RiteImage

structure Binary64 where
  bits : UInt64
  deriving DecidableEq

namespace Binary64

def signWeight : Nat := 0x8000000000000000

/-- The weight of the lowest bit of the exponent, which is also that of the hidden bit. -/
def hiddenWeight : Nat := 0x10000000000000

def infinityWord : Nat := 0x7FF0000000000000

def nanWord : Nat := 0x7FF8000000000000

/-- How many of the smallest positive double make one. -/
def one : Nat := Nat.pow 2 1074

def ofWord (negative : Bool) (word : Nat) : Binary64 :=
  ⟨UInt64.ofNat (if negative then signWeight + word else word)⟩

def isNegative (x : Binary64) : Bool := signWeight ≤ x.bits.toNat

def word (x : Binary64) : Nat := x.bits.toNat % signWeight

def isNaN (x : Binary64) : Bool := infinityWord < x.word

def isInfinite (x : Binary64) : Bool := x.word = infinityWord

def sameValue (x y : Binary64) : Bool :=
  !x.isNaN && !y.isNaN && (x.bits = y.bits || (x.word = 0 && y.word = 0))

def significand (x : Binary64) : Nat :=
  if x.word < hiddenWeight then x.word else hiddenWeight + x.word % hiddenWeight

/-- The unit of the significand is two to this power. -/
def unitExponent (x : Binary64) : Nat := x.word / hiddenWeight - 1

/-- A quotient to the nearest natural number, a half to the even one. -/
def roundDiv (numerator denominator : Nat) : Nat :=
  let quotient := numerator / denominator
  let twice := 2 * (numerator % denominator)
  if denominator < twice || (twice = denominator && quotient % 2 = 1) then quotient + 1
  else quotient

/-- The magnitude word of the double nearest to a quotient. -/
def nearestWord (numerator denominator : Nat) : Nat :=
  let scaled := numerator * one
  let exponent := (scaled / denominator).log2 - 52
  min infinityWord (hiddenWeight * exponent + roundDiv scaled (denominator * Nat.pow 2 exponent))

end Binary64

end RiteImage
