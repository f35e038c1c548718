import RiteImage.Data.Bisect

namespace RiteImage

structure CodePoints where
  intervals : Array (Nat × Nat)

/-- Only the last interval that starts at or below a character can hold it. -/
def CodePoints.contains (set : CodePoints) (c : Char) : Bool :=
  let started := border (fun interval => interval.1 ≤ c.toNat) set.intervals
  match set.intervals[started - 1]? with
  | some (first, last) => first ≤ c.toNat && c.toNat ≤ last
  | none => false

namespace Text

/-- The characters with the White_Space property. -/
def blanks : CodePoints where
  intervals := #[
  (0x9, 0xd), (0x20, 0x20), (0x85, 0x85), (0xa0, 0xa0), (0x1680, 0x1680), (0x2000, 0x200a),
  (0x2028, 0x2029), (0x202f, 0x202f), (0x205f, 0x205f), (0x3000, 0x3000)]

def isBlank (c : Char) : Bool := blanks.contains c

def trim (cs : List Char) : List Char :=
  ((cs.dropWhile isBlank).reverse.dropWhile isBlank).reverse

def trimEnd (cs : List Char) : List Char :=
  (cs.reverse.dropWhile isBlank).reverse

def padLeft (size : Nat) (fill : Char) (cs : List Char) : List Char :=
  List.replicate (size - cs.length) fill ++ cs

def hex (size n : Nat) : String :=
  "0x" ++ String.ofList (padLeft size '0' (Nat.toDigits 16 n))

def upperHex (size n : Nat) : String :=
  String.ofList (padLeft size '0' ((Nat.toDigits 16 n).map Char.toUpper))

end Text

end RiteImage
