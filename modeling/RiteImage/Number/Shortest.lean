import RiteImage.Number.Binary64

/-! The fewest decimal digits that read back as the same double.
Of two such texts of one length the nearer is taken, and of two equally near the larger. -/
namespace RiteImage

/-- A positive number as decimal digits, the first of which stands for ten to `exponent`. -/
structure Scientific where
  digits : List Char
  exponent : Int

namespace Shortest

/-- A positive finite double as a quotient, with the bounds of what rounds to it in quarters. -/
structure Interval where
  numerator : Nat
  denominator : Nat
  low : Nat
  high : Nat
  closed : Bool

/-- Below a power of two the next double is half as far away. -/
def Interval.of (x : Binary64) : Interval :=
  let unit := Nat.pow 2 x.unitExponent
  let below := if x.significand = Binary64.hiddenWeight && 0 < x.unitExponent then 1 else 2
  { numerator := x.significand * unit
    denominator := Binary64.one
    low := (4 * x.significand - below) * unit
    high := (4 * x.significand + 2) * unit
    closed := x.significand % 2 = 0 }

def digitCount (n : Nat) : Nat := (Nat.toDigits 10 n).length

def leadingExponent (numerator denominator : Nat) : Int :=
  if denominator ≤ numerator then digitCount (numerator / denominator) - 1
  else -digitCount ((denominator - 1) / numerator)

def Interval.within (i : Interval) (exponent : Int) (n : Nat) : Bool :=
  let point := 4 * n * (i.denominator * Nat.pow 10 exponent.toNat)
  let up := Nat.pow 10 (-exponent).toNat
  if i.closed then i.low * up ≤ point && point ≤ i.high * up
  else i.low * up < point && point < i.high * up

/-- The better of the two neighbours on the grid of ten to `exponent`, if one reads back. -/
def onGrid (i : Interval) (exponent : Int) : Option Nat :=
  let numerator := i.numerator * Nat.pow 10 (-exponent).toNat
  let denominator := i.denominator * Nat.pow 10 exponent.toNat
  let lower := numerator / denominator
  let nearerLower := 2 * (numerator % denominator) < denominator
  if i.within exponent lower && (nearerLower || !i.within exponent (lower + 1)) then some lower
  else if i.within exponent (lower + 1) then some (lower + 1)
  else none

def scientific (n : Nat) (exponent : Int) : Scientific :=
  let digits := Nat.toDigits 10 n
  let kept := (digits.reverse.dropWhile (· = '0')).reverse
  ⟨kept, exponent + digits.length - 1⟩

/-- Seventeen digits are always enough, so the first grid of a double that answers is taken. -/
def ofPositive (x : Binary64) : Scientific :=
  let i := Interval.of x
  let leading := leadingExponent i.numerator i.denominator
  let found := (List.range 17).findSome? fun (extra : Nat) =>
    (onGrid i (leading - extra)).map fun n => scientific n (leading - extra)
  found.getD (scientific i.numerator 0)

end Shortest

namespace Scientific

def positional (s : Scientific) : List Char :=
  if 0 ≤ s.exponent then
    let size := s.exponent.toNat + 1
    let padded := s.digits ++ List.replicate (size - s.digits.length) '0'
    let fraction := padded.drop size
    padded.take size ++ ['.'] ++ (if fraction.isEmpty then ['0'] else fraction)
  else ['0', '.'] ++ List.replicate ((-s.exponent).toNat - 1) '0' ++ s.digits

def marked (s : Scientific) : List Char :=
  let fraction := s.digits.drop 1
  s.digits.take 1 ++ (if fraction.isEmpty then [] else '.' :: fraction) ++ ['e'] ++
    (toString s.exponent).toList

/-- Positional from a ten-thousandth up to ten to the sixteenth, else with an exponent. -/
def text (s : Scientific) : List Char :=
  if -4 ≤ s.exponent && s.exponent < 16 then s.positional else s.marked

end Scientific

/-- The sign is kept on zero and infinity, and dropped from a NaN. -/
def Binary64.text (x : Binary64) : String :=
  if x.isNaN then "NaN"
  else
    let magnitude :=
      if x.isInfinite then ['i', 'n', 'f']
      else if x.word = 0 then ['0', '.', '0']
      else (Shortest.ofPositive x).text
    String.ofList (if x.isNegative then '-' :: magnitude else magnitude)

end RiteImage
