import RiteImage.Number.Binary64

namespace RiteImage

inductive DecimalFault
  | empty
  | invalid
  deriving DecidableEq

def DecimalFault.message : DecimalFault → String
  | .empty => "cannot parse float from empty string"
  | .invalid => "invalid float literal"

/-- Finite text stands for its digits, as a whole number, times ten to the exponent. -/
inductive Decimal
  | nan (negative : Bool)
  | infinite (negative : Bool)
  | finite (negative : Bool) (digits : List Char) (exponent : Int)

namespace Decimal

def splitSign : List Char → Bool × List Char
  | '-' :: rest => (true, rest)
  | '+' :: rest => (false, rest)
  | cs => (false, cs)

def ofDigits (digits : List Char) : Nat :=
  digits.foldl (fun n c => 10 * n + (c.toNat - '0'.toNat)) 0

/-- An exponent takes no more digits once it has reached 65536. -/
def exponentValue (digits : List Char) : Nat :=
  digits.foldl (fun n c => if n < 65536 then 10 * n + (c.toNat - '0'.toNat) else n) 0

def parseExponent : List Char → Option Int
  | [] => some 0
  | mark :: rest =>
    let (negative, digits) := splitSign rest
    if (mark = 'e' || mark = 'E') && !digits.isEmpty && digits.all Char.isDigit then
      some (if negative then -exponentValue digits else exponentValue digits)
    else none

def splitFraction : List Char → List Char × List Char
  | '.' :: rest => (rest.takeWhile Char.isDigit, rest.dropWhile Char.isDigit)
  | cs => ([], cs)

def parseNumber (negative : Bool) (cs : List Char) : Option Decimal :=
  let whole := cs.takeWhile Char.isDigit
  let (fraction, rest) := splitFraction (cs.dropWhile Char.isDigit)
  if whole.isEmpty && fraction.isEmpty then none
  else (parseExponent rest).map fun exponent =>
    .finite negative (whole ++ fraction) (exponent - fraction.length)

def parseName (negative : Bool) (cs : List Char) : Option Decimal :=
  let name := String.ofList (cs.map Char.toLower)
  if name = "inf" || name = "infinity" then some (.infinite negative)
  else if name = "nan" then some (.nan negative)
  else none

def parse (cs : List Char) : Except DecimalFault Decimal :=
  if cs.isEmpty then .error .empty
  else
    let (negative, rest) := splitSign cs
    match parseNumber negative rest <|> parseName negative rest with
    | some decimal => .ok decimal
    | none => .error .invalid

/-- Magnitudes far out of range are settled by where their first digit stands. -/
def wordOf (digits : List Char) (exponent : Int) : Nat :=
  let significant := digits.dropWhile (· = '0')
  let point := significant.length + exponent
  if significant.isEmpty || point < -330 then 0
  else if 310 < point then Binary64.infinityWord
  else if 0 ≤ exponent then
    Binary64.nearestWord (ofDigits significant * Nat.pow 10 exponent.toNat) 1
  else Binary64.nearestWord (ofDigits significant) (Nat.pow 10 (-exponent).toNat)

def toBinary64 : Decimal → Binary64
  | .nan negative => .ofWord negative Binary64.nanWord
  | .infinite negative => .ofWord negative Binary64.infinityWord
  | .finite negative digits exponent => .ofWord negative (wordOf digits exponent)

end Decimal

end RiteImage
