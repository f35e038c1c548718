namespace RiteImage

inductive IntegerFault
  | empty
  | invalidDigit
  | tooLarge
  | tooSmall
  deriving DecidableEq

def IntegerFault.message : IntegerFault → String
  | .empty => "cannot parse integer from empty string"
  | .invalidDigit => "invalid digit found in string"
  | .tooLarge => "number too large to fit in target type"
  | .tooSmall => "number too small to fit in target type"

namespace Integer

def largest : Nat := 0x7FFFFFFFFFFFFFFF

def digitValue (c : Char) : Nat := c.toNat - '0'.toNat

/-- Continues the number `n`, which may grow up to `limit` and otherwise is `overflow`. -/
def magnitude (limit : Nat) (overflow : IntegerFault) (n : Nat) :
    List Char → Except IntegerFault Nat
  | [] => .ok n
  | c :: rest =>
    if c.isDigit then
      let next := 10 * n + digitValue c
      if next ≤ limit then magnitude limit overflow next rest else .error overflow
    else .error .invalidDigit

def ofUnsigned (limit : Nat) (overflow : IntegerFault) : List Char → Except IntegerFault Nat
  | [] => .error .invalidDigit
  | c :: rest => magnitude limit overflow 0 (c :: rest)

def parse : List Char → Except IntegerFault Int64
  | [] => .error .empty
  | '-' :: rest =>
    (ofUnsigned (largest + 1) .tooSmall rest).map fun n => Int64.ofInt (-n)
  | '+' :: rest =>
    (ofUnsigned largest .tooLarge rest).map fun n => Int64.ofInt n
  | cs =>
    (ofUnsigned largest .tooLarge cs).map fun n => Int64.ofInt n

end Integer

end RiteImage
