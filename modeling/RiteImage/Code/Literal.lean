import RiteImage.Number.Shortest
import RiteImage.Reader.Primitives
import RiteImage.Text.Basic

namespace RiteImage

inductive LiteralKind
  | string
  | integer
  | float
  deriving DecidableEq

def LiteralKind.ofTag? : UInt8 → Option LiteralKind
  | 0 => some .string
  | 1 => some .integer
  | 2 => some .float
  | _ => none

def LiteralKind.name : LiteralKind → String
  | .string => "string"
  | .integer => "integer"
  | .float => "float"

inductive Literal
  | string (bytes : ByteArray)
  | integer (value : Int64)
  | float (value : Binary64)
  | unknown (tag : UInt8) (bytes : ByteArray)

namespace Literal

def kind? : Literal → Option LiteralKind
  | .string _ => some .string
  | .integer _ => some .integer
  | .float _ => some .float
  | .unknown .. => none

/-- Floats are compared as numbers, so a NaN differs from itself. -/
instance : BEq Literal where
  beq
    | .string a, .string b => a == b
    | .integer a, .integer b => a = b
    | .float a, .float b => a.sameValue b
    | .unknown s a, .unknown t b => s = t && a == b
    | _, _ => false

def text : Literal → String
  | .string bytes => Text.quote (Utf8.decode bytes)
  | .integer value => toString value.toInt
  | .float value => value.text
  | .unknown tag bytes => s!"<tag {tag}, {bytes.size} bytes>"

def parseInteger (offset : Nat) (text : String) : Except Defect Literal :=
  match Integer.parse (Text.trim text.toList) with
  | .ok value => .ok (.integer value)
  | .error fault => .error (.badInteger text offset fault)

def parseFloat (offset : Nat) (text : String) : Except Defect Literal :=
  match Decimal.parse (Text.trim text.toList) with
  | .ok value => .ok (.float value.toBinary64)
  | .error fault => .error (.badFloat text offset fault)

def parseText (offset : Nat) (payload : ByteArray)
    (parse : Nat → String → Except Defect Literal) : Except Defect Literal :=
  match String.fromUTF8? payload with
  | some text => parse offset text
  | none => .error (.notText offset)

def ofPayload (tag : UInt8) (offset : Nat) (payload : ByteArray) : Except Defect Literal :=
  match LiteralKind.ofTag? tag with
  | some .string => .ok (.string payload)
  | some .integer => parseText offset payload parseInteger
  | some .float => parseText offset payload parseFloat
  | none => .ok (.unknown tag payload)

section Steps

variable {m : Type → Type} {Position : Type} [Monad m] (p : Primitives m Position)

def reportUnknownBy (tag : UInt8) (offset : Nat) : m Unit :=
  if LiteralKind.ofTag? tag = none then p.log (.unknownLiteral tag offset) else pure ()

def ofExceptBy : Except Defect Literal → m Literal
  | .ok literal => pure literal
  | .error defect => p.fail (.malformed defect)

/-- An entry is a kind, a length of two bytes and a payload, which is consumed even if wrong. -/
def readBy : m Literal := do
  let tag ← p.u8
  let length ← p.u16
  let offset ← p.position
  let payload ← p.take length
  reportUnknownBy p tag (p.offset offset)
  ofExceptBy p (ofPayload tag (p.offset offset) payload)

end Steps

abbrev reportUnknown (tag : UInt8) (offset : Nat) : Reader Unit :=
  reportUnknownBy Reader.primitives tag offset

abbrev ofExcept (value : Except Defect Literal) : Reader Literal :=
  ofExceptBy Reader.primitives value

abbrev read : Reader Literal := readBy Reader.primitives

instance (tag : UInt8) (offset : Nat) : Reader.Forward (reportUnknown tag offset) := by
  unfold reportUnknown reportUnknownBy; infer_instance

instance (value : Except Defect Literal) : Reader.Forward (ofExcept value) := by
  cases value <;> (unfold ofExcept ofExceptBy; infer_instance)

instance : Reader.Forward read := by unfold read readBy; infer_instance

end Literal

end RiteImage
