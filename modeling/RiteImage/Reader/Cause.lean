import RiteImage.Data.Tag
import RiteImage.Number.Decimal
import RiteImage.Number.Integer
import RiteImage.Text.Escaped

namespace RiteImage

/-- What an advisory size belongs to. -/
inductive Part
  | irep
  | debugRecord
  | irepSection
  | debugSection
  deriving DecidableEq

inductive Defect
  | wrongMagic (magic : Tag)
  | notText (offset : Nat)
  | badInteger (text : String) (offset : Nat) (fault : IntegerFault)
  | badFloat (text : String) (offset : Nat) (fault : DecimalFault)
  | sizeMismatch (part : Part) (offset declared contained : Nat)
  | sectionOverrun (offset declared contentEnd : Nat)
  | sectionTooSmall (tag : Tag) (offset declared : Nat)
  deriving DecidableEq

inductive Cause
  | wrongVersion (found : Tag)
  | wrongChecksum (declared computed : UInt16)
  | unknownLineKind (tag : UInt8) (offset : Nat)
  | orphanLines (offset : Nat)
  | truncated (offset needed available : Nat)
  | filenameOutOfRange (index : UInt16) (count offset : Nat)
  | malformed (defect : Defect)
  | tooDeep (limit : Nat)
  deriving DecidableEq

def offsetText (offset : Nat) : String := Text.hex 1 offset

def Part.name : Part → String
  | .irep => "Irep record"
  | .debugRecord => "Debug record"
  | .irepSection => "IREP section"
  | .debugSection => "DBG section"

def Defect.message : Defect → String
  | .wrongMagic magic => s!"Invalid magic {Text.quote magic.text}"
  | .notText offset => s!"Numeric pool literal at offset {offsetText offset} is not text"
  | .badInteger text offset fault =>
    s!"Invalid integer literal {Text.quote text} at offset {offsetText offset} - " ++ fault.message
  | .badFloat text offset fault =>
    s!"Invalid float literal {Text.quote text} at offset {offsetText offset} - " ++ fault.message
  | .sizeMismatch part offset declared contained =>
    s!"{part.name} at {offsetText offset} declares {declared} bytes, contains {contained}"
  | .sectionOverrun offset declared contentEnd =>
    s!"Section at {offsetText offset} declares {declared} bytes but its content runs to " ++
      offsetText contentEnd
  | .sectionTooSmall tag offset declared =>
    s!"Section {Text.quote tag.text} at {offsetText offset} declares size {declared} " ++
      "smaller than its header"

structure Site where
  file : String
  line : Nat

/-- What is said of a defect, after the place that found it if the program tells of that. -/
def Defect.report (sites : Defect → Option Site) (defect : Defect) : String :=
  match sites defect with
  | some site => s!"{site.file}:{site.line}: " ++ defect.message
  | none => defect.message

def Cause.message (cause : Cause) (sites : Defect → Option Site := fun _ => none) : String :=
  match cause with
  | .wrongVersion found =>
    s!"Unsupported bytecode version - expected {Text.quote Tag.version.text}, found " ++
      Text.quote found.text
  | .wrongChecksum declared computed =>
    s!"Checksum mismatch - header declares {Text.hex 4 declared.toNat}, content computes to " ++
      Text.hex 4 computed.toNat
  | .unknownLineKind tag offset =>
    s!"Invalid line encoding tag {tag} at offset {offsetText offset}"
  | .orphanLines offset =>
    s!"Debug section at offset {offsetText offset} has no preceding irep tree to mirror"
  | .truncated offset needed available =>
    s!"Truncated input - needed {needed} bytes at offset {offsetText offset}, only {available} " ++
      "available"
  | .filenameOutOfRange index count offset =>
    s!"Filename index {index} out of range ({count} entries) at offset {offsetText offset}"
  | .malformed defect => "Malformed - " ++ defect.report sites
  | .tooDeep limit => s!"Reach the maximum recursion level allowed - {limit}"

end RiteImage
