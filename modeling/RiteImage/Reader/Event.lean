import RiteImage.Reader.Cause

namespace RiteImage

inductive Level
  | debug
  | trace
  deriving DecidableEq

inductive Event
  | header (compiler version : Tag) (size : UInt32)
  | irep (offset opcodes literals symbols children : Nat)
  | unknownLiteral (tag : UInt8) (offset : Nat)
  | endMarker (offset : Nat)
  | irepSection (offset records : Nat)
  | debugSection (offset irepOffset : Nat)
  | skippedSection (tag : Tag) (offset : Nat) (size : UInt32)
  deriving DecidableEq

def Event.level : Event → Level
  | .header .. => .trace
  | .irep .. => .trace
  | _ => .debug

def Event.message : Event → String
  | .header compiler version size =>
    s!"RITE header: compiler {compiler.text} {version.text}, {size} content bytes"
  | .irep offset opcodes literals symbols children =>
    s!"irep at {offsetText offset}: {opcodes} opcodes, {literals} literals, {symbols} symbols, " ++
      s!"{children} children"
  | .unknownLiteral tag offset =>
    s!"Preserving pool entry with unknown tag {tag} at {offsetText offset}"
  | .endMarker offset => s!"End marker at {offsetText offset}"
  | .irepSection offset records => s!"IREP section at {offsetText offset}: {records} records"
  | .debugSection offset irepOffset =>
    s!"DBG section at {offsetText offset} linked to IREP section at {offsetText irepOffset}"
  | .skippedSection tag offset size =>
    s!"Skipping opaque section {Text.quote tag.text} at {offsetText offset}, {size} bytes"

end RiteImage
