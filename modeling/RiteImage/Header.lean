import RiteImage.Checksum
import RiteImage.Reader.Primitives

/-! The 22 bytes at the start of an image.
They name the format, its version and the compiler, and carry a check value over
the content, which begins right after the check value itself. -/
namespace RiteImage

structure Header where
  magic : Tag
  version : Tag
  checksum : UInt16
  /-- The number of bytes that the check value covers. -/
  size : UInt32
  compilerName : Tag
  compilerVersion : Tag
  deriving DecidableEq

namespace Header

def byteCount : Nat := 22

def contentStart : Nat := 10

def content (bytes : ByteArray) (size : UInt32) : ByteArray :=
  bytes.extract contentStart (min (contentStart + size.toNat) bytes.size)

section Steps

variable {m : Type → Type} {Position : Type} [Monad m] (p : Primitives m Position)

def readNamesBy (magic version : Tag) (checksum : UInt16) (size : UInt32) : m Header := do
  let compilerName ← p.tag
  let compilerVersion ← p.tag
  p.log (.header compilerName compilerVersion size)
  pure ⟨magic, version, checksum, size, compilerName, compilerVersion⟩

/-- A wrong version is reported before a wrong check value. -/
def readBy (check : UInt16 → UInt32 → m Unit) : m Header := do
  let magic ← p.tag
  let version ← p.tag
  p.require (version = Tag.version) (.wrongVersion version)
  let declared ← p.u16
  let size ← p.u32
  check declared size
  readNamesBy p magic version declared size

end Steps

def checkContent (declared : UInt16) (size : UInt32) : Reader Unit := do
  let bytes ← Reader.buffer
  let computed := Checksum.compute (content bytes size).data.toList 0
  Reader.require (computed = declared) (.wrongChecksum declared computed)

def read : Reader Header := readBy Reader.primitives checkContent

def hasMagic (header : Header) : Bool := header.magic = Tag.magic

end Header

end RiteImage
