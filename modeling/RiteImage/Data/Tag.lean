import RiteImage.Text.Utf8

namespace RiteImage

structure Tag where
  first : UInt8
  second : UInt8
  third : UInt8
  fourth : UInt8
  deriving DecidableEq

namespace Tag

def ofChars (a b c d : Char) : Tag := ⟨a.toUInt8, b.toUInt8, c.toUInt8, d.toUInt8⟩

/-- The first four bytes of a chunk; a missing byte is zero. -/
def ofBytes (chunk : ByteArray) : Tag :=
  ⟨Utf8.byteAt chunk 0, Utf8.byteAt chunk 1, Utf8.byteAt chunk 2, Utf8.byteAt chunk 3⟩

def toBytes (tag : Tag) : ByteArray := ⟨#[tag.first, tag.second, tag.third, tag.fourth]⟩

def text (tag : Tag) : String := Utf8.decode tag.toBytes

def magic : Tag := ofChars 'R' 'I' 'T' 'E'

def version : Tag := ofChars '0' '0' '0' '3'

def irep : Tag := ofChars 'I' 'R' 'E' 'P'

def debug : Tag := ofChars 'D' 'B' 'G' '\x00'

def lineNumbers : Tag := ofChars 'L' 'I' 'N' 'E'

def localNames : Tag := ofChars 'L' 'V' 'A' 'R'

def endMarker : Tag := ofChars 'E' 'N' 'D' '\x00'

end Tag

end RiteImage
