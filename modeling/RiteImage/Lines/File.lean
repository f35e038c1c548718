import RiteImage.Lines.Table
import RiteImage.Reader.Primitives

namespace RiteImage

/-- Lines of the instructions from `start` on that come from one source file. -/
structure FileLines where
  start : UInt32
  filenameIndex : UInt16
  filename : String
  lines : LineTable
  deriving DecidableEq

namespace FileLines

section Steps

variable {m : Type → Type} {Position : Type} [Monad m] (p : Primitives m Position)

def readEntryBy : m LineEntry := do
  let offset ← p.u32
  let line ← p.u16
  pure ⟨offset, line⟩

def readLinesBy (count : Nat) : LineKind → m LineTable
  | .array => do
    let lines ← p.replicate count p.u16
    pure (.array lines.toArray)
  | .map => do
    let entries ← p.replicate count (readEntryBy p)
    pure (.map entries.toArray)

def resolveBy (filenames : List String) (index : UInt16) (offset : Nat) : m String :=
  match filenames[index.toNat]? with
  | some filename => pure filename
  | none => p.fail (.filenameOutOfRange index filenames.length offset)

def encodingOfBy (tag : UInt8) (offset : Nat) : m LineKind :=
  match LineKind.ofTag? tag with
  | some encoding => pure encoding
  | none => p.fail (.unknownLineKind tag offset)

def readEncodingBy : m LineKind := do
  let offset ← p.position
  let tag ← p.u8
  encodingOfBy p tag (p.offset offset)

def readBy (filenames : List String) : m FileLines := do
  let start ← p.u32
  let offset ← p.position
  let index ← p.u16
  let filename ← resolveBy p filenames index (p.offset offset)
  let count ← p.u32
  let encoding ← readEncodingBy p
  let lines ← readLinesBy p count.toNat encoding
  pure ⟨start, index, filename, lines⟩

end Steps

abbrev readEntry : Reader LineEntry := readEntryBy Reader.primitives

abbrev readLines (count : Nat) (encoding : LineKind) : Reader LineTable :=
  readLinesBy Reader.primitives count encoding

abbrev resolve (filenames : List String) (index : UInt16) (offset : Nat) : Reader String :=
  resolveBy Reader.primitives filenames index offset

abbrev encodingOf (tag : UInt8) (offset : Nat) : Reader LineKind :=
  encodingOfBy Reader.primitives tag offset

abbrev readEncoding : Reader LineKind := readEncodingBy Reader.primitives

abbrev read (filenames : List String) : Reader FileLines := readBy Reader.primitives filenames

instance : Reader.Forward readEntry := by unfold readEntry readEntryBy; infer_instance

instance (count : Nat) (encoding : LineKind) : Reader.Forward (readLines count encoding) := by
  cases encoding <;> (unfold readLines readLinesBy; infer_instance)

instance (filenames : List String) (index : UInt16) (offset : Nat) :
    Reader.Forward (resolve filenames index offset) := by
  unfold resolve resolveBy
  split <;> infer_instance

instance (tag : UInt8) (offset : Nat) : Reader.Forward (encodingOf tag offset) := by
  unfold encodingOf encodingOfBy
  split <;> infer_instance

instance : Reader.Forward readEncoding := by unfold readEncoding readEncodingBy; infer_instance

instance (filenames : List String) : Reader.Forward (read filenames) := by
  unfold read readBy; infer_instance

def lineAt (file : FileLines) (pc : UInt32) : Option UInt16 := file.lines.lineAt file.start pc

end FileLines

structure Location where
  filename : String
  line : UInt16
  deriving DecidableEq

end RiteImage
