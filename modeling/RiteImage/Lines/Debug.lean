import RiteImage.Lines.File
import RiteImage.Strictness

/-! Line tables for an instruction tree.
A section of them has a dictionary of filenames and one record per instruction
record. It does not say how many children a record has: its tree has the shape of
the instruction tree before it. -/
namespace RiteImage

structure DebugRecord where
  offset : Nat
  recordSize : UInt32
  files : List FileLines
  deriving DecidableEq

namespace DebugRecord

section Steps

variable {m : Type → Type} {Position : Type} [Monad m] (p : Primitives m Position)

def readBy (rules : Strictness) (filenames : List String) : m DebugRecord := do
  let offset ← p.position
  let recordSize ← p.u32
  let fileCount ← p.u16
  let files ← p.replicate fileCount.toNat (FileLines.readBy p filenames)
  p.checkSize rules .debugRecord offset recordSize
  pure ⟨p.offset offset, recordSize, files⟩

def readTreeBy {α : Type} (rules : Strictness) (filenames : List String) (shape : Tree α) :
    m (Tree DebugRecord) :=
  shape.mapM fun _ => readBy p rules filenames

end Steps

abbrev read (rules : Strictness) (filenames : List String) : Reader DebugRecord :=
  readBy Reader.primitives rules filenames

instance (rules : Strictness) (filenames : List String) :
    Reader.Forward (read rules filenames) := by
  unfold read readBy; infer_instance

abbrev readTree {α : Type} (rules : Strictness) (filenames : List String) (shape : Tree α) :
    Reader (Tree DebugRecord) :=
  readTreeBy Reader.primitives rules filenames shape

instance {α : Type} (rules : Strictness) (filenames : List String) (shape : Tree α) :
    Reader.Forward (readTree rules filenames shape) :=
  Reader.kept_forward.mapM (g := fun _ => read rules filenames) (fun _ => inferInstance) shape

/-- Only the last file that starts at or before the instruction is asked. -/
def locate (record : DebugRecord) (pc : UInt32) : Option Location := do
  let file ← record.files.reverse.find? fun file => file.start ≤ pc
  let line ← file.lineAt pc
  some ⟨file.filename, line⟩

end DebugRecord

structure DebugSection where
  offset : Nat
  size : UInt32
  filenames : List String
  root : Tree DebugRecord
  /-- The index of the section whose tree has the same shape. -/
  irep : Nat
  deriving BEq

namespace DebugSection

section Steps

variable {m : Type → Type} {Position : Type} [Monad m] (p : Primitives m Position)

def readNameBy : m String := do
  let length ← p.u16
  let name ← p.take length
  pure (Utf8.decode name)

def readNamesBy : m (List String) := do
  let count ← p.u16
  p.replicate count.toNat (readNameBy p)

/-- Starts at the tag, which is not looked at, and stops after the tree. -/
def readForBy {α : Type} (rules : Strictness) (irep : Nat) (shape : Tree α) : m DebugSection := do
  let offset ← p.position
  let _ ← p.tag
  let size ← p.u32
  let filenames ← readNamesBy p
  let root ← DebugRecord.readTreeBy p rules filenames shape
  p.checkSize rules .debugSection offset size
  pure ⟨p.offset offset, size, filenames, root, irep⟩

/-- Without an instruction tree before it nothing of a section is read. -/
def refuseBy {α : Type} : m α := do
  let offset ← p.position
  p.fail (.orphanLines (p.offset offset))

def readBy {α : Type} (rules : Strictness) : Option (Nat × Tree α) → m DebugSection
  | some (irep, shape) => readForBy p rules irep shape
  | none => refuseBy p

end Steps

abbrev readName : Reader String := readNameBy Reader.primitives

abbrev readNames : Reader (List String) := readNamesBy Reader.primitives

abbrev readFor {α : Type} (rules : Strictness) (irep : Nat) (shape : Tree α) :
    Reader DebugSection :=
  readForBy Reader.primitives rules irep shape

abbrev refuse {α : Type} : Reader α := refuseBy Reader.primitives

instance : Reader.Forward readName := by unfold readName readNameBy; infer_instance

instance : Reader.Forward readNames := by unfold readNames readNamesBy; infer_instance

instance {α : Type} (rules : Strictness) (irep : Nat) (shape : Tree α) :
    Reader.Advancing (readFor rules irep shape) := by
  unfold readFor readForBy
  exact Reader.advancing_bind_rest _ _ fun _ => Reader.advancing_bind _ _

instance {α : Type} : Reader.Advancing (refuse : Reader α) := ⟨fun _ _ _ ok => by cases ok⟩

abbrev read {α : Type} (rules : Strictness) (irep : Option (Nat × Tree α)) :
    Reader DebugSection :=
  readBy Reader.primitives rules irep

end DebugSection

end RiteImage
