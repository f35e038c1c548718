import RiteImage.Code.Literal
import RiteImage.Data.Tree
import RiteImage.Strictness

/-! Instruction trees.
A record is one block of code with its literals and symbols, and the blocks nested
in it follow it one after another. Nothing outside a record says where it ends. -/
namespace RiteImage

structure Irep where
  offset : Nat
  recordSize : UInt32
  localCount : UInt16
  registerCount : UInt16
  opcodes : List UInt32
  pool : List Literal
  symbols : List String
  deriving BEq

namespace Symbol

/-- The length of a symbol without a name, which has neither bytes nor a terminator. -/
def anonymousLength : UInt16 := 0xFFFF

variable {m : Type → Type} {Position : Type} [Monad m] (p : Primitives m Position)

/-- A name is followed by one byte that is not looked at. -/
def readNameBy (length : UInt16) : m String := do
  let name ← p.take length
  p.skipByte
  pure (Utf8.decode name)

def readBy : m String := do
  let length ← p.u16
  if length = anonymousLength then pure "" else readNameBy p length

abbrev readName (length : UInt16) : Reader String := readNameBy Reader.primitives length

abbrev read : Reader String := readBy Reader.primitives

instance (length : UInt16) : Reader.Forward (readName length) := by
  unfold readName readNameBy; infer_instance

instance : Reader.Forward read := by unfold read readBy; infer_instance

end Symbol

def readTableBy {m : Type → Type} {Position α : Type} [Monad m] (p : Primitives m Position)
    (entry : m α) : m (List α) := do
  let count ← p.u32
  p.replicate count.toNat entry

abbrev readTable {α : Type} (entry : Reader α) : Reader (List α) :=
  readTableBy Reader.primitives entry

instance {α : Type} (entry : Reader α) [Reader.Forward entry] :
    Reader.Forward (readTable entry) := by
  unfold readTable readTableBy; infer_instance

namespace Irep

def readBy {m : Type → Type} {Position : Type} [Monad m] (p : Primitives m Position)
    (rules : Strictness) : m (Irep × Nat) := do
  let offset ← p.position
  let recordSize ← p.u32
  let localCount ← p.u16
  let registerCount ← p.u16
  let childCount ← p.u16
  let opcodeCount ← p.u32
  p.alignWord
  let opcodes ← p.replicate opcodeCount.toNat p.u32
  let pool ← readTableBy p (Literal.readBy p)
  let symbols ← readTableBy p (Symbol.readBy p)
  p.checkSize rules .irep offset recordSize
  p.log (.irep (p.offset offset) opcodes.length pool.length symbols.length childCount.toNat)
  pure (⟨p.offset offset, recordSize, localCount, registerCount, opcodes, pool, symbols⟩,
    childCount.toNat)

abbrev read (rules : Strictness) : Reader (Irep × Nat) := readBy Reader.primitives rules

instance (rules : Strictness) : Reader.Forward (read rules) := by
  unfold read readBy; infer_instance

def nodeBy {m : Type → Type} [Monad m] (many : Nat → m (Tree Irep) → m (List (Tree Irep)))
    (record : m (Irep × Nat)) (child : m (Tree Irep)) : m (Tree Irep) := do
  let found ← record
  let children ← many found.2 child
  pure (.node found.1 children)

def readTree (rules : Strictness) : Nat → Reader (Tree Irep)
  | 0 => Reader.fail (.tooDeep rules.depthLimit)
  | levels + 1 => nodeBy Reader.replicate (read rules) (readTree rules levels)

instance (rules : Strictness) (levels : Nat) : Reader.Forward (readTree rules levels) := by
  induction levels with
  | zero => unfold readTree; infer_instance
  | succ levels ih => unfold readTree nodeBy; infer_instance

/-- The levels left for a record at `depth`, itself included. -/
def levelsBelow (rules : Strictness) (depth : Nat) : Nat := rules.depthLimit + 1 - depth

def readAtDepth (rules : Strictness) (depth : Nat) : Reader (Tree Irep) :=
  readTree rules (levelsBelow rules depth)

instance (rules : Strictness) (depth : Nat) : Reader.Forward (readAtDepth rules depth) := by
  unfold readAtDepth; infer_instance

end Irep

structure IrepSection where
  offset : Nat
  size : UInt32
  stamp : Tag
  root : Tree Irep
  /-- The index of the last section with line tables for this tree. -/
  debug : Option Nat
  deriving BEq

/-- Starts at the tag, which is not looked at, and stops after the tree. -/
def IrepSection.readBy {m : Type → Type} {Position : Type} [Monad m] (p : Primitives m Position)
    (rules : Strictness) (tree : m (Tree Irep)) : m IrepSection := do
  let offset ← p.position
  let _ ← p.tag
  let size ← p.u32
  let stamp ← p.tag
  let root ← tree
  p.checkSize rules .irepSection offset size
  pure ⟨p.offset offset, size, stamp, root, none⟩

abbrev IrepSection.read (rules : Strictness) : Reader IrepSection :=
  readBy Reader.primitives rules (Irep.readAtDepth rules 0)

instance (rules : Strictness) : Reader.Advancing (IrepSection.read rules) := by
  unfold IrepSection.read IrepSection.readBy
  exact Reader.advancing_bind_rest _ _ fun _ => Reader.advancing_bind _ _

end RiteImage
