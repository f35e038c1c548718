import RiteImage.Header
import RiteImage.Image.Section

namespace RiteImage

structure Image where
  header : Header
  sections : Array Section
  deriving BEq

structure Visit where
  depth : Nat
  tree : Tree Irep
  debug : Option (Tree DebugRecord)

def Visit.record (v : Visit) : Irep := v.tree.label

def Visit.lines (v : Visit) : Option DebugRecord := v.debug.map Tree.label

namespace Image

def readBy {m : Type → Type} {Position : Type} [Monad m] (p : Primitives m Position)
    (rules : Strictness) (header : m Header) (sections : m (Array Section)) : m Image := do
  let header ← header
  p.require (!rules.enforceMagic || header.hasMagic) (.malformed (.wrongMagic header.magic))
  let sections ← sections
  pure ⟨header, sections⟩

def read (rules : Strictness) : Reader Image :=
  readBy Reader.primitives rules Header.read (Section.readAll rules)

def decode (rules : Strictness) (bytes : ByteArray) : Outcome Image := read rules bytes 0

def irepSections (image : Image) : List IrepSection :=
  image.sections.toList.filterMap fun
    | .irep s => some s
    | _ => none

def debugSections (image : Image) : List DebugSection :=
  image.sections.toList.filterMap fun
    | .debug s => some s
    | _ => none

def irep (image : Image) : Option IrepSection := image.irepSections.getLast?

def linesOf (image : Image) (s : IrepSection) : Option DebugSection := do
  let index ← s.debug
  match image.sections[index]? with
  | some (.debug found) => some found
  | _ => none

def treeOf (image : Image) (s : DebugSection) : Option IrepSection :=
  match image.sections[s.irep]? with
  | some (.irep found) => some found
  | _ => none

/-- Every record of a tree in pre-order, with the record at the same place of its line tables. -/
def visits (image : Image) (s : IrepSection) : List Visit :=
  (s.root.pairing 0 ((image.linesOf s).map DebugSection.root)).map fun (depth, tree, debug) =>
    ⟨depth, tree, debug⟩

end Image

end RiteImage
