import RiteImage.Proofs.SectionLayout
import RiteImage.Proofs.TreeWriting

namespace RiteImage

open Reader

structure LiteralDraft where
  tag : UInt8
  payload : ByteArray
  literal : Literal
  short : payload.size < 2 ^ 16
  means : Literal.Means tag payload literal

inductive SymbolDraft
  | anonymous
  | named (name : String) (short : name.utf8ByteSize < 0xFFFF)

structure IrepDraft where
  localCount : UInt16
  registerCount : UInt16
  opcodes : List UInt32
  pool : List LiteralDraft
  symbols : List SymbolDraft
  opcodes_lt : opcodes.length < 2 ^ 32
  pool_lt : pool.length < 2 ^ 32
  symbols_lt : symbols.length < 2 ^ 32

structure FileDraft where
  start : UInt32
  filenameIndex : UInt16
  lines : LineTable
  lines_lt : lines.size < 2 ^ 32

structure DebugDraft where
  files : List FileDraft
  files_lt : files.length < 2 ^ 16

/-- A size in four bytes that counts itself and all that follows it. -/
def sized (content : List UInt8) : List UInt8 := wordBytes 4 (4 + content.length) ++ content

def LiteralDraft.bytes (d : LiteralDraft) : List UInt8 :=
  [d.tag] ++ wordBytes 2 d.payload.size ++ d.payload.data.toList

namespace SymbolDraft

def bytes : SymbolDraft → List UInt8
  | anonymous => wordBytes 2 0xFFFF
  | named name _ => wordBytes 2 name.utf8ByteSize ++ name.toUTF8.data.toList ++ [0]

def text : SymbolDraft → String
  | anonymous => ""
  | named name _ => name

end SymbolDraft

namespace IrepDraft

/-- All but the size, which stands at `start`. Zeros fill up to a multiple of four. -/
def content (start : Nat) (d : IrepDraft) (childCount : Nat) : List UInt8 :=
  wordBytes 2 d.localCount.toNat ++ wordBytes 2 d.registerCount.toNat ++
  wordBytes 2 childCount ++ wordBytes 4 d.opcodes.length ++
  List.replicate (-(start + 14 : Int) % 4).toNat 0 ++
  d.opcodes.flatMap (fun opcode => wordBytes 4 opcode.toNat) ++
  wordBytes 4 d.pool.length ++ d.pool.flatMap LiteralDraft.bytes ++
  wordBytes 4 d.symbols.length ++ d.symbols.flatMap SymbolDraft.bytes

def bytes (start : Nat) (d : IrepDraft) (childCount : Nat) : List UInt8 :=
  sized (d.content start childCount)

def record (start : Nat) (d : IrepDraft) (childCount : Nat) : Irep :=
  ⟨start, UInt32.ofNat (d.bytes start childCount).length, d.localCount, d.registerCount, d.opcodes,
    d.pool.map LiteralDraft.literal, d.symbols.map SymbolDraft.text⟩

end IrepDraft

namespace FileDraft

def bytes (d : FileDraft) : List UInt8 :=
  wordBytes 4 d.start.toNat ++ wordBytes 2 d.filenameIndex.toNat ++
  wordBytes 4 d.lines.size ++ [d.lines.encoding.tag] ++ d.lines.bytes

def file (filenames : List String) (d : FileDraft) : FileLines :=
  ⟨d.start, d.filenameIndex, filenames[d.filenameIndex.toNat]?.getD "", d.lines⟩

end FileDraft

namespace DebugDraft

def bytes (d : DebugDraft) : List UInt8 :=
  sized (wordBytes 2 d.files.length ++ d.files.flatMap FileDraft.bytes)

def record (filenames : List String) (start : Nat) (d : DebugDraft) : DebugRecord :=
  ⟨start, UInt32.ofNat d.bytes.length, d.files.map (FileDraft.file filenames)⟩

end DebugDraft

@[simp] theorem length_sized (content : List UInt8) :
    (sized content).length = 4 + content.length := by
  rw [sized, List.length_append, length_wordBytes]

theorem LiteralDraft.written (d : LiteralDraft) : d.literal.Written d.bytes :=
  ⟨d.tag, d.payload, d.short, d.means, rfl⟩

theorem SymbolDraft.written (d : SymbolDraft) : Symbol.Written d.text d.bytes := by
  cases d with
  | anonymous => exact .inl ⟨rfl, rfl⟩
  | named name short => exact .inr ⟨name.toUTF8, 0, short, (Utf8.decode_toUTF8 name).symm, rfl⟩

theorem forall₂_written {δ α : Type} {written : α → List UInt8 → Prop} {value : δ → α}
    {bytes : δ → List UInt8} (each : ∀ d, written (value d) (bytes d)) (ds : List δ) :
    List.Forall₂ written (ds.map value) (ds.map bytes) := by
  rw [List.forall₂_map_left_iff, List.forall₂_map_right_iff, List.forall₂_same]
  exact fun d _ => each d

theorem IrepDraft.written {start childCount : Nat} {d : IrepDraft} (countable : childCount < 2 ^ 16)
    (short : (d.bytes start childCount).length < 2 ^ 32) (rules : Strictness) :
    Irep.WrittenUnder rules start (d.record start childCount) childCount
      (d.bytes start childCount) := by
  have size : (UInt32.ofNat (d.bytes start childCount).length).toNat =
      (d.bytes start childCount).length := UInt32.toNat_ofNat_of_lt' short
  have fill : ((-(start + 14 : Int) % 4).toNat : Int) = -(start + 14 : Int) % 4 :=
    Int.toNat_of_nonneg (Int.emod_nonneg _ (by decide))
  have pool_lt : (d.pool.map LiteralDraft.literal).length < 2 ^ 32 :=
    lt_of_eq_of_lt (List.length_map _) d.pool_lt
  have symbols_lt : (d.symbols.map SymbolDraft.text).length < 2 ^ 32 :=
    lt_of_eq_of_lt (List.length_map _) d.symbols_lt
  have literals := forall₂_written LiteralDraft.written d.pool
  have symbols := forall₂_written SymbolDraft.written d.symbols
  refine ⟨⟨rfl, countable, d.opcodes_lt, pool_lt, symbols_lt,
    List.replicate (-(start + 14 : Int) % 4).toNat 0, d.pool.map LiteralDraft.bytes,
    d.symbols.map SymbolDraft.bytes, ?_, literals, symbols, ?_⟩, fun _ => size.symm⟩
  · rw [List.length_replicate, fill]
  · change sized _ = wordBytes 4 (UInt32.ofNat (d.bytes start childCount).length).toNat ++ _ ++ _ ++
      _ ++ _ ++ _ ++ _ ++ _ ++ _ ++ _ ++ _
    rw [size, bytes, length_sized]
    simp only [sized, content, record, List.length_map, List.flatMap_def, List.append_assoc]

theorem FileDraft.bytes_file (filenames : List String) (d : FileDraft) :
    (d.file filenames).bytes = d.bytes := rfl

namespace DebugDraft

def RefersBelow (count : Nat) (d : DebugDraft) : Prop :=
  ∀ file ∈ d.files, file.filenameIndex.toNat < count

theorem bytes_record {filenames : List String} {start : Nat} {d : DebugDraft}
    (short : d.bytes.length < 2 ^ 32) : (d.record filenames start).bytes = d.bytes := by
  have size : (UInt32.ofNat d.bytes.length).toNat = d.bytes.length :=
    UInt32.toNat_ofNat_of_lt' short
  rw [DebugRecord.bytes, record, size, bytes, length_sized, sized, List.length_map,
    List.flatMap_map, List.append_assoc]
  simp only [FileDraft.bytes_file]

theorem written {filenames : List String} {start : Nat} {d : DebugDraft}
    (refers : d.RefersBelow filenames.length) (short : d.bytes.length < 2 ^ 32) :
    DebugRecord.Written start (d.record filenames start) d.bytes ∧
      (d.record filenames start).Named filenames ∧ (d.record filenames start).Exact := by
  have same : (d.record filenames start).bytes = d.bytes := bytes_record short
  have files_lt : (d.record filenames start).files.length < 2 ^ 16 :=
    lt_of_eq_of_lt (List.length_map _) d.files_lt
  have lines_lt : ∀ file ∈ (d.record filenames start).files, file.lines.size < 2 ^ 32 := by
    intro file found
    obtain ⟨draft, _, rfl⟩ := List.mem_map.mp found
    exact draft.lines_lt
  have named : (d.record filenames start).Named filenames := by
    intro file found
    obtain ⟨draft, member, rfl⟩ := List.mem_map.mp found
    rw [FileDraft.file, List.getElem?_eq_getElem (refers draft member), Option.getD_some]
  have exactly : (d.record filenames start).Exact := by
    rw [DebugRecord.Exact, same]
    exact UInt32.toNat_ofNat_of_lt' short
  exact ⟨⟨rfl, files_lt, lines_lt, same.symm⟩, named, exactly⟩

end DebugDraft

end RiteImage
