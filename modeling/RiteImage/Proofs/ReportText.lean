import RiteImage.Command.Answer
import RiteImage.Proofs.JsonText
import RiteImage.Proofs.TableText

/-! Reports as they are printed.
An object of a list tells the number and the depth of its entry in fields of their own. A
row of a table tells them too: the name of a record stands behind two blanks and two more
for every level above it. -/
namespace RiteImage

namespace Text

/-- A cell of one word, which may be indented. -/
structure Worded (cell : String) (word : String) : Prop where
  indented : ∃ size, cell = Table.blank size ++ word
  nonempty : word.toList ≠ []
  other : ∀ c ∈ word.toList, isBlank c = false

namespace Worded

variable {cell word : String}

theorem of_word (nonempty : word.toList ≠ []) (other : ∀ c ∈ word.toList, isBlank c = false) :
    Worded word word :=
  ⟨⟨0, by simp [Table.blank]⟩, nonempty, other⟩

theorem single (worded : Worded cell word) : '\n' ∉ cell.toList := by
  obtain ⟨⟨size, rfl⟩, -, other⟩ := worded
  intro member
  simp only [Table.blank, String.toList_append, String.toList_ofList, List.mem_append,
    List.mem_replicate] at member
  rcases member with ⟨-, impossible⟩ | inside
  · simp at impossible
  · have blank : isBlank '\n' = true := (isBlank_iff '\n').mpr (by simp [WhiteSpace])
    exact Bool.false_ne_true ((other '\n' inside).symm.trans blank)

end Worded

end Text

namespace Table

open Text

variable {row said : List String}

end Table

namespace Json

def field? (key : String) : Json → Option Json
  | object fields => fields.lookup key
  | _ => none

end Json

namespace Report

open Text Table

structure RecordEntry.Object (r : RecordEntry) (value : Json) : Prop where
  index : value.field? "index" = some (.number r.index)
  depth : value.field? "depth" = some (.number r.depth)
  offset : value.field? "offset" = some (.text r.offset)
  locals : value.field? "nlocals" = some (.number r.localCount)
  registers : value.field? "nregs" = some (.number r.registerCount)
  opcodeCount : value.field? "opcode_count" = some (.number r.opcodeCount)
  pool : value.field? "pool" = some (.list (r.pool.map .text))
  symbols : value.field? "symbols" = some (.list (r.symbols.map .text))
  children : value.field? "children" = some (.number r.childCount)
  code : value.field? "opcodes" = r.opcodes.map fun words => .list (words.map .text)

structure FileEntry.Object (f : FileEntry) (value : Json) : Prop where
  filename : value.field? "filename" = some (.text f.filename)
  start : value.field? "start_pos" = some (.number f.start)
  encoding : value.field? "encoding" = some (.text f.encoding)
  lines : ∃ items, value.field? "lines" = some (.list items) ∧
    List.Forall₂ (fun (pc, line) item => item.field? "pc" = some (.number pc) ∧
      item.field? "line" = some (.number line)) f.lines items

structure LinesEntry.Object (r : LinesEntry) (value : Json) : Prop where
  index : value.field? "index" = some (.number r.index)
  depth : value.field? "depth" = some (.number r.depth)
  offset : value.field? "offset" = some (.text r.offset)
  files : ∃ items, value.field? "files" = some (.list items) ∧
    List.Forall₂ FileEntry.Object r.files items

theorem RecordEntry.object (r : RecordEntry) : r.Object r.toJson := by
  cases r with
  | mk _ _ _ _ _ _ _ _ _ opcodes => cases opcodes <;> constructor <;> rfl

theorem FileEntry.object (f : FileEntry) : f.Object f.toJson := by
  refine ⟨rfl, rfl, rfl, _, rfl, ?_⟩
  rw [List.forall₂_map_right_iff, List.forall₂_same]
  exact fun _ _ => ⟨rfl, rfl⟩

theorem LinesEntry.object (r : LinesEntry) : r.Object r.toJson := by
  refine ⟨rfl, rfl, rfl, _, rfl, ?_⟩
  rw [List.forall₂_map_right_iff, List.forall₂_same]
  exact fun f _ => f.object

namespace Records

variable {records : Records} {r : RecordEntry}

end Records

namespace FileEntry

variable {f : FileEntry}

end FileEntry

end Report

namespace Command

end Command

end RiteImage
