import Mathlib.Algebra.GroupWithZero.Nat
import RiteImage.Proofs.ImageLayout
import RiteImage.Proofs.ImageWalk
import RiteImage.Proofs.TreePlaces

/-! Declared sizes as a chain.
Where sizes are enforced, a record counts its own bytes and not those of its children. So in
pre-order every record starts where the size of the one before it ends, however they are nested,
and the last one ends where its section does. -/
namespace RiteImage

open Reader

/-- Items one after another, each as long as its size says, from a start to a stop. -/
inductive Chained {α : Type} (offset size : α → Nat) : Nat → List α → Nat → Prop
  | nil (start : Nat) : Chained offset size start [] start
  | cons {start stop : Nat} {a : α} {rest : List α} (here : offset a = start)
      (behind : Chained offset size (start + size a) rest stop) :
      Chained offset size start (a :: rest) stop

namespace Chained

variable {α : Type} {offset size : α → Nat} {start middle stop : Nat} {one two : List α}

theorem append (first : Chained offset size start one middle)
    (second : Chained offset size middle two stop) :
    Chained offset size start (one ++ two) stop := by
  induction first with
  | nil start => exact second
  | cons here _ ih => exact .cons here (ih second)

theorem stop_eq (chained : Chained offset size start one stop) :
    stop = start + (one.map size).sum := by
  induction chained with
  | nil start => simp
  | cons here _ ih => simp [ih, Nat.add_assoc]

end Chained

namespace Tree

variable {α : Type} {own : Nat → α → Nat → List UInt8 → Prop} {offset size : α → Nat}

theorem chained_each {ts : List (Tree α)} {start : Nat} {bytes : List UInt8}
    (each : ∀ t ∈ ts, ∀ start bytes, Laid own start t bytes →
      Chained offset size start (t.stackOrder.map label) (start + bytes.length))
    (laid : Layout.each (Laid own) start ts bytes) :
    Chained offset size start ((ts.flatMap stackOrder).map label) (start + bytes.length) := by
  induction ts generalizing start bytes with
  | nil =>
    obtain rfl : bytes = [] := laid
    exact .nil start
  | cons t ts ih =>
    obtain ⟨head, rest, rfl, first, others⟩ := laid
    have one := each t List.mem_cons_self _ _ first
    have two := ih (fun u member => each u (List.mem_cons_of_mem t member)) others
    simpa [Nat.add_assoc] using one.append two

theorem chained_laid
    (exactly : ∀ start a count segment, own start a count segment →
      offset a = start ∧ segment.length = size a)
    {t : Tree α} {start : Nat} {bytes : List UInt8} (laid : Laid own start t bytes) :
    Chained offset size start (t.stackOrder.map label) (start + bytes.length) := by
  induction t generalizing start bytes with
  | node a ts ih =>
    obtain ⟨head, rest, rfl, first, others⟩ := laid_node.mp laid
    obtain ⟨here, length⟩ := exactly _ _ _ _ first
    have below := chained_each (fun t member start bytes => ih t member) others
    rw [stackOrder_node, List.map_cons, List.length_append, ← Nat.add_assoc]
    apply Chained.cons here
    rwa [← length]

end Tree

variable {rules : Strictness} {bytes : ByteArray} {start stop : Nat}

theorem IrepSection.Written.chained {s : IrepSection} {segment : List UInt8}
    (enforced : rules.enforceSizes = true) (written : Written rules start s segment) :
    Chained Irep.offset (·.recordSize.toNat) (start + 12) (s.root.stackOrder.map Tree.label)
      (start + s.size.toNat) := by
  obtain ⟨tag, root, whole, laid⟩ := written.bytes_eq
  have chained : Chained Irep.offset (·.recordSize.toNat) (start + 12)
      (s.root.stackOrder.map Tree.label) (start + 12 + root.length) :=
    Tree.chained_laid (fun _ _ _ _ own => ⟨own.1.offset_eq, own.2 enforced⟩) laid
  have length := written.exactly enforced
  rw [whole] at length
  simp only [List.length_append, Tag.length_bytes, length_wordBytes] at length
  rwa [show start + s.size.toNat = start + 12 + root.length by omega]

theorem DebugSection.Written.chained {α : Type} {irep : Nat} {shape : Tree α} {d : DebugSection}
    {segment : List UInt8} (enforced : rules.enforceSizes = true)
    (written : Written rules irep shape start d segment) :
    Chained DebugRecord.offset (·.recordSize.toNat) d.root.label.offset
      (d.root.stackOrder.map Tree.label) (start + d.size.toNat) := by
  obtain ⟨tag, names, root, whole, -, laid⟩ := written.bytes_eq
  have here : d.root.label.offset = start + 10 + names.flatten.length :=
    Tree.offset_label (fun _ _ _ _ own => own.offset_eq) laid
  have chained : Chained DebugRecord.offset (·.recordSize.toNat)
      (start + 10 + names.flatten.length) (d.root.stackOrder.map Tree.label)
      (start + 10 + names.flatten.length + root.length) := by
    apply Tree.chained_laid ?_ (Tree.laid_and.mpr ⟨laid, written.every⟩)
    intro start record count segment own
    obtain ⟨own, -, exactly⟩ := own
    exact ⟨own.offset_eq, by rw [own.bytes_eq, exactly enforced]⟩
  have length := written.exactly enforced
  rw [whole] at length
  simp only [List.length_append, Tag.length_bytes, length_wordBytes] at length
  rwa [here, show start + d.size.toNat = start + 10 + names.flatten.length + root.length by omega]

theorem Section.TilesTo.chained {sections : List Section}
    (tiles : TilesTo bytes start sections stop) :
    Chained offset (·.size.toNat) start sections stop := by
  induction sections generalizing start with
  | nil =>
    obtain rfl : stop = start := tiles
    exact .nil stop
  | cons s rest ih =>
    obtain ⟨placed, tiles⟩ := tiles
    exact .cons placed.1 (ih tiles)

namespace Image

/-- Under rules that enforce sizes, sections follow one another up to the end marker, and so do the
records of each tree and of each line tables within their section. -/
theorem decode_chained {image : Image} (enforced : rules.enforceSizes = true)
    (ok : (decode rules bytes).result = .ok image) :
    (∃ marker, Stands bytes marker Tag.endMarker.bytes ∧
      Chained Section.offset (·.size.toNat) Header.byteCount image.sections.toList marker) ∧
    (∀ s, .irep s ∈ image.sections →
      Chained Irep.offset (·.recordSize.toNat) (s.offset + 12) (s.root.stackOrder.map Tree.label)
        (s.offset + s.size.toNat) ∧
      s.size.toNat = 12 + (s.root.stackOrder.map (·.label.recordSize.toNat)).sum) ∧
    ∀ d, .debug d ∈ image.sections →
      Chained DebugRecord.offset (·.recordSize.toNat) d.root.label.offset
        (d.root.stackOrder.map Tree.label) (d.offset + d.size.toNat) := by
  obtain ⟨-, tiling⟩ := tiling_of_ok ok
  have inside (s : Section) (mem : s ∈ image.sections.toList) : s.offset ≤ bytes.size :=
    Nat.le_trans (Nat.le_add_right _ _) (tiling.stop_le_of_mem mem)
  simp only [← Array.mem_toList_iff]
  refine ⟨?_, fun s mem => ?_, fun d mem => ?_⟩
  · obtain ⟨marker, tiles, mark, -⟩ := tiling.tiles
    exact ⟨marker, mark, tiles.chained⟩
  · obtain ⟨i, found⟩ := List.getElem?_of_mem mem
    obtain ⟨segment, -, written, -⟩ :=
      (Section.contains_irep_iff (inside _ mem)).mp (tiling.decoded i _ found)
    have chained := written.chained enforced
    refine ⟨chained, ?_⟩
    have total := chained.stop_eq
    rw [List.map_map, Nat.add_assoc] at total
    exact Nat.add_left_cancel total
  · obtain ⟨i, found⟩ := List.getElem?_of_mem mem
    obtain ⟨t, segment, -, -, written, -⟩ :=
      (Section.contains_debug_iff (inside _ mem)).mp (tiling.decoded i _ found)
    exact written.chained enforced

/-- The second record is a child of the first. -/
theorem decode_chained_paired : Strictness.strict.enforceSizes = true ∧
    (decode .strict pairedBytes).result = .ok pairedImage ∧
    Chained Irep.offset (·.recordSize.toNat) 34 ((pairedTree none).root.stackOrder.map Tree.label)
      80 := by
  have ok := (reads_paired .strict (by decide)).1
  obtain ⟨-, trees, -⟩ := decode_chained rfl ok
  exact ⟨rfl, ok, (trees (pairedTree (some 1)) (by simp [pairedImage])).1⟩

end Image

end RiteImage
