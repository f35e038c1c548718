import RiteImage.Image.Basic
import RiteImage.Proofs.Extent
import RiteImage.Proofs.Stable
import RiteImage.Proofs.Tiling

namespace RiteImage

open Reader

variable {rules : Strictness} {bytes : ByteArray} {start stop : Nat}

def Irep.Exact (bytes : ByteArray) (record : Irep) : Prop :=
  record.offset + record.recordSize.toNat = record.stop bytes

namespace Section

def height : Section → Nat
  | .irep s => s.root.height
  | .debug _ => 0
  | .skipped _ => 0

/-- Every declared size in a section, its own included, counts the bytes that are there. -/
def Exact (bytes : ByteArray) : Section → Prop
  | .irep s => s.root.Every (Irep.Exact bytes) ∧ s.offset + s.size.toNat = s.contentEnd bytes
  | .debug s => s.root.Every DebugRecord.Exact ∧ s.offset + s.size.toNat = s.contentEnd
  | .skipped _ => True

def Holds (bytes : ByteArray) (before : List Section) (s : Section) : Prop :=
  Contains (Strictness.lenient.withDepthLimit s.height) bytes before s

end Section

/-- A header, and behind it linked sections up to an end marker. -/
structure Image.Laid (bytes : ByteArray) (image : Image) : Prop where
  tiles : ∃ start marker, Reads Header.read bytes 0 image.header start ∧
    Section.TilesTo bytes start image.sections.toList marker ∧
    Stands bytes marker Tag.endMarker.bytes ∧ marker + Section.endMarkerSize ≤ bytes.size
  holds : ∀ (i : Nat) (s : Section), image.sections.toList[i]? = some s →
    s.Holds bytes (image.sections.toList.take i)
  linked : Section.Linked image.sections.toList

/-! Rules take sections away and add none. -/

theorem Irep.writtenUnder_iff {offset count : Nat} {record : Irep} {segment : List UInt8}
    (stands : Stands bytes offset segment) :
    WrittenUnder rules offset record count segment ↔
      WrittenUnder .lenient offset record count segment ∧
        (rules.enforceSizes = true → record.Exact bytes) := by
  rw [writtenUnder_lenient (rfl : Strictness.lenient.enforceSizes = false), WrittenUnder]
  refine and_congr_right fun written => imp_congr_right fun _ => ?_
  rw [Exact, written.stop_eq stands, written.offset_eq, Nat.add_left_cancel_iff, eq_comm]

theorem Irep.laid_iff {root : Tree Irep} {segment : List UInt8}
    (stands : Stands bytes start segment) :
    Tree.Laid (WrittenUnder rules) start root segment ↔
      Tree.Laid (WrittenUnder .lenient) start root segment ∧
        (rules.enforceSizes = true → root.Every (Exact bytes)) := by
  rw [Tree.laid_congr_standing (fun _ _ _ _ => writtenUnder_iff) stands, Tree.laid_and]
  refine and_congr_right' ?_
  constructor
  · exact fun every enforced path s found => every path s found enforced
  · exact fun every path s found enforced => every enforced path s found

theorem IrepSection.written_iff {s : IrepSection} {segment : List UInt8}
    (stands : Stands bytes start segment) :
    Written rules start s segment ↔
      Written (Strictness.lenient.withDepthLimit s.root.height) start s segment ∧
        s.root.height ≤ rules.depthLimit ∧
        (rules.enforceSizes = true → (Section.irep s).Exact bytes) := by
  constructor
  · intro written
    have ends := written.contentEnd_eq stands
    obtain ⟨placed, fresh, low, exactly, tag, root, rfl, laid⟩ := written
    have behind := (Stands.append_iff.mp stands).2
    obtain ⟨laid, every⟩ := (Irep.laid_iff behind).mp laid
    refine ⟨⟨placed, fresh, Nat.le_refl _, nofun, tag, root, rfl, laid⟩, low, fun enforced => ?_⟩
    exact ⟨every enforced, by rw [placed, ends, exactly enforced]⟩
  · intro given
    obtain ⟨written, low, exactly⟩ := given
    have ends := written.contentEnd_eq stands
    obtain ⟨placed, fresh, -, -, tag, root, rfl, laid⟩ := written
    have behind := (Stands.append_iff.mp stands).2
    refine ⟨placed, fresh, low, fun enforced => ?_, tag, root, rfl,
      (Irep.laid_iff behind).mpr ⟨laid, fun enforced => (exactly enforced).1⟩⟩
    have total := (exactly enforced).2
    rw [placed, ends] at total
    exact (Nat.add_left_cancel total).symm

theorem DebugSection.written_iff {α : Type} {irep : Nat} {shape : Tree α} {s : DebugSection}
    {segment : List UInt8} :
    Written rules irep shape start s segment ↔
      Written (Strictness.lenient.withDepthLimit 0) irep shape start s segment ∧
        (rules.enforceSizes = true → (Section.debug s).Exact bytes) := by
  constructor
  · intro written
    have ends := written.contentEnd_eq
    obtain ⟨placed, linked, short, same, every, exactly, stands⟩ := written
    refine ⟨⟨placed, linked, short, same, fun path t found => ⟨(every path t found).1, nofun⟩,
      nofun, stands⟩, fun enforced => ⟨fun path t found => (every path t found).2 enforced, ?_⟩⟩
    rw [placed, ends, exactly enforced]
  · intro given
    obtain ⟨written, exactly⟩ := given
    have ends := written.contentEnd_eq
    obtain ⟨placed, linked, short, same, every, -, stands⟩ := written
    refine ⟨placed, linked, short, same, fun path t found => ⟨(every path t found).1,
      fun enforced => (exactly enforced).1 path t found⟩, fun enforced => ?_, stands⟩
    have total := (exactly enforced).2
    rw [placed, ends] at total
    exact (Nat.add_left_cancel total).symm

namespace Section

theorem contains_iff {before : List Section} {s : Section} (inside : s.offset ≤ bytes.size) :
    Contains rules bytes before s ↔ s.Holds bytes before ∧ s.height ≤ rules.depthLimit ∧
      (rules.enforceSizes = true → s.Exact bytes) := by
  cases s with
  | irep s =>
    simp only [Holds, contains_irep_iff inside]
    constructor
    · intro h
      obtain ⟨segment, stands, written, covers⟩ := h
      obtain ⟨written, asked⟩ := (IrepSection.written_iff stands).mp written
      exact ⟨⟨segment, stands, written, covers⟩, asked⟩
    · intro h
      obtain ⟨⟨segment, stands, written, covers⟩, asked⟩ := h
      exact ⟨segment, stands, (IrepSection.written_iff stands).mpr ⟨written, asked⟩, covers⟩
  | debug s =>
    simp only [Holds, contains_debug_iff inside, height, Nat.zero_le, true_and]
    constructor
    · intro h
      obtain ⟨t, segment, nearest, stands, written, covers⟩ := h
      obtain ⟨written, asked⟩ := DebugSection.written_iff.mp written
      exact ⟨⟨t, segment, nearest, stands, written, covers⟩, asked⟩
    · intro h
      obtain ⟨⟨t, segment, nearest, stands, written, covers⟩, asked⟩ := h
      exact ⟨t, segment, nearest, stands, DebugSection.written_iff.mpr ⟨written, asked⟩, covers⟩
  | skipped s => simp [Contains, Holds, height, Exact]

theorem decoded_iff {sections : List Section}
    (inside : ∀ s ∈ sections, s.offset ≤ bytes.size) :
    Decoded rules bytes sections ↔
      (∀ (i : Nat) (s : Section), sections[i]? = some s → s.Holds bytes (sections.take i)) ∧
        (∀ s ∈ sections, s.height ≤ rules.depthLimit) ∧
        (rules.enforceSizes = true → ∀ s ∈ sections, s.Exact bytes) := by
  constructor
  · intro decoded
    have here (i : Nat) (s : Section) (found : sections[i]? = some s) :=
      (contains_iff (inside s (List.mem_of_getElem? found))).mp (decoded i s found)
    refine ⟨fun i s found => (here i s found).1, fun s mem => ?_, fun enforced s mem => ?_⟩
    · obtain ⟨i, found⟩ := List.getElem?_of_mem mem
      exact (here i s found).2.1
    · obtain ⟨i, found⟩ := List.getElem?_of_mem mem
      exact (here i s found).2.2 enforced
  · intro given i s found
    obtain ⟨holds, low, exactly⟩ := given
    have mem := List.mem_of_getElem? found
    exact (contains_iff (inside s mem)).mpr
      ⟨holds i s found, low s mem, fun enforced => exactly enforced s mem⟩

end Section

namespace Image

theorem reads_read_iff {image : Image} :
    Reads (read rules) bytes 0 image stop ↔
      (rules.enforceMagic = true → image.header.magic = Tag.magic) ∧
        ∃ start, Reads Header.read bytes 0 image.header start ∧
          Section.Tiling rules bytes start image.sections.toList stop := by
  rw [reads_iff]
  constructor
  · intro h
    obtain ⟨magic, start, first, rest⟩ := h
    exact ⟨magic, start, first, Section.tiling_of_run (Section.reads_readAll_iff.mp rest)
      (Section.reached_nil (le_size_of_reads_header first))⟩
  · intro h
    obtain ⟨magic, start, first, tiling⟩ := h
    exact ⟨magic, start, first,
      Section.reads_readAll_of_tiling (le_size_of_reads_header first) tiling⟩

theorem tiling_of_ok {image : Image} (ok : (decode rules bytes).result = .ok image) :
    Reads Header.read bytes 0 image.header Header.byteCount ∧
      Section.Tiling rules bytes Header.byteCount image.sections.toList
        (decode rules bytes).position := by
  obtain ⟨-, start, head, tiling⟩ := reads_read_iff.mp ⟨ok, rfl⟩
  have here := stop_of_reads_header head
  rw [Nat.zero_add] at here
  subst here
  exact ⟨head, tiling⟩

/-- Rules ask for something of an image that is there, and change nothing about it. -/
theorem result_decode_iff {image : Image} :
    (decode rules bytes).result = .ok image ↔ image.Laid bytes ∧
      (∀ s ∈ image.sections, s.height ≤ rules.depthLimit) ∧
      (rules.enforceSizes = true → ∀ s ∈ image.sections, s.Exact bytes) ∧
      (rules.enforceMagic = true → image.header.magic = Tag.magic) := by
  simp only [← Array.mem_toList_iff]
  have within {start marker : Nat}
      (tiles : Section.TilesTo bytes start image.sections.toList marker)
      (fits : marker + Section.endMarkerSize ≤ bytes.size) :
      ∀ s ∈ image.sections.toList, s.offset ≤ bytes.size := by
    intro s mem
    have := tiles.stop_le_of_mem mem
    omega
  constructor
  · intro ok
    obtain ⟨magic, start, first, ⟨marker, tiles, mark, stop, fits⟩, decoded, linked⟩ :=
      reads_read_iff.mp (⟨ok, rfl⟩ : Reads (read rules) bytes 0 image _)
    rw [stop] at fits
    obtain ⟨holds, low, exactly⟩ := (Section.decoded_iff (within tiles fits)).mp decoded
    exact ⟨⟨⟨start, marker, first, tiles, mark, fits⟩, holds, linked⟩, low, exactly, magic⟩
  · intro given
    obtain ⟨⟨⟨start, marker, first, tiles, mark, fits⟩, holds, linked⟩, low, exactly, magic⟩ :=
      given
    have decoded := (Section.decoded_iff (within tiles fits)).mpr ⟨holds, low, exactly⟩
    have read := reads_read_iff.mpr
      ⟨magic, start, first, ⟨marker, tiles, mark, rfl, fits⟩, decoded, linked⟩
    exact read.1

end Image

end RiteImage
