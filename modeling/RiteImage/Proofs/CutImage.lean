import RiteImage.Proofs.Diagnosis
import RiteImage.Proofs.ErrorDetection
import RiteImage.Proofs.RuleEffects

/-! Images that are cut short.
The check value of a cut image may fit by accident, since it covers no more bytes than there
are. Without the check an image lacks bytes wherever it is cut before its end, and the check
itself can only come first: it refuses such an image or changes nothing. -/
namespace RiteImage

open Reader

variable {α : Type} {rules : Strictness} {bytes : ByteArray}

/-- The header without a look at the content that its check value covers. -/
def Header.readUnchecked : Reader Header := readBy primitives fun _ _ => pure ()

def Image.readUnchecked (rules : Strictness) : Reader Image :=
  readBy primitives rules Header.readUnchecked (Section.readAll rules)

instance : Stable Header.readUnchecked := by
  unfold Header.readUnchecked Header.readBy Header.readNamesBy; infer_instance

instance : Stable (Image.readUnchecked rules) := by
  unfold Image.readUnchecked Image.readBy; infer_instance

def Cause.IsChecksum (e : Cause) : Prop := ∃ declared computed, e = .wrongChecksum declared computed

instance (declared : UInt16) (size : UInt32) :
    Narrows Cause.IsChecksum (Header.checkContent declared size) (pure ()) where
  same_unless bytes start := by
    rw [checkContent_eq]
    cases decide (Checksum.compute (Header.content bytes size).data.toList 0 = declared)
    · exact .inr ⟨_, ⟨declared, _, rfl⟩, rfl⟩
    · exact .inl rfl

instance : Narrows Cause.IsChecksum Header.read Header.readUnchecked := by
  unfold Header.read Header.readUnchecked Header.readBy Header.readNamesBy; infer_instance

instance : Narrows Cause.IsChecksum (Image.read rules) (Image.readUnchecked rules) := by
  unfold Image.read Image.readUnchecked Image.readBy; infer_instance

theorem size_extract_zero {count : Nat} (inside : count ≤ bytes.size) :
    (bytes.extract 0 count).size = count := by
  rw [ByteArray.size_extract]
  omega

theorem Stands.append_right {start : Nat} {segment : List UInt8}
    (stands : Stands bytes start segment) (more : ByteArray) :
    Stands (bytes ++ more) start segment := by
  obtain ⟨before, after, whole, length⟩ := stands
  exact ⟨before, after ++ more.data.toList, by simp [whole], length⟩

theorem Stands.of_extract {start count : Nat} {segment : List UInt8}
    (stands : Stands (bytes.extract 0 count) start segment) : Stands bytes start segment :=
  extract_append_extract bytes count ▸ stands.append_right (bytes.extract count bytes.size)

theorem Header.content_extract {size : UInt32} {count : Nat} (inside : count ≤ bytes.size)
    (covered : 10 + size.toNat ≤ count) :
    content (bytes.extract 0 count) size = content bytes size := by
  have cut := size_extract_zero inside
  have same := extract_append (bytes.extract 0 count) (bytes.extract count bytes.size) 10
    (cut.symm ▸ covered)
  rw [extract_append_extract] at same
  rw [content, content, contentStart, cut, Nat.min_eq_left covered,
    Nat.min_eq_left (Nat.le_trans covered inside), same]

namespace Image

variable {image : Image}

theorem truncated_readUnchecked {count : Nat} (ok : (decode rules bytes).result = .ok image)
    (short : count < (decode rules bytes).position) :
    (readUnchecked rules (bytes.extract 0 count) 0).Truncated := by
  have narrows : Narrows Cause.IsChecksum (read rules) (readUnchecked rules) := inferInstance
  rcases narrows.same_unless bytes 0 with same | ⟨e, -, refused⟩
  · rw [decode, same] at ok short
    have cuts := (cutsCleanly_runAt (readUnchecked rules) bytes 0).2 image
    simp only [runAt_of_le (readUnchecked rules) (Nat.zero_le _)] at cuts
    exact (cuts ok count).1 short
  · cases ok.symm.trans refused

theorem checksum_of_cut {header : Header} {declared computed : UInt16} {count : Nat}
    (read : Reads Header.read bytes 0 header Header.byteCount) (inside : count ≤ bytes.size)
    (wrong : (Cause.wrongChecksum declared computed).TrueOf rules (bytes.extract 0 count)) :
    declared = header.checksum ∧ 14 ≤ count ∧ count < 10 + header.size.toNat ∧
      Checksum.compute (Header.content (bytes.extract 0 count) header.size).data.toList 0 ≠
        header.checksum := by
  obtain ⟨three, differs, size, four, computes⟩ := wrong
  obtain ⟨stands, fits⟩ := Header.stands_of_reads read
  rw [Header.headBytes, Stands.append_iff, Stands.append_iff, Stands.append_iff] at stands
  obtain ⟨-, -, three', four'⟩ := stands
  have within := four.le_size
  rw [size_extract_zero inside, length_wordBytes] at within
  obtain ⟨rfl, -⟩ := (accepts_u16.reads_of_stands three.of_extract rfl).unique
    (accepts_u16.reads_of_stands three' rfl)
  obtain ⟨rfl, -⟩ := (accepts_u32.reads_of_stands four.of_extract rfl).unique
    (accepts_u32.reads_of_stands four' rfl)
  have refused : Checksum.compute
      (Header.content (bytes.extract 0 count) header.size).data.toList 0 ≠ header.checksum :=
    fun same => differs (computes.trans same)
  refine ⟨rfl, within, Nat.lt_of_not_le fun covered => refused ?_, refused⟩
  rw [Header.content_extract inside covered, fits]

theorem truncated_or_checksum {count : Nat} (ok : (decode rules bytes).result = .ok image)
    (short : count < (decode rules bytes).position) :
    (decode rules (bytes.extract 0 count)).Truncated ∨
      ∃ declared computed, (decode rules (bytes.extract 0 count)).result =
        .error (.wrongChecksum declared computed) := by
  have narrows : Narrows Cause.IsChecksum (read rules) (readUnchecked rules) := inferInstance
  rcases narrows.same_unless (bytes.extract 0 count) 0 with same | ⟨_, ⟨declared, computed, rfl⟩, e⟩
  · rw [decode, same]
    exact .inl (truncated_readUnchecked ok short)
  · exact .inr ⟨declared, computed, e⟩

/-- An image that is cut before the end of its end marker lacks bytes or has a wrong check value.
It lacks bytes if the check value is not reached, or covers nothing that was cut off, or fits. -/
theorem decode_cut {count : Nat} (ok : (decode rules bytes).result = .ok image)
    (short : count < (decode rules bytes).position) :
    (∃ marker, Section.TilesTo bytes Header.byteCount image.sections.toList marker ∧
      Stands bytes marker Tag.endMarker.bytes ∧
      (decode rules bytes).position = marker + Section.endMarkerSize) ∧
    ((decode rules (bytes.extract 0 count)).Truncated ∨
      ∃ computed, (decode rules (bytes.extract 0 count)).result =
        .error (.wrongChecksum image.header.checksum computed)) ∧
    (count < 14 ∨ 10 + image.header.size.toNat ≤ count ∨
        Checksum.compute
          (Header.content (bytes.extract 0 count) image.header.size).data.toList 0 =
          image.header.checksum →
      (decode rules (bytes.extract 0 count)).Truncated) := by
  obtain ⟨head, tiling⟩ := tiling_of_ok ok
  obtain ⟨marker, tiles, mark, ends, fits⟩ := tiling.tiles
  have inside : count ≤ bytes.size := Nat.le_of_lt (Nat.lt_of_lt_of_le short fits)
  refine ⟨⟨marker, tiles, mark, ends⟩, ?_⟩
  rcases truncated_or_checksum ok short with truncated | ⟨declared, computed, refused⟩
  · exact ⟨.inl truncated, fun _ => truncated⟩
  -- A refusal is a true diagnosis, so the check value was reached, covers a byte that was cut off
  -- and does not fit.
  · obtain ⟨rfl, reached, uncovered, differs⟩ :=
      checksum_of_cut head inside (trueOf_of_decode refused)
    refine ⟨.inr ⟨computed, refused⟩, fun whole => ?_⟩
    rcases whole with early | covered | fits
    · omega
    · omega
    · exact absurd fits differs

/-- An image without sections, whose check value is also that of the content up to byte 28. -/
def ambiguousBytes : ByteArray := ⟨#[
  0x52, 0x49, 0x54, 0x45, 0x30, 0x30, 0x30, 0x33, 0xC6, 0x84, 0, 0, 0, 20,
  0x4D, 0x41, 0x54, 0x5A, 0x30, 0x30, 0x30, 0x30,
  0x45, 0x4E, 0x44, 0x00, 0, 0, 0xAB, 0x7A]⟩

def ambiguousImage : Image :=
  ⟨⟨Tag.magic, Tag.version, 0xC684, 20, Tag.ofChars 'M' 'A' 'T' 'Z', Tag.ofChars '0' '0' '0' '0'⟩,
    #[]⟩

theorem decode_cut_ambiguous :
    (decode .lenient ambiguousBytes).result = .ok ambiguousImage ∧
      28 < (decode .lenient ambiguousBytes).position ∧
      (decode .lenient (ambiguousBytes.extract 0 28)).Truncated := by
  have head : Reads Header.read ambiguousBytes 0 ambiguousImage.header 22 :=
    ⟨by decide +kernel, by decide +kernel⟩
  have last : Reads (Section.read .lenient #[]) ambiguousBytes 22 none 30 := ⟨rfl, rfl⟩
  have read : Reads (read .lenient) ambiguousBytes 0 ambiguousImage 30 :=
    reads_iff.mpr ⟨nofun, 22, head, Section.reads_readAll_iff.mpr (.done last)⟩
  have short : 28 < (decode .lenient ambiguousBytes).position := by
    rw [decode, read.2]
    decide
  obtain ⟨-, -, truncated⟩ := decode_cut read.1 short
  exact ⟨read.1, short, truncated (.inr (.inr (by decide +kernel)))⟩

end Image

end RiteImage
