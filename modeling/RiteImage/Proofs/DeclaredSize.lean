import RiteImage.Proofs.ErrorDetection
import RiteImage.Proofs.ImageLayout

namespace RiteImage

open Reader

section Steps

variable {bytes : ByteArray} {start : Nat}

theorem reads_tag_of_le (inside : start + 4 ≤ bytes.size) :
    Reads tag bytes start (Tag.ofBytes (bytes.extract start (start + 4))) (start + 4) :=
  reads_map.mpr ⟨_, reads_take.mpr ⟨by omega, rfl, rfl⟩, rfl⟩

theorem result_take_of_lt {count : Nat} (positive : 0 < count) (short : bytes.size < start + count) :
    (take count bytes start).result = .error (.truncated start count (bytes.size - start)) := by
  have missing : ¬ count ≤ remaining bytes start := by
    rw [remaining]
    omega
  rw [take, if_neg missing]
  rfl

theorem result_tag_of_lt (short : bytes.size < start + 4) :
    (tag bytes start).result = .error (.truncated start 4 (bytes.size - start)) :=
  result_bind_of_error (result_take_of_lt (by decide) short)

theorem bytes_ofBytes_extract (inside : start + 4 ≤ bytes.size) :
    (Tag.ofBytes (bytes.extract start (start + 4))).bytes = between bytes start (start + 4) :=
  Tag.bytes_ofBytes (by rw [ByteArray.size_extract]; omega)

theorem Stands.of_extract_tag (inside : start + 4 ≤ bytes.size) :
    Stands bytes start (Tag.ofBytes (bytes.extract start (start + 4))).bytes := by
  rw [bytes_ofBytes_extract inside]
  exact Stands.of_between (Nat.le_add_right start 4) inside

theorem Stands.of_word (start count : Nat) (inside : start + count ≤ bytes.size) :
    Stands bytes start (wordBytes count (bigEndian (between bytes start (start + count)))) := by
  have stands := Stands.of_between (Nat.le_add_right start count) inside
  have length : (between bytes start (start + count)).length = count := by
    rw [length_between inside, Nat.add_sub_cancel_left]
  have written := wordBytes_bigEndian (between bytes start (start + count))
  rw [length] at written
  rwa [written]

end Steps

namespace Header

def declaredChecksum (bytes : ByteArray) : UInt16 := UInt16.ofNat (bigEndian (between bytes 8 10))

def declaredSize (bytes : ByteArray) : UInt32 := UInt32.ofNat (bigEndian (between bytes 10 14))

variable {bytes : ByteArray} {magic : Tag} {checksum : UInt16} {size : UInt32}

theorem toNat_declaredChecksum (long : 10 ≤ bytes.size) :
    (declaredChecksum bytes).toNat = bigEndian (between bytes 8 10) := by
  have small := bigEndian_lt (between bytes 8 10)
  rw [length_between long] at small
  exact UInt16.toNat_ofNat_of_lt' small

theorem toNat_declaredSize (long : 14 ≤ bytes.size) :
    (declaredSize bytes).toNat = bigEndian (between bytes 10 14) := by
  have small := bigEndian_lt (between bytes 10 14)
  rw [length_between long] at small
  exact UInt32.toNat_ofNat_of_lt' small

theorem stands_headBytes (long : 14 ≤ bytes.size)
    (known : between bytes 4 8 = Tag.version.bytes) :
    Stands bytes 0 (headBytes (Tag.ofBytes (bytes.extract 0 4)) Tag.version
      (declaredChecksum bytes) (declaredSize bytes)) := by
  have version : Stands bytes 4 Tag.version.bytes :=
    known ▸ Stands.of_between (by decide : 4 ≤ 8) (by omega)
  rw [headBytes, Stands.append_iff, Stands.append_iff, Stands.append_iff,
    toNat_declaredChecksum (by omega), toNat_declaredSize long]
  exact ⟨Stands.of_extract_tag (by omega), version,
    Stands.of_word 8 2 (by omega), Stands.of_word 10 4 long⟩

theorem result_readNames (whole : byteCount ≤ bytes.size) :
    (readNames magic checksum size bytes 14).result = .ok ⟨magic, Tag.version, checksum, size,
      Tag.ofBytes (bytes.extract 14 18), Tag.ofBytes (bytes.extract 18 22)⟩ := by
  rw [byteCount] at whole
  rw [readNames, readNamesBy, result_bind (reads_tag_of_le (by omega)), result_bind (reads_tag_of_le whole)]
  rfl

theorem result_readNames_of_lt (short : bytes.size < byteCount) :
    let place := if bytes.size < 18 then 14 else 18
    (readNames magic checksum size bytes 14).result =
      .error (.truncated place 4 (bytes.size - place)) := by
  rw [byteCount] at short
  rcases Nat.lt_or_ge bytes.size 18 with first | second
  · rw [if_pos first]
    exact result_bind_of_error (result_tag_of_lt first)
  · rw [if_neg (Nat.not_lt.mpr second), readNames, readNamesBy, result_bind (reads_tag_of_le second)]
    exact result_bind_of_error (result_tag_of_lt short)

theorem content_of_beyond (beyond : bytes.size ≤ 10 + size.toNat) :
    (content bytes size).data.toList = bytes.data.toList.drop 10 := by
  have covered : (content bytes size).data.toList = between bytes 10 bytes.size := by
    rw [content, contentStart, Nat.min_eq_right beyond]
    rfl
  rw [covered, between_eq, List.take_of_length_le]
  rw [List.length_drop, length_toList]

/-- If the declared size reaches past the end of the bytes, the declared check value is compared
with that of the bytes which are there. Where the two differ the image is refused, whatever the
rules are. Where they are the same the header is read as if nothing were missing, and refused only
if it is itself cut off. -/
theorem read_overdeclared (long : 14 ≤ bytes.size)
    (known : between bytes 4 8 = Tag.version.bytes)
    (beyond : bytes.size < 10 + (declaredSize bytes).toNat) :
    let declared := declaredChecksum bytes
    let computed := Checksum.compute (bytes.data.toList.drop 10) 0
    (computed ≠ declared →
      (Header.read bytes 0).result = .error (.wrongChecksum declared computed) ∧
        ∀ rules, (Image.decode rules bytes).result = .error (.wrongChecksum declared computed)) ∧
    (computed = declared → bytes.size < byteCount → ∃ offset,
      (Header.read bytes 0).result = .error (.truncated offset 4 (bytes.size - offset))) ∧
    (computed = declared → byteCount ≤ bytes.size → (Header.read bytes 0).result =
      .ok ⟨Tag.ofBytes (bytes.extract 0 4), Tag.version, declared, declaredSize bytes,
        Tag.ofBytes (bytes.extract 14 18), Tag.ofBytes (bytes.extract 18 22)⟩) := by
  have stands := stands_headBytes long known
  rw [← content_of_beyond (Nat.le_of_lt beyond)]
  refine ⟨fun wrong => ?_, fun fits short => ?_, fun fits whole => ?_⟩
  · have refused := result_read_of_wrong stands wrong
    exact ⟨refused, fun rules => Image.result_decode_of_error refused⟩
  · rw [result_read_of_fits stands fits]
    exact ⟨_, result_readNames_of_lt short⟩
  · rw [result_read_of_fits stands fits, result_readNames whole]

/-- An image of thirty bytes that declares a thousand, with any check value. -/
def overdeclaredBytes (first second : UInt8) : ByteArray := ⟨#[
  0x52, 0x49, 0x54, 0x45, 0x30, 0x30, 0x30, 0x33, first, second, 0, 0, 0x03, 0xE8,
  0x4D, 0x41, 0x54, 0x5A, 0x30, 0x30, 0x30, 0x30,
  0x45, 0x4E, 0x44, 0x00, 0, 0, 0, 8]⟩

theorem read_overdeclared_refused :
    30 < 10 + (declaredSize (overdeclaredBytes 0x6D 0xF6)).toNat ∧
      ∀ rules, (Image.decode rules (overdeclaredBytes 0x6D 0xF6)).result =
        .error (.wrongChecksum 0x6DF6 0x94C9) := by
  have beyond : 30 < 10 + (declaredSize (overdeclaredBytes 0x6D 0xF6)).toNat := by decide +kernel
  obtain ⟨refused, -⟩ := @read_overdeclared (overdeclaredBytes 0x6D 0xF6) (by decide)
    (by decide) beyond
  have declared : declaredChecksum (overdeclaredBytes 0x6D 0xF6) = 0x6DF6 := by decide +kernel
  have computed : Checksum.compute ((overdeclaredBytes 0x6D 0xF6).data.toList.drop 10) 0 =
      0x94C9 := by decide +kernel
  rw [declared, computed] at refused
  exact ⟨beyond, (refused (by decide)).2⟩

def overdeclaredHeader : Header :=
  ⟨Tag.magic, Tag.version, 0x94C9, 1000, Tag.ofChars 'M' 'A' 'T' 'Z', Tag.ofChars '0' '0' '0' '0'⟩

/-- With the check value of what is there the image is accepted even by the strictest rules. -/
theorem decode_overdeclared_accepted :
    14 ≤ (overdeclaredBytes 0x94 0xC9).size ∧
      between (overdeclaredBytes 0x94 0xC9) 4 8 = Tag.version.bytes ∧
      (overdeclaredBytes 0x94 0xC9).size <
        10 + (declaredSize (overdeclaredBytes 0x94 0xC9)).toNat ∧
      (Header.read (overdeclaredBytes 0x94 0xC9) 0).result = .ok overdeclaredHeader ∧
      (Image.decode .strict (overdeclaredBytes 0x94 0xC9)).result =
        .ok ⟨overdeclaredHeader, #[]⟩ := by
  have head : Reads Header.read (overdeclaredBytes 0x94 0xC9) 0 overdeclaredHeader 22 :=
    ⟨by decide +kernel, by decide +kernel⟩
  have last : Reads (Section.read .strict #[]) (overdeclaredBytes 0x94 0xC9) 22 none 30 :=
    ⟨rfl, rfl⟩
  have read : Reads (Image.read .strict) (overdeclaredBytes 0x94 0xC9) 0
      ⟨overdeclaredHeader, #[]⟩ 30 :=
    Image.reads_iff.mpr ⟨fun _ => rfl, 22, head, Section.reads_readAll_iff.mpr (.done last)⟩
  exact ⟨by decide, by decide, by decide +kernel, head.1, read.1⟩

end Header

end RiteImage
