import RiteImage.Image.Basic
import RiteImage.Proofs.BitErrors
import RiteImage.Proofs.Layout
import RiteImage.Proofs.Stable

/-! Errors in the content that the check value finds.
The check value and the size of the content lie before the first byte that may be
wrong, so they are read as they were. The content then computes to another value
if the wrong bits are a burst of sixteen at most, or odd in number. -/
namespace RiteImage

open Reader

namespace Header

def headBytes (magic version : Tag) (checksum : UInt16) (size : UInt32) : List UInt8 :=
  magic.bytes ++ (version.bytes ++ (wordBytes 2 checksum.toNat ++ wordBytes 4 size.toNat))

@[simp] theorem length_headBytes (magic version : Tag) (checksum : UInt16) (size : UInt32) :
    (headBytes magic version checksum size).length = 14 := by
  simp [headBytes]

variable {bytes : ByteArray} {magic : Tag} {checksum : UInt16} {size : UInt32}

theorem stands_of_reads {header : Header} {stop : Nat}
    (read : Reads Header.read bytes 0 header stop) :
    Stands bytes 0 (headBytes header.magic Tag.version header.checksum header.size) ∧
      Checksum.compute (content bytes header.size).data.toList 0 = header.checksum := by
  obtain ⟨known, computed, one, two, three, four, -⟩ := fields_of_reads_header read
  obtain ⟨_, one, rfl, -⟩ := (accepts_tag _ _ _ _ (Nat.zero_le _)).mp one
  obtain ⟨_, two, rfl, -⟩ := (accepts_tag _ _ _ _ one.le_size).mp two
  obtain ⟨_, three, rfl, -⟩ := (accepts_u16 _ _ _ _ two.le_size).mp three
  obtain ⟨_, four, rfl, -⟩ := (accepts_u32 _ _ _ _ three.le_size).mp four
  refine ⟨?_, computed⟩
  rw [headBytes, Stands.append_iff, Stands.append_iff, Stands.append_iff, ← known]
  exact ⟨one, two, three, four⟩

abbrev readNames (magic : Tag) (checksum : UInt16) (size : UInt32) : Reader Header :=
  readNamesBy Reader.primitives magic Tag.version checksum size

/-- Where these bytes stand the check value is compared before anything else is read. -/
theorem result_read (stands : Stands bytes 0 (headBytes magic Tag.version checksum size)) :
    let computed := Checksum.compute (content bytes size).data.toList 0
    (Header.read bytes 0).result =
      ((require (computed = checksum) (.wrongChecksum checksum computed) >>= fun _ =>
        readNames magic checksum size) bytes 14).result := by
  rw [headBytes, Stands.append_iff, Stands.append_iff, Stands.append_iff] at stands
  obtain ⟨one, two, three, four⟩ := stands
  rw [Header.read, readBy, result_bind (accepts_tag.reads_of_stands one rfl),
    result_bind (accepts_tag.reads_of_stands two rfl),
    result_bind (reads_require.mpr ⟨by decide, rfl⟩ : Reads _ _ _ () _),
    result_bind (accepts_u16.reads_of_stands three rfl),
    result_bind (accepts_u32.reads_of_stands four rfl), checkContent_bind]
  rfl

theorem result_read_of_wrong (stands : Stands bytes 0 (headBytes magic Tag.version checksum size))
    (wrong : Checksum.compute (content bytes size).data.toList 0 ≠ checksum) :
    (Header.read bytes 0).result =
      .error (.wrongChecksum checksum (Checksum.compute (content bytes size).data.toList 0)) := by
  rw [result_read stands, decide_eq_false wrong]
  rfl

theorem result_read_of_fits (stands : Stands bytes 0 (headBytes magic Tag.version checksum size))
    (fits : Checksum.compute (content bytes size).data.toList 0 = checksum) :
    (Header.read bytes 0).result = (readNames magic checksum size bytes 14).result := by
  rw [result_read stands, decide_eq_true fits]
  rfl

end Header

theorem Image.result_decode_of_error {rules : Strictness} {bytes : ByteArray} {e : Cause}
    (refused : (Header.read bytes 0).result = .error e) :
    (Image.decode rules bytes).result = .error e :=
  result_bind_of_error refused

theorem append_between (bytes : ByteArray) {start stop : Nat} (le : start ≤ stop) :
    bytes.data.toList.take start ++ between bytes start stop ++ bytes.data.toList.drop stop =
      bytes.data.toList := by
  rw [between_eq, ← List.take_add, Nat.add_sub_cancel' le, List.take_append_drop]

section Agreement

variable {one two : ByteArray} {n : Nat}

theorem take_eq_of_getElem? (same : ∀ i < n, one[i]? = two[i]?) :
    one.data.toList.take n = two.data.toList.take n := by
  apply List.ext_getElem?
  intro i
  rw [List.getElem?_take, List.getElem?_take, getElem?_toList, getElem?_toList]
  split
  · rename_i below
    exact same i below
  · rfl

theorem drop_eq_of_getElem? (size : one.size = two.size)
    (same : ∀ i < two.size, n ≤ i → one[i]? = two[i]?) :
    one.data.toList.drop n = two.data.toList.drop n := by
  apply List.ext_getElem?
  intro i
  rw [List.getElem?_drop, List.getElem?_drop]
  rcases Nat.lt_or_ge (n + i) two.size with inside | beyond
  · rw [getElem?_toList, getElem?_toList, same _ inside (Nat.le_add_right n i)]
  · have beyond' : one.data.toList.length ≤ n + i := le_of_eq_of_le size beyond
    rw [List.getElem?_eq_none beyond, List.getElem?_eq_none beyond']

theorem Stands.of_take_eq {segment : List UInt8} (stands : Stands one 0 segment)
    (same : two.data.toList.take segment.length = one.data.toList.take segment.length) :
    Stands two 0 segment := by
  have here := stands.between_eq
  rw [RiteImage.between_eq, Nat.zero_add, Nat.sub_zero, List.drop_zero] at here
  have whole := List.take_append_drop segment.length two.data.toList
  rw [same, here] at whole
  exact ⟨[], two.data.toList.drop segment.length, whole.symm, rfl⟩

end Agreement

namespace Header

/-- If only bytes of the content behind the size are wrong, and the wrong bits are a burst of
sixteen at most or odd in number, then the check value does not fit whatever the rules are. -/
theorem decode_corrupted {bytes other : ByteArray} {header : Header}
    (read : (Header.read bytes 0).result = .ok header) (same_size : other.size = bytes.size)
    (differ : other ≠ bytes)
    (outside : ∀ i < bytes.size, ¬ (14 ≤ i ∧ i < min (10 + header.size.toNat) bytes.size) →
      other[i]? = bytes[i]?)
    (detectable : Checksum.Detectable (differing bytes.data.toList other.data.toList)) :
    between bytes 8 10 = wordBytes 2 header.checksum.toNat ∧
      ∃ computed, computed ≠ header.checksum ∧
        (Header.read other 0).result = .error (.wrongChecksum header.checksum computed) ∧
        ∀ rules, (Image.decode rules other).result =
          .error (.wrongChecksum header.checksum computed) := by
  obtain ⟨stands, fits⟩ := stands_of_reads ⟨read, rfl⟩
  have inside : 14 ≤ bytes.size := by simpa using stands.le_size
  let stop := min (10 + header.size.toNat) bytes.size
  have le : 10 ≤ stop := by omega
  have head := take_eq_of_getElem? fun i (lt : i < 14) => outside i (by omega) (by omega)
  have front := take_eq_of_getElem? fun i (lt : i < 10) => outside i (by omega) (by omega)
  have back := drop_eq_of_getElem? same_size fun i lt (ge : stop ≤ i) => outside i lt (by omega)
  have stands' : Stands other 0 _ := stands.of_take_eq (by rw [length_headBytes, head])
  have covered : (content other header.size).data.toList = between other 10 stop := by
    rw [content, same_size]
    rfl
  have wrong : Checksum.compute (content other header.size).data.toList 0 ≠ header.checksum := by
    rw [← fits, covered]
    have ends := append_between bytes le
    have ends' := append_between other le
    rw [front, back] at ends'
    rw [← ends, ← ends'] at detectable
    refine (Checksum.compute_ne_of_differing ?_ ?_ detectable 0).symm
    · rw [length_between (by omega), length_between (by omega)]
    · intro same
      rw [← same, ends] at ends'
      exact differ (ByteArray.ext (Array.toList_inj.mp ends'.symm))
  have refused := result_read_of_wrong stands' wrong
  refine ⟨?_, _, wrong, refused, fun rules => Image.result_decode_of_error refused⟩
  rw [headBytes, Stands.append_iff, Stands.append_iff, Stands.append_iff] at stands
  exact stands.2.2.1.between_eq

def emptyImage (first second : UInt8) : ByteArray :=
  ⟨#[82, 73, 84, 69, 48, 48, 48, 51, 0x6D, 0xF6, 0, 0, 0, 20, 77, 65, 84, 90, 48, 48, 48, 48,
    first, second, 68, 0, 0, 0, 0, 8]⟩

def emptyHeader : Header :=
  ⟨Tag.magic, Tag.version, 0x6DF6, 20, Tag.ofChars 'M' 'A' 'T' 'Z', Tag.ofChars '0' '0' '0' '0'⟩

/-- A burst that runs across the border of two bytes. -/
theorem decode_corrupted_marker :
    (Header.read (emptyImage 0x45 0x4E) 0).result = .ok emptyHeader ∧
      ∃ computed, computed ≠ 0x6DF6 ∧ ∀ rules,
        (Image.decode rules (emptyImage 0x46 0xB1)).result =
          .error (.wrongChecksum 0x6DF6 computed) := by
  have read : (Header.read (emptyImage 0x45 0x4E) 0).result = .ok emptyHeader := by decide +kernel
  have burst : ∀ place ∈ differing (emptyImage 0x45 0x4E).data.toList
      (emptyImage 0x46 0xB1).data.toList, 182 ≤ place ∧ place < 182 + 16 := by
    decide +kernel
  have size : (emptyImage 0x46 0xB1).size = (emptyImage 0x45 0x4E).size := rfl
  obtain ⟨-, computed, wrong, -, refused⟩ := decode_corrupted read size (by decide)
    (by decide +kernel) (.inl ⟨182, burst⟩)
  exact ⟨read, computed, wrong, refused⟩

end Header

end RiteImage
