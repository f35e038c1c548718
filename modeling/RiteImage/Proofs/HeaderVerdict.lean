import RiteImage.Proofs.DeclaredSize
import RiteImage.Proofs.Machine.Image

/-! The verdict on a header.
Whether a header is accepted, and what it is refused for, is a matter of a few bytes: how many
there are, the version, and the declared ones together with their check value. The reader comes
to this verdict whatever else stands in the buffer, and so does the machine. -/
namespace RiteImage.Header

open Reader

def tagAt (bytes : ByteArray) (place : Nat) : Tag :=
  Tag.ofBytes (bytes.extract place (place + 4))

/-- Of the declared bytes as far as there are any. Their end is a number without a bound. -/
def computedChecksum (bytes : ByteArray) : UInt16 :=
  let declaredEnd := 10 + bigEndian (between bytes 10 14)
  Checksum.compute (between bytes 10 (min declaredEnd bytes.size)) 0

def cutOff (size : Nat) : Cause :=
  if size < 4 then .truncated 0 4 size
  else if size < 8 then .truncated 4 4 (size - 4)
  else if size < 10 then .truncated 8 2 (size - 8)
  else if size < 14 then .truncated 10 4 (size - 10)
  else if size < 18 then .truncated 14 4 (size - 14)
  else .truncated 18 4 (size - 18)

def verdict (bytes : ByteArray) : Except Cause Header :=
  if bytes.size < 8 then .error (cutOff bytes.size)
  else if between bytes 4 8 ≠ Tag.version.bytes then .error (.wrongVersion (tagAt bytes 4))
  else if bytes.size < 14 then .error (cutOff bytes.size)
  else if computedChecksum bytes ≠ declaredChecksum bytes then
    .error (.wrongChecksum (declaredChecksum bytes) (computedChecksum bytes))
  else if bytes.size < 22 then .error (cutOff bytes.size)
  else .ok ⟨tagAt bytes 0, Tag.version, declaredChecksum bytes, declaredSize bytes,
    tagAt bytes 14, tagAt bytes 18⟩

structure Fields (bytes : ByteArray) (header : Header) : Prop where
  magic : header.magic.bytes = between bytes 0 4
  version : header.version.bytes = between bytes 4 8
  checksum : header.checksum.toNat = bigEndian (between bytes 8 10)
  size : header.size.toNat = bigEndian (between bytes 10 14)
  compilerName : header.compilerName.bytes = between bytes 14 18
  compilerVersion : header.compilerVersion.bytes = between bytes 18 22

variable {bytes other : ByteArray}

theorem fields_of_verdict {header : Header} (ok : verdict bytes = .ok header) :
    Fields bytes header := by
  unfold verdict at ok
  split_ifs at ok with _ unknown _ _ short
  cases ok
  have long : 22 ≤ bytes.size := Nat.not_lt.mp short
  exact {
    magic := bytes_ofBytes_extract (by omega)
    version := (not_not.mp unknown).symm
    checksum := toNat_declaredChecksum (by omega)
    size := toNat_declaredSize (by omega)
    compilerName := bytes_ofBytes_extract (by omega)
    compilerVersion := bytes_ofBytes_extract long }

/-! One question after the other. -/

theorem result_word_of_lt {start count : Nat} (positive : 0 < count)
    (short : bytes.size < start + count) :
    (word count bytes start).result = .error (.truncated start count (bytes.size - start)) :=
  result_bind_of_error (result_take_of_lt positive short)

theorem result_read_of_short (short : bytes.size < 8) :
    (Header.read bytes 0).result = .error (cutOff bytes.size) := by
  rcases Nat.lt_or_ge bytes.size 4 with first | second
  · rw [cutOff, if_pos first]
    exact result_bind_of_error (result_tag_of_lt first)
  · rw [cutOff, if_neg (Nat.not_lt.mpr second), if_pos short, Header.read, readBy,
      result_bind (reads_tag_of_le second)]
    exact result_bind_of_error (result_tag_of_lt short)

theorem result_read_of_unknown (long : 8 ≤ bytes.size)
    (unknown : between bytes 4 8 ≠ Tag.version.bytes) :
    (Header.read bytes 0).result = .error (.wrongVersion (tagAt bytes 4)) := by
  have foreign : tagAt bytes 4 ≠ Tag.version := by
    intro same
    rw [← same, tagAt, bytes_ofBytes_extract long] at unknown
    exact unknown rfl
  simp only [Header.read, readBy]
  rw [result_bind (reads_tag_of_le (by omega)), result_bind (reads_tag_of_le long)]
  apply result_bind_of_error
  change (require (decide (tagAt bytes 4 = Tag.version)) _ bytes 8).result = _
  rw [decide_eq_false foreign]
  rfl

theorem result_read_of_cut (long : 8 ≤ bytes.size)
    (known : between bytes 4 8 = Tag.version.bytes) (short : bytes.size < 14) :
    (Header.read bytes 0).result = .error (cutOff bytes.size) := by
  have version : Reads Reader.tag bytes 4 Tag.version 8 :=
    accepts_tag.reads_of_stands (known ▸ Stands.of_between (by decide : 4 ≤ 8) long) rfl
  rw [cutOff, if_neg (by omega), if_neg (Nat.not_lt.mpr long), Header.read, readBy,
    result_bind (reads_tag_of_le (by omega)), result_bind version,
    result_bind (reads_require.mpr ⟨by decide, rfl⟩ : Reads _ _ _ () _)]
  rcases Nat.lt_or_ge bytes.size 10 with first | second
  · rw [if_pos first]
    exact result_bind_of_error (result_bind_of_error (result_word_of_lt (by decide) first))
  · have checksum : Reads Reader.u16 bytes 8 (declaredChecksum bytes) 10 := by
      refine accepts_u16.reads_of_stands ?_ rfl
      rw [toNat_declaredChecksum second]
      exact Stands.of_word 8 2 second
    rw [if_neg (Nat.not_lt.mpr second), if_pos short, result_bind checksum]
    exact result_bind_of_error (result_bind_of_error (result_word_of_lt (by decide) short))

theorem compute_content (long : 14 ≤ bytes.size) :
    Checksum.compute (content bytes (declaredSize bytes)).data.toList 0 =
      computedChecksum bytes := by
  rw [content, toNat_declaredSize long]
  rfl

theorem result_read_of_known (long : 14 ≤ bytes.size)
    (known : between bytes 4 8 = Tag.version.bytes) :
    (Header.read bytes 0).result =
      if computedChecksum bytes ≠ declaredChecksum bytes then
        .error (.wrongChecksum (declaredChecksum bytes) (computedChecksum bytes))
      else (readNames (tagAt bytes 0) (declaredChecksum bytes) (declaredSize bytes)
        bytes 14).result := by
  have stands := stands_headBytes long known
  split_ifs with wrong
  · rw [← compute_content long] at wrong ⊢
    exact result_read_of_wrong stands wrong
  · rw [← compute_content long] at wrong
    exact result_read_of_fits stands (not_not.mp wrong)

theorem result_read_eq_verdict (bytes : ByteArray) :
    (Header.read bytes 0).result = verdict bytes := by
  unfold verdict
  split_ifs with short unknown cut wrong ended
  · exact result_read_of_short short
  · exact result_read_of_unknown (Nat.not_lt.mp short) unknown
  · exact result_read_of_cut (Nat.not_lt.mp short) (not_not.mp unknown) cut
  all_goals rw [result_read_of_known (Nat.not_lt.mp cut) (not_not.mp unknown)]
  · exact if_pos wrong
  · have last : cutOff bytes.size = if bytes.size < 18 then .truncated 14 4 (bytes.size - 14)
        else .truncated 18 4 (bytes.size - 18) := by
      rw [cutOff, if_neg (by omega), if_neg (by omega), if_neg (by omega), if_neg cut]
    rw [if_neg wrong, result_readNames_of_lt ended, last]
    split_ifs <;> rfl
  · rw [if_neg wrong, result_readNames (Nat.not_lt.mp ended)]
    rfl

/-! What the verdict depends on. -/

theorem tagAt_congr {place : Nat}
    (same : ∀ i, place ≤ i → i < place + 4 → other[i]? = bytes[i]?) :
    tagAt other place = tagAt bytes place := by
  have chunk : other.extract place (place + 4) = bytes.extract place (place + 4) :=
    ByteArray.ext (Array.toList_inj.mp (between_congr same))
  rw [tagAt, chunk, tagAt]

/-- Two buffers with the same bytes from the magic up to `m`, which end in the same place if they
end before it, differ only in the magic that is passed on. -/
theorem verdict_congr {m : Nat} (head : byteCount ≤ m)
    (declared : 10 + bigEndian (between bytes 10 14) ≤ m)
    (sizes : min m other.size = min m bytes.size)
    (same : ∀ i, 4 ≤ i → i < m → other[i]? = bytes[i]?) :
    verdict other =
      (verdict bytes).map fun header => { header with magic := tagAt other 0 } := by
  rw [byteCount] at head
  have part (start stop : Nat) (behind : 4 ≤ start) (within : stop ≤ m) :
      between other start stop = between bytes start stop :=
    between_congr fun i le lt => same i (by omega) (by omega)
  have named (place : Nat) (behind : 4 ≤ place) (within : place + 4 ≤ m) :
      tagAt other place = tagAt bytes place :=
    tagAt_congr fun i le lt => same i (by omega) (by omega)
  have checksum : declaredChecksum other = declaredChecksum bytes := by
    rw [declaredChecksum, part 8 10 (by omega) (by omega), declaredChecksum]
  have size : declaredSize other = declaredSize bytes := by
    rw [declaredSize, part 10 14 (by omega) (by omega), declaredSize]
  have computed : computedChecksum other = computedChecksum bytes := by
    have stop : min (10 + bigEndian (between bytes 10 14)) other.size =
        min (10 + bigEndian (between bytes 10 14)) bytes.size := by omega
    rw [computedChecksum, part 10 14 (by omega) (by omega), stop,
      part 10 _ (by omega) (Nat.le_trans (Nat.min_le_left _ _) declared), computedChecksum]
  -- No question tells lengths apart that are both at least that of a header.
  have shorter {n : Nat} (le : n ≤ 22) : other.size < n ↔ bytes.size < n := by omega
  have cut (short : bytes.size < 22) : cutOff other.size = cutOff bytes.size := by
    have equal : other.size = bytes.size := by omega
    rw [equal]
  unfold verdict
  rw [part 4 8 (by omega) (by omega), named 4 (by omega) (by omega),
    named 14 (by omega) (by omega), named 18 (by omega) (by omega), checksum, size, computed]
  simp only [shorter (by decide : 8 ≤ 22), shorter (by decide : 14 ≤ 22), shorter (Nat.le_refl 22)]
  split_ifs with short unknown early wrong ended
  · rw [cut (by omega)]
    rfl
  · rfl
  · rw [cut (by omega)]
    rfl
  · rfl
  · rw [cut ended]
    rfl
  · rfl

theorem verdict_of_agree {m : Nat} (head : byteCount ≤ m)
    (declared : 10 + bigEndian (between bytes 10 14) ≤ m) (whole : m ≤ bytes.size)
    (same : ∀ i < m, other[i]? = bytes[i]?) : verdict other = verdict bytes := by
  rw [byteCount] at head
  have reached : m ≤ other.size := by
    have last := same (m - 1) (by omega)
    rw [getElem?_pos bytes (m - 1) (by omega)] at last
    obtain ⟨inside, -⟩ := getElem?_eq_some_iff.mp last
    omega
  have sizes : min m other.size = min m bytes.size := by omega
  have magic : tagAt other 0 = tagAt bytes 0 := tagAt_congr fun i _ lt => same i (by omega)
  rw [verdict_congr head declared sizes fun i _ lt => same i lt, magic]
  exact (verdict_congr head declared rfl fun _ _ _ => rfl).symm

theorem position_of_verdict {header : Header} (ok : verdict bytes = .ok header) :
    (Header.read bytes 0).position = byteCount := by
  rw [← result_read_eq_verdict] at ok
  have stop := stop_of_reads_header ⟨ok, rfl⟩
  rwa [Nat.zero_add] at stop

theorem readHeader_eq_verdict (small : bytes.size < 2 ^ 63) :
    Machine.readHeader bytes 0 = some ((verdict bytes).map fun header => (header, 22)) := by
  have mirrors := Machine.simulates_readHeader 0 bytes 0 small (Nat.le_refl _) (Nat.zero_le _)
  have result : (Header.read bytes (0 : UInt64).toNat).result = _ := result_read_eq_verdict bytes
  cases judged : verdict bytes with
  | error e => exact mirrors.run_of_error (result.trans judged)
  | ok header =>
    obtain ⟨stop, ran, position⟩ := mirrors.run_of_ok (result.trans judged)
    have last : stop = 22 := UInt64.toNat_inj.mp (position.trans (position_of_verdict judged))
    rw [ran, last]
    rfl

/-- For every buffer the reader comes to the verdict, and so does the machine, with its sums on
words. An accepted header is what is written, and the first section is behind it. The verdict is
the same for all buffers that begin with the same header and the same declared bytes. The magic
has no part in it. -/
theorem read_verdict (bytes : ByteArray) :
    let m := max byteCount (10 + bigEndian (between bytes 10 14))
    (Header.read bytes 0).result = verdict bytes ∧
    (∀ header, verdict bytes = .ok header →
      Fields bytes header ∧ (Header.read bytes 0).position = byteCount) ∧
    (bytes.size < 2 ^ 63 →
      Machine.readHeader bytes 0 = some ((verdict bytes).map fun header => (header, 22))) ∧
    (∀ other, m ≤ bytes.size → (∀ i < m, other[i]? = bytes[i]?) →
      (Header.read other 0).result = (Header.read bytes 0).result) ∧
    ∀ other, other.size = bytes.size → (∀ i, 4 ≤ i → other[i]? = bytes[i]?) →
      (Header.read other 0).result =
        (Header.read bytes 0).result.map fun header => { header with magic := tagAt other 0 } := by
  intro m
  have head : byteCount ≤ m := Nat.le_max_left _ _
  have declared : 10 + bigEndian (between bytes 10 14) ≤ m := Nat.le_max_right _ _
  refine ⟨result_read_eq_verdict bytes, fun header ok => ?_, readHeader_eq_verdict, ?_, ?_⟩
  · exact ⟨fields_of_verdict ok, position_of_verdict ok⟩
  · intro other whole same
    rw [result_read_eq_verdict, result_read_eq_verdict]
    exact verdict_of_agree head declared whole same
  · intro other size same
    rw [result_read_eq_verdict, result_read_eq_verdict]
    exact verdict_congr head declared (by rw [size]) fun i behind _ => same i behind

theorem read_verdict_extended :
    let bytes := emptyImage 0x45 0x4E
    let longer : ByteArray := ⟨bytes.data.push 7⟩
    let renamed : ByteArray := ⟨bytes.data.setIfInBounds 0 0x58⟩
    bytes.size < 2 ^ 63 ∧ 10 + bigEndian (between bytes 10 14) = bytes.size ∧
      Machine.readHeader bytes 0 = some (.ok (emptyHeader, 22)) ∧
      (Header.read longer 0).result = .ok emptyHeader ∧
      (Header.read renamed 0).result =
        .ok { emptyHeader with magic := Tag.ofChars 'X' 'I' 'T' 'E' } := by
  intro bytes longer renamed
  have small : bytes.size < 2 ^ 63 := by decide
  obtain ⟨read, -, ran, prefixed, passed⟩ := read_verdict bytes
  have accepted : verdict bytes = .ok emptyHeader := by decide +kernel
  rw [accepted] at read ran
  have long := prefixed longer (by decide) (by decide)
  have behind (i : Nat) (le : 4 ≤ i) : renamed[i]? = bytes[i]? := by
    rw [← getElem?_toList, ← getElem?_toList, Array.toList_setIfInBounds,
      List.getElem?_set_ne (by omega)]
  have other := passed renamed rfl behind
  have magic : tagAt renamed 0 = Tag.ofChars 'X' 'I' 'T' 'E' := by decide
  rw [read] at long other
  rw [magic] at other
  exact ⟨small, by decide, ran small, long, other⟩

end RiteImage.Header
