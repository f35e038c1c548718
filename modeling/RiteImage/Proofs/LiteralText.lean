import RiteImage.Proofs.Consumption
import RiteImage.Proofs.IrepLayout
import RiteImage.Proofs.NumberText

namespace RiteImage

open Reader Text

variable {α β : Type}

namespace Reader

variable {bytes : ByteArray} {start : Nat}

theorem position_bind_of_reads {r : Reader α} {next : α → Reader β} {a : α} {middle : Nat}
    (first : Reads r bytes start a middle) :
    ((r >>= next) bytes start).position = (next a bytes middle).position := by
  obtain ⟨events, run⟩ := first.eq
  rw [bind_of_ok run]

theorem truncated_bind {r : Reader α} {next : α → Reader β} (cut : (r bytes start).Truncated) :
    ((r >>= next) bytes start).Truncated := by
  obtain ⟨offset, needed, available, failed⟩ := cut
  exact ⟨offset, needed, available, result_bind_of_error failed⟩

theorem truncated_bind_of_reads {r : Reader α} {next : α → Reader β} {a : α} {middle : Nat}
    (first : Reads r bytes start a middle) (cut : (next a bytes middle).Truncated) :
    ((r >>= next) bytes start).Truncated := by
  obtain ⟨offset, needed, available, failed⟩ := cut
  exact ⟨offset, needed, available, (result_bind first).trans failed⟩

theorem reads_or_truncated_take (bytes : ByteArray) (start count : Nat) :
    (∃ chunk stop, Reads (take count) bytes start chunk stop) ∨
      (take count bytes start).Truncated := by
  by_cases fits : count ≤ remaining bytes start
  · exact .inl ⟨_, _, reads_take.mpr ⟨fits, rfl, rfl⟩⟩
  · refine .inr ⟨start, count, remaining bytes start, ?_⟩
    simp only [take, fits, if_false, truncated]

theorem reads_or_truncated_word (bytes : ByteArray) (start : Nat) (ofNat : Nat → α)
    (count : Nat) :
    (∃ a stop, Reads (ofNat <$> word count) bytes start a stop) ∨
      ((ofNat <$> word count) bytes start).Truncated := by
  rcases reads_or_truncated_take bytes start count with ⟨chunk, stop, read⟩ | cut
  · have number : Reads (word count) bytes start (bigEndian chunk.data.toList) stop :=
      reads_bind.mpr ⟨chunk, stop, read, reads_pure.mpr ⟨rfl, rfl⟩⟩
    exact .inl ⟨_, stop, reads_map.mpr ⟨_, number, rfl⟩⟩
  · exact .inr (truncated_bind (truncated_bind cut))

end Reader

namespace Literal

variable {bytes payload : ByteArray} {start : Nat} {tag : UInt8}

structure Entry (bytes : ByteArray) (start : Nat) (tag : UInt8) (payload : ByteArray) : Prop where
  short : payload.size < 2 ^ 16
  stands : Stands bytes start ([tag] ++ wordBytes 2 payload.size ++ payload.data.toList)

/-- A payload is UTF-8, and without white space at its ends the text is of a form. -/
def Holds (payload : ByteArray) (form : List Char → Prop) : Prop :=
  ∃ (text : String) (core : List Char),
    payload = text.toUTF8 ∧ Stripped text.toList core ∧ form core

theorem run_of_entry (entry : Entry bytes start tag payload) :
    (read bytes start).result = (ofPayload tag (start + 3) payload).mapError .malformed ∧
      (read bytes start).position = start + 3 + payload.size := by
  obtain ⟨short, stands⟩ := entry
  obtain ⟨head, rest⟩ := Stands.append_iff.mp stands
  obtain ⟨mark, word⟩ := Stands.append_iff.mp head
  have length : (UInt16.ofNat payload.size).toNat = payload.size := UInt16.toNat_ofNat_of_lt' short
  have first : Reads u8 bytes start tag (start + 1) := accepts_u8.reads_of_stands mark rfl
  have second : Reads u16 bytes (start + 1) (UInt16.ofNat payload.size) (start + 3) :=
    accepts_u16.reads_of_stands word (by rw [length])
  have third : Reads position bytes (start + 3) (start + 3) (start + 3) :=
    reads_position.mpr ⟨rfl, rfl⟩
  have fourth : Reads (take (UInt16.ofNat payload.size).toNat) bytes (start + 3) payload
      (start + 3 + payload.size) := by
    rw [length]
    exact (accepts_take payload.size).reads_of_stands rest ⟨rfl, rfl⟩
  have fifth (stop : Nat) : Reads (reportUnknown tag (start + 3)) bytes stop () stop := by
    unfold reportUnknown reportUnknownBy
    split
    · exact reads_log.mpr rfl
    · exact reads_pure.mpr ⟨rfl, rfl⟩
  constructor
  · rw [read, readBy, result_bind first, result_bind second, result_bind third, result_bind fourth,
      result_bind (fifth _)]
    rcases ofPayload tag (start + 3) payload with defect | literal
    · rfl
    · rfl
  · rw [read, readBy, position_bind_of_reads first, position_bind_of_reads second,
      position_bind_of_reads third, position_bind_of_reads fourth,
      position_bind_of_reads (fifth _)]
    rcases ofPayload tag (start + 3) payload with defect | literal
    · rfl
    · rfl

theorem truncated_of_no_entry (none : ¬ ∃ tag payload, Entry bytes start tag payload) :
    (read bytes start).Truncated := by
  rcases reads_or_truncated_word bytes start UInt8.ofNat 1 with ⟨tag, behind_tag, first⟩ | cut
  swap
  · exact truncated_bind cut
  rcases reads_or_truncated_word bytes behind_tag UInt16.ofNat 2 with
    ⟨length, behind_length, second⟩ | cut
  swap
  · exact truncated_bind_of_reads first (truncated_bind cut)
  have third : Reads position bytes behind_length behind_length behind_length :=
    reads_position.mpr ⟨rfl, rfl⟩
  rcases reads_or_truncated_take bytes behind_length length.toNat with
    ⟨payload, stop, fourth⟩ | cut
  swap
  · exact truncated_bind_of_reads first
      (truncated_bind_of_reads second (truncated_bind_of_reads third (truncated_bind cut)))
  have inside := (takes_u8.add_le (by decide) first).2
  obtain ⟨_, mark, rfl, rfl⟩ := (accepts_u8 bytes start tag behind_tag inside).mp first
  obtain ⟨_, word, rfl, rfl⟩ :=
    (accepts_u16 bytes _ length behind_length mark.le_size).mp second
  obtain ⟨_, rest, ⟨size, rfl⟩, rfl⟩ :=
    (accepts_take length.toNat bytes _ payload stop word.le_size).mp fourth
  rw [← size] at word rest
  exact absurd ⟨tag, payload, size ▸ length.toNat_lt,
    Stands.append_iff.mpr ⟨Stands.append_iff.mpr ⟨mark, word⟩, rest⟩⟩ none

theorem fromUTF8?_eq_some_iff {text : String} :
    String.fromUTF8? payload = some text ↔ payload = text.toUTF8 := by
  unfold String.fromUTF8?
  constructor
  · intro found
    split at found
    · cases found
      rfl
    · cases found
  · rintro rfl
    exact dif_pos text.isValidUTF8

theorem holds_iff {form : List Char → Prop} :
    Holds payload form ↔ ∃ text : String, payload = text.toUTF8 ∧ form (trim text.toList) := by
  simp only [Holds, stripped_iff, exists_and_left, exists_eq_left]

theorem parseText_eq_ok_iff {γ ε : Type} {parse : Nat → String → Except Defect Literal}
    {number : List Char → Except ε γ} {wrap : γ → Literal} {offset : Nat} {literal : Literal}
    (parsed : ∀ text, parse offset text = .ok literal ↔
      ∃ v, literal = wrap v ∧ number (trim text.toList) = .ok v) :
    parseText offset payload parse = .ok literal ↔
      ∃ v, literal = wrap v ∧ Holds payload (number · = .ok v) := by
  have decoded : parseText offset payload parse = .ok literal ↔
      ∃ text : String, payload = text.toUTF8 ∧ parse offset text = .ok literal := by
    simp only [← fromUTF8?_eq_some_iff, parseText]
    cases String.fromUTF8? payload with
    | some text => simp
    | none => simp
  simp only [decoded, parsed, holds_iff]
  constructor
  · intro h
    obtain ⟨text, utf8, v, same, ok⟩ := h
    exact ⟨v, same, text, utf8, ok⟩
  · intro h
    obtain ⟨v, same, text, utf8, ok⟩ := h
    exact ⟨text, utf8, v, same, ok⟩

theorem ofPayload_integer_iff {offset : Nat} {literal : Literal} :
    ofPayload 1 offset payload = .ok literal ↔
      ∃ v : Int64, literal = .integer v ∧ Holds payload (Integer.Spells · v.toInt) := by
  simp only [← Integer.parse_eq_ok_iff]
  change parseText offset payload parseInteger = .ok literal ↔ _
  refine parseText_eq_ok_iff fun text => ?_
  rw [parseInteger]
  cases Integer.parse (trim text.toList) with
  | ok v => simp [eq_comm]
  | error fault => simp

theorem ofPayload_float_iff {offset : Nat} {literal : Literal} :
    ofPayload 2 offset payload = .ok literal ↔
      ∃ decimal, literal = .float (Decimal.toBinary64 decimal) ∧
        Holds payload (Decimal.parse · = .ok decimal) := by
  change parseText offset payload parseFloat = .ok literal ↔ _
  refine parseText_eq_ok_iff fun text => ?_
  rw [parseFloat]
  cases Decimal.parse (trim text.toList) with
  | ok decimal => simp [eq_comm]
  | error fault => simp

theorem exists_ofPayload_integer_iff {offset : Nat} {n : Int} :
    (∃ v : Int64, v.toInt = n ∧ ofPayload 1 offset payload = .ok (.integer v)) ↔
      -2 ^ 63 ≤ n ∧ n ≤ 2 ^ 63 - 1 ∧ Holds payload (Integer.Spells · n) := by
  simp only [ofPayload_integer_iff]
  constructor
  · intro h
    obtain ⟨v, rfl, w, same, holds⟩ := h
    cases same
    exact ⟨v.le_toInt, Int.le_sub_one_of_lt v.toInt_lt, holds⟩
  · intro h
    obtain ⟨low, high, holds⟩ := h
    have back : (Int64.ofInt n).toInt = n :=
      Int64.toInt_ofInt_of_le low (Int.lt_of_le_sub_one high)
    exact ⟨Int64.ofInt n, back, Int64.ofInt n, rfl, back.symm ▸ holds⟩

theorem exists_ofPayload_float_iff {offset : Nat} :
    (∃ literal, ofPayload 2 offset payload = .ok literal) ↔
      Holds payload (Signed fun _ => Decimal.Unsigned) := by
  simp only [ofPayload_float_iff, holds_iff, ← Decimal.exists_parse_eq_ok_iff]
  constructor
  · intro h
    obtain ⟨_, decimal, -, text, utf8, ok⟩ := h
    exact ⟨text, utf8, decimal, ok⟩
  · intro h
    obtain ⟨text, utf8, decimal, ok⟩ := h
    exact ⟨_, decimal, rfl, text, utf8, ok⟩

theorem ofPayload_unknown {offset : Nat} (high : 2 < tag) :
    ofPayload tag offset payload = .ok (.unknown tag payload) := by
  have unknown : LiteralKind.ofTag? tag = none := by
    unfold LiteralKind.ofTag?
    split
    · exact absurd high (by decide)
    · exact absurd high (by decide)
    · exact absurd high (by decide)
    · rfl
  rw [ofPayload, unknown]

theorem size_utf8Encode_le (cs : List Char) : cs.utf8Encode.size ≤ 4 * cs.length := by
  induction cs with
  | nil => simp
  | cons c cs ih =>
    have four := c.utf8Size_le_four
    rw [List.utf8Encode_cons, ByteArray.size_append, List.utf8Encode_singleton,
      List.size_toByteArray, String.length_utf8EncodeChar, List.length_cons]
    omega

/-- A sign and 19 digits at most, so the length of the text always fits. -/
theorem size_text_integer_lt (v : Int64) : (text (.integer v)).toUTF8.size < 2 ^ 16 := by
  have digits : (Nat.toDigits 10 v.toInt.natAbs).length ≤ 19 := by
    refine (Nat.length_toDigits_le_iff (by decide) (by decide)).mpr ?_
    have low := v.le_toInt
    have high := v.toInt_lt
    omega
  have length : (toString v.toInt).toList.length ≤ 20 := by
    rw [Integer.toList_toString]
    split
    · rw [List.length_cons]
      omega
    · omega
  have size := size_utf8Encode_le (toString v.toInt).toList
  rw [String.utf8Encode_toList] at size
  change (toString v.toInt).toUTF8.size ≤ _ at size
  change (toString v.toInt).toUTF8.size < _
  omega

/-- A whole entry is left behind, and its kind and its payload say what is read. Strings and unknown
kinds are kept as they are; a number is read exactly from text of it, and other text is malformed.
Where no whole entry stands, bytes are missing. What is printed of an integer is text of it. -/
theorem read_by_grammar (bytes : ByteArray) (start : Nat) :
    (∀ tag payload, Entry bytes start tag payload →
      (read bytes start).position = start + 3 + payload.size ∧
      ((∃ literal, (read bytes start).result = .ok literal) ∨
        ∃ defect, (read bytes start).result = .error (.malformed defect)) ∧
      (tag = 0 → (read bytes start).result = .ok (.string payload)) ∧
      (2 < tag → (read bytes start).result = .ok (.unknown tag payload)) ∧
      (tag = 1 →
        (∀ literal, (read bytes start).result = .ok literal → ∃ v, literal = .integer v) ∧
        ∀ n : Int, (∃ v : Int64, v.toInt = n ∧ (read bytes start).result = .ok (.integer v)) ↔
          -2 ^ 63 ≤ n ∧ n ≤ 2 ^ 63 - 1 ∧ Holds payload (Integer.Spells · n)) ∧
      (tag = 2 →
        (∀ literal, (read bytes start).result = .ok literal → ∃ x, literal = .float x) ∧
        ((∃ literal, (read bytes start).result = .ok literal) ↔
          Holds payload (Signed fun _ => Decimal.Unsigned)))) ∧
    ((¬ ∃ tag payload, Entry bytes start tag payload) → (read bytes start).Truncated) ∧
    ∀ v : Int64, (text (.integer v)).toUTF8.size < 2 ^ 16 ∧
      (Entry bytes start 1 (text (.integer v)).toUTF8 →
        (read bytes start).result = .ok (.integer v)) := by
  have ok_iff {tag : UInt8} {payload : ByteArray} (entry : Entry bytes start tag payload)
      (literal : Literal) : (read bytes start).result = .ok literal ↔
        ofPayload tag (start + 3) payload = .ok literal := by
    rw [(run_of_entry entry).1]
    cases ofPayload tag (start + 3) payload <;> simp [Except.mapError]
  refine ⟨fun tag payload entry => ⟨(run_of_entry entry).2, ?_, ?_, ?_, ?_, ?_⟩,
    truncated_of_no_entry, fun v => ⟨size_text_integer_lt v, fun entry => ?_⟩⟩
  · rw [(run_of_entry entry).1]
    cases ofPayload tag (start + 3) payload <;> simp [Except.mapError]
  · rintro rfl
    exact (ok_iff entry _).mpr rfl
  · intro high
    exact (ok_iff entry _).mpr (ofPayload_unknown high)
  · rintro rfl
    simp only [ok_iff entry, exists_ofPayload_integer_iff, implies_true, and_true]
    intro literal h
    obtain ⟨v, rfl, -⟩ := ofPayload_integer_iff.mp h
    exact ⟨v, rfl⟩
  · rintro rfl
    simp only [ok_iff entry, exists_ofPayload_float_iff, and_true]
    intro literal h
    obtain ⟨decimal, rfl, -⟩ := ofPayload_float_iff.mp h
    exact ⟨decimal.toBinary64, rfl⟩
  · have spells := Integer.spells_toString v.toInt
    refine (ok_iff entry _).mpr (ofPayload_integer_iff.mpr ⟨v, rfl, ?_⟩)
    exact ⟨toString v.toInt, _, rfl, spells.stripped, spells⟩

def smallestBytes : ByteArray := ⟨#[
  0xEE, 1, 0, 20, 0x2D, 0x39, 0x32, 0x32, 0x33, 0x33, 0x37, 0x32, 0x30, 0x33, 0x36, 0x38, 0x35,
  0x34, 0x37, 0x37, 0x35, 0x38, 0x30, 0x38]⟩

/-- The text of the smallest integer is read as it, and one byte less of it is not. -/
theorem read_by_grammar_smallest :
    Entry smallestBytes 1 1 (text (.integer Int64.minValue)).toUTF8 ∧
      (read smallestBytes 1).result = .ok (.integer Int64.minValue) ∧
      (read smallestBytes 1).position = 24 ∧
      (read (smallestBytes.extract 0 23) 1).Truncated := by
  have payload : (text (.integer Int64.minValue)).toUTF8 = smallestBytes.extract 4 24 := rfl
  have entry : Entry smallestBytes 1 1 (text (.integer Int64.minValue)).toUTF8 := by
    rw [payload]
    exact ⟨by decide, [0xEE], [], rfl, rfl⟩
  have none : ¬ ∃ tag payload, Entry (smallestBytes.extract 0 23) 1 tag payload := by
    intro h
    obtain ⟨tag, payload, whole⟩ := h
    have missing : (read (smallestBytes.extract 0 23) 1).result =
        .error (.truncated 4 20 19) := rfl
    rcases ((read_by_grammar _ 1).1 tag payload whole).2.1 with ⟨literal, ok⟩ | ⟨defect, bad⟩
    · cases missing.symm.trans ok
    · cases missing.symm.trans bad
  obtain ⟨whole, -, printed⟩ := read_by_grammar smallestBytes 1
  exact ⟨entry, (printed Int64.minValue).2 entry, (whole 1 _ entry).1,
    (read_by_grammar (smallestBytes.extract 0 23) 1).2.1 none⟩

end Literal

end RiteImage
