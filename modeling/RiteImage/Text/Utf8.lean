namespace RiteImage.Utf8

def byteAt (bytes : ByteArray) (i : Nat) : UInt8 :=
  if h : i < bytes.size then bytes[i] else 0

def continues (byte : UInt8) : Bool := 0x80 ≤ byte && byte ≤ 0xBF

def fits (lead second : UInt8) : Bool :=
  if lead = 0xE0 then 0xA0 ≤ second && second ≤ 0xBF
  else if lead = 0xED then 0x80 ≤ second && second ≤ 0x9F
  else if lead = 0xF0 then 0x90 ≤ second && second ≤ 0xBF
  else if lead = 0xF4 then 0x80 ≤ second && second ≤ 0x8F
  else continues second

/-- The bytes at `i` that one replacement character stands for, where no character is written. -/
def brokenLength (bytes : ByteArray) (i : Nat) : Nat :=
  let lead := byteAt bytes i
  if lead < 0xE0 || 0xF4 < lead || !fits lead (byteAt bytes (i + 1)) then 1
  else if 0xF0 ≤ lead && continues (byteAt bytes (i + 2)) then 3
  else 2

theorem brokenLength_pos (bytes : ByteArray) (i : Nat) : 0 < brokenLength bytes i := by
  simp only [brokenLength]
  split
  · decide
  · split <;> decide

def decodeFrom (bytes : ByteArray) (i : Nat) (text : String) : String :=
  if i < bytes.size then
    match bytes.utf8DecodeChar? i with
    | some c => decodeFrom bytes (i + c.utf8Size) (text.push c)
    | none => decodeFrom bytes (i + brokenLength bytes i) (text.push '\ufffd')
  else text
termination_by bytes.size - i
decreasing_by
  · have := c.utf8Size_pos
    omega
  · have := brokenLength_pos bytes i
    omega

def decode (bytes : ByteArray) : String := decodeFrom bytes 0 ""

theorem decodeFrom_encoded (before after : List Char) (text : String) :
    decodeFrom (before ++ after).utf8Encode before.utf8Encode.size text =
      text ++ String.ofList after := by
  induction after generalizing before text with
  | nil =>
    rw [decodeFrom, if_neg (by simp)]
    simp
  | cons c after ih =>
    have found : (before ++ c :: after).utf8Encode.utf8DecodeChar? before.utf8Encode.size =
        some c := by
      rw [ByteArray.utf8DecodeChar?_eq_utf8DecodeChar?_extract, List.utf8Encode_append,
        ByteArray.extract_append_eq_right rfl ByteArray.size_append,
        List.utf8DecodeChar?_utf8Encode_cons]
    have inside := ByteArray.le_size_of_utf8DecodeChar?_eq_some found
    have positive := c.utf8Size_pos
    have behind : (before ++ [c]).utf8Encode.size = before.utf8Encode.size + c.utf8Size := by
      rw [List.utf8Encode_append, ByteArray.size_append, List.utf8Encode_singleton,
        List.size_toByteArray, String.length_utf8EncodeChar]
    have rest := ih (before ++ [c]) (text.push c)
    rw [List.append_assoc, List.singleton_append, behind] at rest
    rw [decodeFrom, if_pos (by omega), found]
    refine rest.trans ?_
    rw [String.ofList_cons, ← String.append_assoc, String.append_singleton]

theorem decode_toUTF8 (s : String) : decode s.toUTF8 = s := by
  have whole := decodeFrom_encoded [] s.toList ""
  rw [List.nil_append, String.utf8Encode_toList, String.ofList_toList, String.empty_append] at whole
  exact whole

end RiteImage.Utf8
