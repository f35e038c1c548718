import RiteImage.Image.Source
import RiteImage.Proofs.Machine.Cursor

namespace RiteImage.Machine

variable {bytes : ByteArray} {offset length : UInt64}

/-- A sum that is no word reaches beyond every source. -/
def slice (bytes : ByteArray) (offset length : UInt64) : Option (Except Cause ByteArray) :=
  let available := Word.saturatingSub (Word.size bytes) offset
  let missing := Cause.truncated offset.toNat length.toNat available.toNat
  match Word.add offset length with
  | none => some (.error missing)
  | some stop =>
    if Word.size bytes < stop then some (.error missing)
    else (Word.slice bytes offset stop).map .ok

def takeAt (offset length : UInt64) : Machine ByteArray := do
  seek offset
  take length

theorem slice_of_le (small : bytes.size < 2 ^ 63)
    (inside : offset.toNat + length.toNat ≤ bytes.size) :
    slice bytes offset length =
      some (.ok (bytes.extract offset.toNat (offset.toNat + length.toNat))) := by
  obtain ⟨stop, exact, sum⟩ := Word.add_of_lt (a := offset) (b := length) (by omega)
  have within : stop.toNat ≤ bytes.size := sum ▸ inside
  have reached : ¬ Word.size bytes < stop := by
    rw [UInt64.lt_iff_toNat_lt, Word.toNat_size small]
    omega
  have cut := Word.slice_of_le (a := offset) (by omega) within
  simp only [slice, exact, if_neg reached, cut, sum, Option.map_some]

theorem slice_of_lt (small : bytes.size < 2 ^ 63)
    (beyond : bytes.size < offset.toNat + length.toNat) :
    slice bytes offset length =
      some (.error (.truncated offset.toNat length.toNat (bytes.size - offset.toNat))) := by
  have available := Word.toNat_saturatingSub (Word.size bytes) offset
  rw [Word.toNat_size small] at available
  rw [slice, available]
  cases exact : Word.add offset length with
  | none => rfl
  | some stop =>
    have missing : Word.size bytes < stop := by
      rw [UInt64.lt_iff_toNat_lt, Word.toNat_size small, Word.toNat_of_add exact]
      exact beyond
    exact if_pos missing

/-- Moving to the offset and taking bytes there is what the reader does that is run at the offset. -/
theorem mirrors_takeAt (small : bytes.size < 2 ^ 63) (offset length : UInt64) :
    Mirrors bytes 0 (takeAt offset length bytes 0)
      (Reader.runAt (Reader.take length.toNat) bytes offset.toNat) := by
  have zero : (0 : UInt64).toNat = 0 := rfl
  rcases Nat.lt_or_ge bytes.size offset.toNat with beyond | inside
  · have stay := (Cursor.reaches_seek bytes 0 offset.toNat).stayed beyond
    exact .error _ 0 [] (bind_of_error (seek_of_lt small beyond)) (Reader.bind_of_error stay)
  · rw [takeAt, seek_bind small inside, Reader.runAt_of_le _ inside]
    exact (simulates_take 0 length bytes offset small (Nat.zero_le _) inside).mono (Nat.zero_le _)

/-- For every offset and length a slice is there exactly if their sum is at most the size of the
source. Then a new cursor can move to the offset and take as many bytes, and these are the same.
Otherwise the slice says what is missing, and the cursor fails too, in the same words if the offset
itself lies in the source. On words the results are these, and no operation goes wrong. -/
theorem slice_agrees (source : Source) (small : source.bytes.size < 2 ^ 63)
    (offset length : UInt64) :
    let sliced := source.slice offset.toNat length.toNat
    let taken := (Reader.runAt (Reader.take length.toNat) source.bytes offset.toNat).result
    slice source.bytes offset length = some sliced ∧
    (offset.toNat + length.toNat ≤ source.bytes.size → ∃ chunk stop,
      sliced = .ok chunk ∧ taken = .ok chunk ∧
      chunk.data.toList = (source.bytes.data.toList.drop offset.toNat).take length.toNat ∧
      takeAt offset length source.bytes 0 = some (.ok (chunk, stop)) ∧
      stop.toNat = offset.toNat + length.toNat) ∧
    (source.bytes.size < offset.toNat + length.toNat →
      sliced = .error (.truncated offset.toNat length.toNat (source.bytes.size - offset.toNat)) ∧
      ∃ e, taken = .error e ∧ takeAt offset length source.bytes 0 = some (.error e) ∧
        (offset.toNat ≤ source.bytes.size → sliced = .error e)) := by
  intro sliced taken
  have mirrors := mirrors_takeAt small offset length
  refine ⟨?_, fun inside => ?_, fun beyond => ?_⟩
  · rcases Nat.lt_or_ge source.bytes.size (offset.toNat + length.toNat) with beyond | inside
    · rw [slice_of_lt small beyond]
      exact congrArg some (if_neg (Nat.not_le.mpr beyond)).symm
    · rw [slice_of_le small inside]
      exact congrArg some (if_pos inside).symm
  · obtain ⟨ok, position⟩ := Reader.reads_runAt.mpr
      ⟨Nat.le_of_add_right_le inside,
        Reader.reads_take.mpr ⟨Nat.le_sub_of_add_le' inside, rfl, rfl⟩⟩
    obtain ⟨stop, ran, same⟩ := mirrors.run_of_ok ok
    have passed := between_eq source.bytes offset.toNat (offset.toNat + length.toNat)
    rw [Nat.add_sub_cancel_left] at passed
    exact ⟨_, stop, if_pos inside, ok, passed, ran, same.trans position⟩
  · have refused : sliced = .error _ := if_neg (Nat.not_le.mpr beyond)
    refine ⟨refused, ?_⟩
    rcases Nat.lt_or_ge source.bytes.size offset.toNat with outside | within
    · have stay := (Cursor.reaches_seek source.bytes 0 offset.toNat).stayed outside
      have failed : taken = .error _ := Reader.result_bind_of_error (congrArg Outcome.result stay)
      exact ⟨_, failed, mirrors.run_of_error failed, fun le => absurd le (Nat.not_le.mpr outside)⟩
    · have stay := (Cursor.reaches_take within length.toNat).stayed beyond
      rw [Nat.add_sub_cancel_left] at stay
      have failed : taken = .error _ :=
        congrArg Outcome.result ((Reader.runAt_of_le (Reader.take length.toNat) within).trans stay)
      exact ⟨_, failed, mirrors.run_of_error failed, fun _ => refused⟩

/-- An empty slice at the end of sixteen bytes, one behind it, and one whose end is no word. -/
theorem slice_agrees_edges :
    let bytes : ByteArray := ⟨Array.replicate 16 0⟩
    bytes.size < 2 ^ 63 ∧ slice bytes 16 0 = some (.ok .empty) ∧
      slice bytes 17 0 = some (.error (.truncated 17 0 0)) ∧
      takeAt 17 0 bytes 0 = some (.error (.truncated 0 17 16)) ∧
      slice bytes 0xFFFFFFFFFFFFFFFF 1 = some (.error (.truncated 0xFFFFFFFFFFFFFFFF 1 0)) := by
  intro bytes
  have small : bytes.size < 2 ^ 63 := by decide
  let source : Source := ⟨bytes, by decide⟩
  obtain ⟨atEnd, -, -⟩ := slice_agrees source small 16 0
  obtain ⟨behind, -, refused⟩ := slice_agrees source small 17 0
  obtain ⟨beyond, -, missing⟩ := slice_agrees source small 0xFFFFFFFFFFFFFFFF 1
  have word : (0xFFFFFFFFFFFFFFFF : UInt64).toNat = 0xFFFFFFFFFFFFFFFF := by decide
  have nothing : source.bytes.size - 0xFFFFFFFFFFFFFFFF = 0 := Nat.sub_eq_zero_of_le (by decide)
  rw [(missing (by decide)).1, word, nothing] at beyond
  obtain ⟨-, e, failed, ran, -⟩ := refused (by decide)
  cases failed
  exact ⟨small, atEnd, behind, ran, beyond⟩

end RiteImage.Machine
