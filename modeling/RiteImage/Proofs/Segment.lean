import Mathlib.Algebra.Group.Nat.Defs
import Mathlib.Data.List.Induction
import RiteImage.Reader.Basic

/-! Words as bytes, and bytes in a buffer.
A word of a fixed width has one written form. A segment stands at a position of a
buffer if the buffer is as many bytes as the position says, the segment, and any
others. -/
namespace RiteImage

/-- The last `count` digits of a number to the base 256, the most significant first. -/
def wordBytes : Nat → Nat → List UInt8
  | 0, _ => []
  | count + 1, value => wordBytes count (value / 256) ++ [UInt8.ofNat value]

@[simp] theorem length_wordBytes (count value : Nat) : (wordBytes count value).length = count := by
  induction count generalizing value with
  | zero => rfl
  | succ count ih => simp [wordBytes, ih]

theorem bigEndian_concat (bytes : List UInt8) (last : UInt8) :
    bigEndian (bytes ++ [last]) = 256 * bigEndian bytes + last.toNat := by
  simp only [bigEndian, List.foldl_append, List.foldl_cons, List.foldl_nil]

theorem bigEndian_lt (bytes : List UInt8) : bigEndian bytes < 256 ^ bytes.length := by
  induction bytes using List.reverseRecOn with
  | nil => decide
  | append_singleton bytes last ih =>
    rw [bigEndian_concat, List.length_append, List.length_singleton, Nat.pow_succ]
    have := last.toNat_lt
    omega

theorem bigEndian_wordBytes {count value : Nat} (fits : value < 256 ^ count) :
    bigEndian (wordBytes count value) = value := by
  induction count generalizing value with
  | zero =>
    have : value = 0 := by simpa using fits
    subst this
    rfl
  | succ count ih =>
    have high : value / 256 < 256 ^ count := by
      rw [Nat.pow_succ] at fits
      omega
    rw [wordBytes, bigEndian_concat, ih high, UInt8.toNat_ofNat']
    omega

theorem wordBytes_bigEndian (bytes : List UInt8) :
    wordBytes bytes.length (bigEndian bytes) = bytes := by
  induction bytes using List.reverseRecOn with
  | nil => rfl
  | append_singleton bytes last ih =>
    have high : (256 * bigEndian bytes + last.toNat) / 256 = bigEndian bytes := by
      have := last.toNat_lt
      omega
    have low : UInt8.ofNat (256 * bigEndian bytes + last.toNat) = last := by
      apply UInt8.toNat_inj.mp
      have := last.toNat_lt
      rw [UInt8.toNat_ofNat']
      omega
    rw [bigEndian_concat, List.length_append, List.length_singleton, wordBytes, high, ih, low]

/-- A buffer holds a segment from a position on. -/
def Stands (bytes : ByteArray) (start : Nat) (segment : List UInt8) : Prop :=
  ∃ before after, bytes.data.toList = before ++ segment ++ after ∧ before.length = start

def between (bytes : ByteArray) (start stop : Nat) : List UInt8 :=
  (bytes.extract start stop).data.toList

theorem between_eq (bytes : ByteArray) (start stop : Nat) :
    between bytes start stop = (bytes.data.toList.drop start).take (stop - start) := by
  simp [between, ByteArray.data_extract, List.extract_eq_take_drop]

theorem length_toList (bytes : ByteArray) : bytes.data.toList.length = bytes.size := rfl

theorem getElem?_toList (bytes : ByteArray) (i : Nat) : bytes.data.toList[i]? = bytes[i]? := by
  rw [Array.getElem?_toList]
  rfl

theorem between_congr {one two : ByteArray} {start stop : Nat}
    (same : ∀ i, start ≤ i → i < stop → one[i]? = two[i]?) :
    between one start stop = between two start stop := by
  rw [between_eq, between_eq]
  apply List.ext_getElem?
  intro i
  rw [List.getElem?_take, List.getElem?_take, List.getElem?_drop, List.getElem?_drop,
    getElem?_toList, getElem?_toList]
  split
  · exact same _ (Nat.le_add_right _ _) (by omega)
  · rfl

namespace Stands

variable {bytes : ByteArray} {start : Nat} {segment rest : List UInt8}

theorem le_size (h : Stands bytes start segment) : start + segment.length ≤ bytes.size := by
  obtain ⟨before, after, whole, rfl⟩ := h
  rw [← length_toList, whole]
  simp only [List.length_append]
  omega

theorem between_eq (h : Stands bytes start segment) :
    between bytes start (start + segment.length) = segment := by
  obtain ⟨before, after, whole, rfl⟩ := h
  rw [RiteImage.between_eq, whole, List.append_assoc, List.drop_left, Nat.add_sub_cancel_left,
    List.take_left]

theorem of_between {stop : Nat} (le : start ≤ stop) (inside : stop ≤ bytes.size) :
    Stands bytes start (between bytes start stop) := by
  refine ⟨bytes.data.toList.take start, bytes.data.toList.drop stop, ?_, ?_⟩
  · rw [RiteImage.between_eq, ← List.take_add, Nat.add_sub_cancel' le, List.take_append_drop]
  · rw [List.length_take, length_toList]
    omega

theorem nil (inside : start ≤ bytes.size) : Stands bytes start [] :=
  ⟨bytes.data.toList.take start, bytes.data.toList.drop start,
    by rw [List.append_nil, List.take_append_drop],
    by rw [List.length_take, length_toList]; omega⟩

theorem append_iff : Stands bytes start (segment ++ rest) ↔
    Stands bytes start segment ∧ Stands bytes (start + segment.length) rest := by
  constructor
  · intro h
    obtain ⟨before, after, whole, rfl⟩ := h
    exact ⟨⟨before, rest ++ after, by simp [whole], rfl⟩,
      ⟨before ++ segment, after, by simp [whole], by simp⟩⟩
  · intro h
    obtain ⟨⟨before, _, whole, rfl⟩, ⟨longer, after, whole', len⟩⟩ := h
    have first : longer = before ++ segment := by
      have same := whole.symm.trans whole'
      rw [List.append_assoc longer] at same
      exact (List.append_inj_left same (by simp [len])).symm
    exact ⟨before, after, by rw [whole', first]; simp, rfl⟩

end Stands

theorem length_between {bytes : ByteArray} {start stop : Nat} (inside : stop ≤ bytes.size) :
    (between bytes start stop).length = stop - start := by
  rw [between_eq, List.length_take, List.length_drop, length_toList]
  omega

end RiteImage
