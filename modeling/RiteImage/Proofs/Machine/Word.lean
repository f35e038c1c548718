import Mathlib.Algebra.Group.Nat.Defs
import RiteImage.Reader.Basic

namespace RiteImage.Word

def add (a b : UInt64) : Option UInt64 :=
  if a.toNat + b.toNat < 2 ^ 64 then some (a + b) else none

def sub (a b : UInt64) : Option UInt64 :=
  if b ≤ a then some (a - b) else none

def mod (a b : UInt64) : Option UInt64 :=
  if b = 0 then none else some (a % b)

def slice (bytes : ByteArray) (first last : UInt64) : Option ByteArray :=
  if first ≤ last ∧ last.toNat ≤ bytes.size then some (bytes.extract first.toNat last.toNat)
  else none

def saturatingSub (a b : UInt64) : UInt64 :=
  if b ≤ a then a - b else 0

def saturatingAdd (a b : UInt64) : UInt64 :=
  if a.toNat + b.toNat < 2 ^ 64 then a + b else UInt64.ofNat (2 ^ 64 - 1)

def size (bytes : ByteArray) : UInt64 := UInt64.ofNat bytes.size

variable {a b : UInt64} {bytes : ByteArray}

theorem toNat_of_add {sum : UInt64} (exact : add a b = some sum) :
    sum.toNat = a.toNat + b.toNat := by
  rw [add] at exact
  split at exact
  · rename_i fits
    cases exact
    rw [UInt64.toNat_add, Nat.mod_eq_of_lt fits]
  · cases exact

theorem add_of_lt (fits : a.toNat + b.toNat < 2 ^ 64) :
    ∃ sum, add a b = some sum ∧ sum.toNat = a.toNat + b.toNat := by
  have exact : add a b = some (a + b) := by rw [add, if_pos fits]
  exact ⟨a + b, exact, toNat_of_add exact⟩

theorem sub_of_le (le : b.toNat ≤ a.toNat) :
    ∃ rest, sub a b = some rest ∧ rest.toNat = a.toNat - b.toNat := by
  have exact : sub a b = some (a - b) := by rw [sub, if_pos (UInt64.le_iff_toNat_le.mpr le)]
  exact ⟨a - b, exact, UInt64.toNat_sub_of_le _ _ (UInt64.le_iff_toNat_le.mpr le)⟩

theorem mod_of_pos (positive : 0 < b.toNat) :
    ∃ rest, mod a b = some rest ∧ rest.toNat = a.toNat % b.toNat := by
  have nonzero : b ≠ 0 := by
    rintro rfl
    exact absurd positive (by decide)
  exact ⟨a % b, by rw [mod, if_neg nonzero], UInt64.toNat_mod ..⟩

theorem slice_of_le (le : a.toNat ≤ b.toNat) (inside : b.toNat ≤ bytes.size) :
    slice bytes a b = some (bytes.extract a.toNat b.toNat) := by
  rw [slice, if_pos ⟨UInt64.le_iff_toNat_le.mpr le, inside⟩]

theorem toNat_saturatingSub (a b : UInt64) :
    (saturatingSub a b).toNat = a.toNat - b.toNat := by
  rw [saturatingSub]
  split
  · rename_i le
    exact UInt64.toNat_sub_of_le _ _ le
  · rename_i gt
    have := mt UInt64.le_iff_toNat_le.mpr gt
    change 0 = _
    omega

theorem toNat_saturatingAdd (fits : a.toNat + b.toNat < 2 ^ 64) :
    (saturatingAdd a b).toNat = a.toNat + b.toNat := by
  rw [saturatingAdd, if_pos fits, UInt64.toNat_add, Nat.mod_eq_of_lt fits]

/-- A declared size does not carry a position beyond the words. -/
theorem toNat_saturatingAdd_declared (small : a.toNat < 2 ^ 63) (size : UInt32) :
    (saturatingAdd a size.toUInt64).toNat = a.toNat + size.toNat := by
  have word := size.toNat_lt
  have same : size.toUInt64.toNat = size.toNat := UInt32.toNat_toUInt64 ..
  rw [toNat_saturatingAdd (by omega), same]

theorem toNat_size (small : bytes.size < 2 ^ 63) : (size bytes).toNat = bytes.size :=
  UInt64.toNat_ofNat_of_lt' (Nat.lt_trans small (by decide))

end RiteImage.Word
