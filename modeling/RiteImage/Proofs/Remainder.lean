import Mathlib.Algebra.Field.ZMod
import Mathlib.Data.Nat.Bitwise
import Mathlib.Tactic.ComputeDegree
import Mathlib.Tactic.LinearCombination
import RiteImage.Checksum
import RiteImage.Proofs.BinaryPolynomial

/-! The check value as a remainder.
The register is always the remainder of what was taken in, eight places up, so that
nothing falls out of it at either end. The check value is the remainder of the bytes,
read as one polynomial behind the seed. It does not multiply the bytes by `X ^ 16`
first, as the usual check of sixteen bits does. -/
namespace RiteImage.Checksum

open Polynomial

noncomputable def generator : (ZMod 2)[X] := X ^ 16 + X ^ 12 + X ^ 5 + 1

theorem monic_generator : generator.Monic := by
  unfold generator
  monicity!

theorem degree_generator : generator.degree = 16 := by
  unfold generator
  compute_degree!

theorem polynomialOf_polynomial : polynomialOf polynomial.toNat = X ^ 8 * generator := by
  have one : polynomialOf 1 = 1 := by simp [polynomialOf]
  have digits : polynomial.toNat = 2 ^ 8 * (2 ^ 5 * (2 ^ 7 * (2 ^ 4 * 1 + 1) + 1) + 1) := by decide
  rw [digits, polynomialOf_mul_two_pow, polynomialOf_concat 5 _ (by decide),
    polynomialOf_concat 7 _ (by decide), polynomialOf_concat 4 _ (by decide), one, generator]
  ring

theorem eq_remainder {p r : (ZMod 2)[X]} (small : r.degree < 16) (congruent : generator ∣ r + p) :
    r = p %ₘ generator := by
  obtain ⟨q, sum⟩ := congruent
  have split : r + generator * q = p := by
    rw [← sum, ← add_assoc, CharTwo.add_self_eq_zero, zero_add]
  exact ((div_modByMonic_unique q r monic_generator ⟨split, degree_generator ▸ small⟩).2).symm

theorem dvd_remainder_add (p : (ZMod 2)[X]) : generator ∣ p %ₘ generator + p := by
  rw [← CharTwo.sub_eq_add]
  exact dvd_modByMonic_sub p generator

theorem degree_remainder_lt (p : (ZMod 2)[X]) : (p %ₘ generator).degree < 16 :=
  degree_generator ▸ degree_modByMonic_lt p monic_generator

theorem remainder_mul_add (a p q : (ZMod 2)[X]) :
    (a * (p %ₘ generator) + q) %ₘ generator = (a * p + q) %ₘ generator := by
  refine eq_remainder (degree_remainder_lt _) ?_
  have inner := (dvd_remainder_add p).mul_left a
  have outer := dvd_remainder_add (a * (p %ₘ generator) + q)
  have twice := CharTwo.add_self_eq_zero (a * (p %ₘ generator))
  have same : (a * (p %ₘ generator) + q) %ₘ generator + (a * p + q) =
      (a * (p %ₘ generator) + q) %ₘ generator + (a * (p %ₘ generator) + q) +
        a * (p %ₘ generator + p) := by
    linear_combination -twice
  rw [same]
  exact dvd_add outer inner

/-! One shift takes a bit out at the top only together with the polynomial. -/

theorem toNat_double {r : UInt32} (small : r.toNat < 2 ^ 24) : (r <<< 1).toNat = 2 * r.toNat := by
  rw [UInt32.toNat_shiftLeft, Nat.shiftLeft_eq]
  change r.toNat * 2 ^ 1 % 2 ^ 32 = _
  omega

theorem carry_eq_zero_iff (r : UInt32) : r &&& 0x1000000 = 0 ↔ r.toNat.testBit 24 = false := by
  rw [← UInt32.toNat_inj, UInt32.toNat_and]
  change r.toNat &&& 2 ^ 24 = 0 ↔ _
  rw [Nat.and_two_pow]
  cases r.toNat.testBit 24 <;> simp

theorem shift_lt {r : UInt32} (small : r.toNat < 2 ^ 24) : (shift r).toNat < 2 ^ 24 := by
  have double := toNat_double small
  have wide : (r <<< 1).toNat < 2 ^ 25 := by omega
  simp only [shift, carry_eq_zero_iff]
  apply Nat.lt_pow_two_of_testBit
  intro i above
  have beyond (lt : 24 < i) (n : Nat) (bound : n < 2 ^ 25) : n.testBit i = false :=
    Nat.testBit_lt_two_pow (Nat.lt_of_lt_of_le bound (Nat.pow_le_pow_right (by decide) lt))
  rcases Nat.lt_or_eq_of_le above with lt | rfl
  · split
    · exact beyond lt _ wide
    · rw [UInt32.toNat_xor, Nat.testBit_xor, beyond lt _ wide, beyond lt _ (by decide)]
      rfl
  · split
    · assumption
    · rename_i carry
      rw [UInt32.toNat_xor, Nat.testBit_xor, (Bool.not_eq_false _).mp carry]
      rfl

theorem dvd_shift_add {r : UInt32} (small : r.toNat < 2 ^ 24) :
    X ^ 8 * generator ∣ polynomialOf (shift r).toNat + X * polynomialOf r.toNat := by
  have double : polynomialOf (r <<< 1).toNat = X * polynomialOf r.toNat := by
    have up := polynomialOf_mul_two_pow 1 r.toNat
    rwa [pow_one, pow_one, ← toNat_double small] at up
  simp only [shift]
  split
  · rw [double, CharTwo.add_self_eq_zero]
    exact dvd_zero _
  · rw [UInt32.toNat_xor, polynomialOf_xor, double, polynomialOf_polynomial, add_right_comm,
      CharTwo.add_self_eq_zero, zero_add]

theorem repeat_shift_lt {r : UInt32} (small : r.toNat < 2 ^ 24) (count : Nat) :
    (Nat.repeat shift count r).toNat < 2 ^ 24 := by
  induction count with
  | zero => exact small
  | succ count ih => exact shift_lt ih

theorem dvd_repeat_shift_add {r : UInt32} (small : r.toNat < 2 ^ 24) (count : Nat) :
    X ^ 8 * generator ∣
      polynomialOf (Nat.repeat shift count r).toNat + X ^ count * polynomialOf r.toNat := by
  induction count with
  | zero =>
    rw [Nat.repeat, pow_zero, one_mul, CharTwo.add_self_eq_zero]
    exact dvd_zero _
  | succ count ih =>
    have one := dvd_shift_add (repeat_shift_lt small count)
    have both := dvd_add one (Dvd.dvd.mul_left ih X)
    have cancel (p q : (ZMod 2)[X]) : p + X * q + X * (q + X ^ count * polynomialOf r.toNat) =
        p + X ^ (count + 1) * polynomialOf r.toNat := by
      have twice := CharTwo.add_self_eq_zero (X * q)
      linear_combination twice
    rwa [cancel] at both

/-- The register is the remainder of what it has taken in, eight places up. -/
def Holds (register : UInt32) (taken : (ZMod 2)[X]) : Prop :=
  polynomialOf register.toNat = X ^ 8 * (taken %ₘ generator)

namespace Holds

variable {register : UInt32} {taken : (ZMod 2)[X]}

theorem lt (holds : Holds register taken) : register.toNat < 2 ^ 24 := by
  rw [← degree_polynomialOf_lt_iff, holds, degree_lt_iff_coeff_zero]
  intro i above
  have high := (degree_lt_iff_coeff_zero _ 16).mp (degree_remainder_lt taken) (i - 8) (by omega)
  rw [coeff_X_pow_mul', high, ite_self]

theorem dvd (holds : Holds register taken) : 2 ^ 8 ∣ register.toNat :=
  dvd_of_X_pow_dvd (holds ▸ dvd_mul_right _ _)

theorem toNat_or (holds : Holds register taken) (byte : UInt8) :
    (register ||| byte.toUInt32).toNat = register.toNat + byte.toNat := by
  obtain ⟨high, eq⟩ := holds.dvd
  rw [UInt32.toNat_or, UInt8.toNat_toUInt32, eq, Nat.two_pow_add_eq_or_of_lt byte.toNat_lt]

theorem or_lt (holds : Holds register taken) (byte : UInt8) :
    (register ||| byte.toUInt32).toNat < 2 ^ 24 := by
  have := holds.lt
  have := byte.toNat_lt
  obtain ⟨high, eq⟩ := holds.dvd
  rw [holds.toNat_or]
  omega

theorem absorb (holds : Holds register taken) (byte : UInt8) :
    Holds (absorb register byte) (X ^ 8 * taken + polynomialOf byte.toNat) := by
  have congruent := dvd_repeat_shift_add (holds.or_lt byte) 8
  have small := degree_polynomialOf_lt_iff.mpr (repeat_shift_lt (holds.or_lt byte) 8)
  have joined : polynomialOf (register ||| byte.toUInt32).toNat =
      X ^ 8 * (taken %ₘ generator) + polynomialOf byte.toNat := by
    obtain ⟨high, eq⟩ := holds.dvd
    rw [holds.toNat_or, ← holds, eq, polynomialOf_concat 8 high byte.toNat_lt,
      polynomialOf_mul_two_pow]
  rw [joined] at congruent
  obtain ⟨rest, shifted⟩ : X ^ 8 ∣ polynomialOf (Checksum.absorb register byte).toNat :=
    (dvd_add_left (dvd_mul_right _ _)).mp (dvd_of_mul_right_dvd congruent)
  change X ^ 8 * generator ∣ polynomialOf (Checksum.absorb register byte).toNat + _ at congruent
  change (polynomialOf (Checksum.absorb register byte).toNat).degree < _ at small
  rw [shifted, ← mul_add, mul_dvd_mul_iff_left (pow_ne_zero 8 X_ne_zero)] at congruent
  have low : rest.degree < 16 := by
    rw [shifted, degree_lt_iff_coeff_zero] at small
    refine (degree_lt_iff_coeff_zero rest 16).mpr fun i above => ?_
    have digit := small (i + 8) (by omega)
    rwa [coeff_X_pow_mul] at digit
  rw [Holds, shifted, eq_remainder low congruent, remainder_mul_add]

theorem foldl (holds : Holds register taken) (bytes : List UInt8) :
    Holds (bytes.foldl Checksum.absorb register)
      (X ^ (8 * bytes.length) * taken + polynomialOf (bigEndian bytes)) := by
  induction bytes using List.reverseRecOn with
  | nil => simpa [bigEndian] using holds
  | append_singleton bytes last ih =>
    have next := ih.absorb last
    have single : bigEndian [last] = last.toNat := Nat.zero_add _
    rw [List.foldl_append, List.foldl_cons, List.foldl_nil, polynomialOf_append, single,
      List.length_append, List.length_singleton, Nat.mul_add, pow_add]
    convert next using 1
    ring

theorem toNat_value (holds : Holds register taken) :
    register.toNat = 2 ^ 8 * (register >>> 8).toUInt16.toNat := by
  have small := holds.lt
  obtain ⟨high, eq⟩ := holds.dvd
  rw [UInt32.toNat_toUInt16, UInt32.toNat_shiftRight, Nat.shiftRight_eq_div_pow]
  change _ = 2 ^ 8 * (register.toNat / 2 ^ 8 % 2 ^ 16)
  omega

theorem polynomialOf_value (holds : Holds register taken) :
    polynomialOf (register >>> 8).toUInt16.toNat = taken %ₘ generator := by
  have aligned := holds
  rw [Holds, holds.toNat_value, polynomialOf_mul_two_pow] at aligned
  exact mul_left_cancel₀ (pow_ne_zero 8 X_ne_zero) aligned

end Holds

theorem toNat_align (value : UInt16) : (value.toUInt32 <<< 8).toNat = 2 ^ 8 * value.toNat := by
  have small := value.toNat_lt
  rw [UInt32.toNat_shiftLeft, Nat.shiftLeft_eq, UInt16.toNat_toUInt32]
  change value.toNat * 2 ^ 8 % 2 ^ 32 = _
  omega

theorem holds_seed (seed : UInt16) : Holds (seed.toUInt32 <<< 8) (polynomialOf seed.toNat) := by
  have low : (polynomialOf seed.toNat).degree < generator.degree := by
    rw [degree_generator]
    exact degree_polynomialOf_lt_iff.mpr seed.toNat_lt
  rw [Holds, toNat_align, polynomialOf_mul_two_pow,
    (modByMonic_eq_self_iff monic_generator).mpr low]

theorem holds_foldl (bytes : List UInt8) (seed : UInt16) :
    Holds (bytes.foldl absorb (seed.toUInt32 <<< 8))
      (X ^ (8 * bytes.length) * polynomialOf seed.toNat + polynomialOf (bigEndian bytes)) :=
  (holds_seed seed).foldl bytes

theorem polynomialOf_compute (bytes : List UInt8) (seed : UInt16) :
    polynomialOf (compute bytes seed).toNat =
      (X ^ (8 * bytes.length) * polynomialOf seed.toNat + polynomialOf (bigEndian bytes)) %ₘ
        generator :=
  (holds_foldl bytes seed).polynomialOf_value

/-- No bit of the register is lost when the check value is taken from it. -/
theorem align_compute (bytes : List UInt8) (seed : UInt16) :
    (compute bytes seed).toUInt32 <<< 8 = bytes.foldl absorb (seed.toUInt32 <<< 8) := by
  rw [← UInt32.toNat_inj, toNat_align, (holds_foldl bytes seed).toNat_value, compute]

theorem compute_append (one two : List UInt8) (seed : UInt16) :
    compute (one ++ two) seed = compute two (compute one seed) := by
  rw [compute, compute, align_compute, List.foldl_append]

theorem eq_of_polynomialOf_eq {one two : UInt16}
    (same : polynomialOf one.toNat = polynomialOf two.toNat) : one = two :=
  UInt16.toNat_inj.mp (polynomialOf_injective same)

theorem polynomialOf_zipWith_xor {one two : List UInt8} (length : one.length = two.length) :
    polynomialOf (bigEndian (List.zipWith (· ^^^ ·) one two)) =
      polynomialOf (bigEndian one) + polynomialOf (bigEndian two) := by
  induction one generalizing two with
  | nil =>
    cases two with
    | nil => exact (CharTwo.add_self_eq_zero _).symm
    | cons b two => cases length
  | cons a one ih =>
    cases two with
    | nil => cases length
    | cons b two =>
      have rest : one.length = two.length := Nat.succ.inj length
      have single (c : UInt8) : bigEndian [c] = c.toNat := Nat.zero_add _
      have first (c : UInt8) (bytes : List UInt8) : polynomialOf (bigEndian (c :: bytes)) =
          X ^ (8 * bytes.length) * polynomialOf c.toNat + polynomialOf (bigEndian bytes) := by
        rw [← single c, ← polynomialOf_append, List.singleton_append]
      rw [List.zipWith_cons_cons, first, first, first, ih rest, List.length_zipWith, rest,
        Nat.min_self, UInt8.toNat_xor, polynomialOf_xor]
      ring

theorem compute_zipWith_xor {one two : List UInt8} (length : one.length = two.length)
    (seed seed' : UInt16) : compute (List.zipWith (· ^^^ ·) one two) (seed ^^^ seed') =
      compute one seed ^^^ compute two seed' := by
  apply eq_of_polynomialOf_eq
  rw [UInt16.toNat_xor, polynomialOf_xor, polynomialOf_compute, polynomialOf_compute,
    polynomialOf_compute, polynomialOf_zipWith_xor length, List.length_zipWith, length,
    Nat.min_self, UInt16.toNat_xor, polynomialOf_xor, ← add_modByMonic]
  congr 1
  ring

/-! The usual check of sixteen bits multiplies the bytes by `X ^ 16` as well. -/

def xmodemShift (crc : UInt16) : UInt16 :=
  if crc &&& 0x8000 = 0 then crc <<< 1 else (crc <<< 1) ^^^ 0x1021

def xmodemByte (crc : UInt16) (byte : UInt8) : UInt16 :=
  Nat.repeat xmodemShift 8 (crc ^^^ (byte.toUInt16 <<< 8))

/-- The check known as CRC-16/XMODEM. -/
def xmodem (bytes : List UInt8) : UInt16 := bytes.foldl xmodemByte 0

theorem top_eq_zero_iff (crc : UInt16) : crc &&& 0x8000 = 0 ↔ crc.toNat < 2 ^ 15 := by
  have small := crc.toNat_lt
  rw [← UInt16.toNat_inj, UInt16.toNat_and]
  change crc.toNat &&& 2 ^ 15 = 0 ↔ _
  rw [Nat.and_two_pow, Nat.testBit_eq_decide_div_mod_eq]
  by_cases set : crc.toNat / 2 ^ 15 % 2 = 1
  · rw [decide_eq_true set]
    simp only [Bool.toNat_true]
    omega
  · rw [decide_eq_false set]
    simp only [Bool.toNat_false]
    omega

theorem leading_cancels (a b c : (ZMod 2)[X]) :
    X ^ 8 * (X ^ 16 * a + b) + X ^ 8 * (X ^ 16 * a + c) = X ^ 8 * (b + c) := by
  have twice := CharTwo.add_self_eq_zero (X ^ 8 * X ^ 16 * a)
  linear_combination twice

theorem shift_align (crc : UInt16) :
    shift (crc.toUInt32 <<< 8) = (xmodemShift crc).toUInt32 <<< 8 := by
  have small := crc.toNat_lt
  have up := toNat_align crc
  have double : (crc.toUInt32 <<< 8 <<< 1).toNat = 2 ^ 9 * crc.toNat := by
    rw [toNat_double (by omega), up]
    omega
  have carry : crc.toUInt32 <<< 8 <<< 1 &&& 0x1000000 = 0 ↔ crc.toNat < 2 ^ 15 := by
    rw [carry_eq_zero_iff, double, Nat.testBit_eq_decide_div_mod_eq, decide_eq_false_iff_not]
    omega
  have low : (crc <<< 1).toNat = 2 * crc.toNat % 2 ^ 16 := by
    rw [UInt16.toNat_shiftLeft, Nat.shiftLeft_eq]
    change crc.toNat * 2 ^ 1 % 2 ^ 16 = _
    omega
  rw [← UInt32.toNat_inj, toNat_align]
  simp only [shift, xmodemShift, carry, top_eq_zero_iff]
  split
  · rw [double, low]
    omega
  · rename_i set
    -- Both have their leading bit, which falls out of the sum of the two.
    obtain ⟨rest, split⟩ : ∃ rest, 2 * crc.toNat = 2 ^ 16 * 1 + rest :=
      ⟨2 * crc.toNat - 2 ^ 16, by omega⟩
    have low_eq : (crc <<< 1).toNat = rest := by omega
    have one : 2 ^ 9 * crc.toNat = 2 ^ 8 * (2 ^ 16 * 1 + rest) := by omega
    have two : polynomial.toNat = 2 ^ 8 * (2 ^ 16 * 1 + 0x1021) := by decide
    have tail : (0x1021 : UInt16).toNat = 0x1021 := by decide
    apply polynomialOf_injective
    rw [UInt32.toNat_xor, double, one, two, polynomialOf_xor, UInt16.toNat_xor, low_eq, tail,
      polynomialOf_mul_two_pow, polynomialOf_mul_two_pow, polynomialOf_mul_two_pow,
      polynomialOf_concat 16 1 (by omega), polynomialOf_concat 16 1 (by decide), polynomialOf_xor]
    exact leading_cancels _ _ _

theorem repeat_shift_align (count : Nat) (crc : UInt16) :
    Nat.repeat shift count (crc.toUInt32 <<< 8) =
      (Nat.repeat xmodemShift count crc).toUInt32 <<< 8 := by
  induction count with
  | zero => rfl
  | succ count ih => rw [Nat.repeat, ih, shift_align, Nat.repeat]

theorem polynomialOf_xmodemByte (crc : UInt16) (byte : UInt8) :
    polynomialOf (xmodemByte crc byte).toNat =
      (X ^ 8 * polynomialOf crc.toNat + X ^ 16 * polynomialOf byte.toNat) %ₘ generator := by
  have placed : (byte.toUInt16 <<< 8).toNat = 2 ^ 8 * byte.toNat := by
    have small := byte.toNat_lt
    rw [UInt16.toNat_shiftLeft, Nat.shiftLeft_eq, UInt8.toNat_toUInt16]
    change byte.toNat * 2 ^ 8 % 2 ^ 16 = _
    omega
  have start : ((crc ^^^ (byte.toUInt16 <<< 8)).toUInt32 <<< 8).toNat < 2 ^ 24 := by
    have small := (crc ^^^ (byte.toUInt16 <<< 8)).toNat_lt
    rw [toNat_align]
    omega
  have congruent := dvd_repeat_shift_add start 8
  rw [repeat_shift_align, toNat_align, toNat_align, polynomialOf_mul_two_pow,
    polynomialOf_mul_two_pow, UInt16.toNat_xor, polynomialOf_xor, placed, polynomialOf_mul_two_pow,
    mul_left_comm, ← mul_add, mul_dvd_mul_iff_left (pow_ne_zero 8 X_ne_zero)] at congruent
  have spread (p q : (ZMod 2)[X]) : X ^ 8 * p + X ^ 16 * q = X ^ 8 * (p + X ^ 8 * q) := by ring
  rw [spread]
  exact eq_remainder (degree_polynomialOf_lt_iff.mpr (UInt16.toNat_lt _)) congruent

theorem polynomialOf_xmodem (bytes : List UInt8) :
    polynomialOf (xmodem bytes).toNat = X ^ 16 * polynomialOf (bigEndian bytes) %ₘ generator := by
  induction bytes using List.reverseRecOn with
  | nil => simp [xmodem, bigEndian]
  | append_singleton bytes last ih =>
    have single : bigEndian [last] = last.toNat := Nat.zero_add _
    have step : xmodem (bytes ++ [last]) = xmodemByte (xmodem bytes) last := List.foldl_concat ..
    rw [step, polynomialOf_xmodemByte, ih, remainder_mul_add, polynomialOf_append, single,
      List.length_singleton]
    congr 1
    ring

theorem compute_append_zeros (bytes : List UInt8) : compute (bytes ++ [0, 0]) 0 = xmodem bytes := by
  have zeros : bigEndian [0, 0] = 0 := rfl
  have none : (0 : UInt16).toNat = 0 := rfl
  apply eq_of_polynomialOf_eq
  rw [polynomialOf_compute, polynomialOf_xmodem, polynomialOf_append, zeros, none]
  simp

/-- The check value is the remainder of the bytes behind the seed. On the way no bit falls out of
the register: a byte finds its eight places empty, and no shift reaches the top. So values of
parts, sums and zeros behind the bytes come out as those of polynomials do. -/
theorem compute_eq_remainder :
    (∀ (bytes : List UInt8) (seed : UInt16), polynomialOf (compute bytes seed).toNat =
      (polynomialOf seed.toNat * X ^ (8 * bytes.length) + polynomialOf (bigEndian bytes)) %ₘ
        (X ^ 16 + X ^ 12 + X ^ 5 + 1)) ∧
    (∀ (bytes : List UInt8) (seed : UInt16) (byte : UInt8) (count : Nat),
      let register := bytes.foldl absorb (seed.toUInt32 <<< 8)
      let shifted := Nat.repeat shift count (register ||| byte.toUInt32)
      register.toNat % 2 ^ 8 = 0 ∧ register.toNat < 2 ^ 24 ∧
        (register ||| byte.toUInt32).toNat = register.toNat + byte.toNat ∧
        (shifted <<< 1).toNat = 2 * shifted.toNat ∧
        (compute bytes seed).toUInt32 <<< 8 = register) ∧
    (∀ (one two : List UInt8) (seed : UInt16),
      compute (one ++ two) seed = compute two (compute one seed)) ∧
    (∀ (one two : List UInt8) (seed seed' : UInt16), one.length = two.length →
      compute (List.zipWith (· ^^^ ·) one two) (seed ^^^ seed') =
        compute one seed ^^^ compute two seed') ∧
    ∀ bytes : List UInt8, compute (bytes ++ [0, 0]) 0 = xmodem bytes := by
  refine ⟨fun bytes seed => ?_, fun bytes seed byte count => ?_, compute_append,
    fun one two seed seed' length => compute_zipWith_xor length seed seed', compute_append_zeros⟩
  · rw [polynomialOf_compute, mul_comm, generator]
  · have holds := holds_foldl bytes seed
    exact ⟨Nat.mod_eq_zero_of_dvd holds.dvd, holds.lt, holds.toNat_or byte,
      toNat_double (repeat_shift_lt (holds.or_lt byte) count), align_compute bytes seed⟩

theorem compute_eq_remainder_two_bytes :
    [0x31, 0x32].length = [0xFF, 0x80].length ∧
      compute [0xCE, 0xB2] 0x1235 = compute [0x31, 0x32] 0x1234 ^^^ compute [0xFF, 0x80] 0x0001 :=
  ⟨rfl, compute_eq_remainder.2.2.2.1 [0x31, 0x32] [0xFF, 0x80] 0x1234 0x0001 rfl⟩

/-- On the digits from one to nine the two checks differ. -/
example : compute [0x31, 0x32, 0x33, 0x34, 0x35, 0x36, 0x37, 0x38, 0x39] 0 = 0xBEEF ∧
    xmodem [0x31, 0x32, 0x33, 0x34, 0x35, 0x36, 0x37, 0x38, 0x39] = 0x31C3 := by
  decide +kernel

end RiteImage.Checksum
