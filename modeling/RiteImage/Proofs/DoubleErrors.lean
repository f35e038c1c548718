import Mathlib.GroupTheory.OrderOfElement
import Mathlib.RingTheory.AdjoinRoot
import Mathlib.Tactic.NormNum.Prime
import RiteImage.Proofs.BitErrors

/-! Errors in two bits.
Two wrong bits are a multiple of the generator if the power of the variable between them
is one modulo the generator. That happens first at 32767, which is the order of the
variable: powers are found by squaring, and the check value reduces each square. -/
namespace RiteImage

open Polynomial

@[simp] theorem polynomialOf_one : polynomialOf 1 = 1 := by simp [polynomialOf]

def spread : Nat → Nat → Nat
  | 0, _ => 0
  | count + 1, n => 4 * spread count (n / 2) + n % 2

theorem three_mul_spread_lt (count n : Nat) : 3 * spread count n < 4 ^ count := by
  induction count generalizing n with
  | zero => exact Nat.one_pos
  | succ count ih =>
    have high := ih (n / 2)
    have digit := Nat.mod_lt n (by decide : 0 < 2)
    rw [spread, Nat.pow_succ]
    omega

/-- In characteristic two a square has the digits of its root at twice their places. -/
theorem polynomialOf_spread {count n : Nat} (small : n < 2 ^ count) :
    polynomialOf (spread count n) = polynomialOf n ^ 2 := by
  induction count generalizing n with
  | zero =>
    obtain rfl : n = 0 := Nat.lt_one_iff.mp small
    rw [spread, polynomialOf_zero, zero_pow two_ne_zero]
  | succ count ih =>
    have high : n / 2 < 2 ^ count := by
      rw [Nat.pow_succ] at small
      omega
    have low : n % 2 < 2 ^ 1 := Nat.mod_lt n (by decide)
    have whole : n = 2 ^ 1 * (n / 2) + n % 2 := (Nat.div_add_mod n 2).symm
    have digit : polynomialOf (n % 2) ^ 2 = polynomialOf (n % 2) := by
      rcases Nat.mod_two_eq_zero_or_one n with zero | one
      · rw [zero, polynomialOf_zero, zero_pow two_ne_zero]
      · rw [one, polynomialOf_one, one_pow]
    have root : polynomialOf n = X * polynomialOf (n / 2) + polynomialOf (n % 2) := by
      conv_lhs => rw [whole]
      rw [polynomialOf_concat 1 _ low, pow_one]
    have spaced := polynomialOf_concat 2 (spread count (n / 2))
      (Nat.lt_trans low (by decide : 2 ^ 1 < 2 ^ 2))
    rw [spread, root, CharTwo.add_sq, mul_pow, digit, ← ih high]
    exact spaced

namespace Checksum

theorem remainder_of_small {n : Nat} (small : n < 2 ^ 16) :
    polynomialOf n %ₘ generator = polynomialOf n := by
  rw [modByMonic_eq_self_iff monic_generator, degree_generator]
  exact degree_polynomialOf_lt_iff.mpr small

theorem polynomialOf_compute_wordBytes {n : Nat} (small : n < 2 ^ 32) :
    polynomialOf (compute (wordBytes 4 n) 0).toNat = polynomialOf n %ₘ generator := by
  rw [polynomialOf_compute, bigEndian_wordBytes small]
  change (_ * polynomialOf 0 + _) %ₘ generator = _
  rw [polynomialOf_zero, mul_zero, zero_add]

/-- The remainder of `X ^ n`, for an exponent of so many binary digits. -/
def power : Nat → Nat → UInt16
  | 0, _ => 1
  | count + 1, n =>
    compute (wordBytes 4 (2 ^ (n % 2) * spread 16 (power count (n / 2)).toNat)) 0

theorem polynomialOf_power {count n : Nat} (small : n < 2 ^ count) :
    polynomialOf (power count n).toNat = X ^ n %ₘ generator := by
  induction count generalizing n with
  | zero =>
    obtain rfl : n = 0 := Nat.lt_one_iff.mp small
    change polynomialOf 1 = X ^ 0 %ₘ generator
    rw [pow_zero, ← polynomialOf_one, remainder_of_small (by decide)]
  | succ count ih =>
    have high : n / 2 < 2 ^ count := by
      rw [Nat.pow_succ] at small
      omega
    have fits : 2 ^ (n % 2) * spread 16 (power count (n / 2)).toNat < 2 ^ 32 := by
      have bound := three_mul_spread_lt 16 (power count (n / 2)).toNat
      rcases Nat.mod_two_eq_zero_or_one n with zero | one
      · rw [zero]
        omega
      · rw [one]
        omega
    -- Each factor of the square may be reduced first.
    have reduced (a p : (ZMod 2)[X]) :
        a * (p %ₘ generator) ^ 2 %ₘ generator = a * p ^ 2 %ₘ generator := by
      have one := remainder_mul_add (a * (p %ₘ generator)) p 0
      have two := remainder_mul_add (a * p) p 0
      simp only [add_zero] at one two
      rw [pow_two, ← mul_assoc, one, mul_right_comm, two, mul_assoc, pow_two]
    have exponent : n = n % 2 + n / 2 * 2 := by omega
    rw [power, polynomialOf_compute_wordBytes fits, polynomialOf_mul_two_pow,
      polynomialOf_spread (UInt16.toNat_lt _), ih high, reduced, ← pow_mul, ← pow_add, ← exponent]

theorem dvd_X_pow_add_one_iff_power {count n : Nat} (small : n < 2 ^ count) :
    generator ∣ X ^ n + 1 ↔ power count n = 1 := by
  have one : (1 : (ZMod 2)[X]) %ₘ generator = polynomialOf (1 : UInt16).toNat := by
    change _ = polynomialOf 1
    rw [← polynomialOf_one, remainder_of_small (by decide)]
  rw [← modByMonic_eq_zero_iff_dvd monic_generator, add_modByMonic, one, ← polynomialOf_power small,
    CharTwo.add_eq_zero]
  constructor
  · exact eq_of_polynomialOf_eq
  · intro same
    rw [same]

theorem root_pow_eq_one_iff (n : Nat) :
    AdjoinRoot.root generator ^ n = 1 ↔ generator ∣ X ^ n + 1 := by
  rw [← CharTwo.sub_eq_add, ← AdjoinRoot.mk_eq_zero, map_sub, map_pow, map_one, AdjoinRoot.mk_X,
    sub_eq_zero]

/-- The order is `7 * 31 * 151`, since the power without any of these factors is not one. -/
theorem orderOf_root : orderOf (AdjoinRoot.root generator) = 32767 := by
  have power_one (n : Nat) (small : n < 2 ^ 15) :
      AdjoinRoot.root generator ^ n = 1 ↔ power 15 n = 1 :=
    (root_pow_eq_one_iff n).trans (dvd_X_pow_add_one_iff_power small)
  refine orderOf_eq_of_pow_and_pow_div_prime (by decide) ?_ fun p prime divides => ?_
  · exact (power_one _ (by decide)).mpr (by decide +kernel)
  · have factors : p ∣ 7 * (31 * 151) := divides
    rw [prime.dvd_mul, prime.dvd_mul, Nat.prime_dvd_prime_iff_eq prime (by norm_num),
      Nat.prime_dvd_prime_iff_eq prime (by norm_num),
      Nat.prime_dvd_prime_iff_eq prime (by norm_num)] at factors
    rcases factors with rfl | rfl | rfl
    · exact (power_one _ (by decide)).not.mpr (by decide +kernel)
    · exact (power_one _ (by decide)).not.mpr (by decide +kernel)
    · exact (power_one _ (by decide)).not.mpr (by decide +kernel)

theorem dvd_X_pow_add_one_iff (n : Nat) : generator ∣ X ^ n + 1 ↔ 32767 ∣ n := by
  rw [← root_pow_eq_one_iff, ← orderOf_dvd_iff_pow_eq_one, orderOf_root]

/-- Where exactly two bits differ, the check values are the same only if the distance of the bits
is a multiple of the order. In fewer bits than the order there are no two at such a distance. -/
theorem compute_eq_iff_dvd_distance {one two : List UInt8} (length : one.length = two.length)
    {i j : Nat} (before : i < j) (places : differing one two = {i, j}) (seed : UInt16) :
    (compute one seed = compute two seed ↔ 32767 ∣ j - i) ∧
      ∀ first count, count < 32767 → first ≤ i → j < first + count →
        compute one seed ≠ compute two seed := by
  have inside : j < 8 * one.length := by
    have mem : j ∈ differing one two := by simp [places]
    exact Finset.mem_range.mp (Finset.mem_filter.mp mem).1
  have sum : polynomialOf (bigEndian one) + polynomialOf (bigEndian two) =
      X ^ (8 * one.length - 1 - j) * (X ^ (j - i) + 1) := by
    have exponent : 8 * one.length - 1 - i = 8 * one.length - 1 - j + (j - i) := by omega
    rw [polynomialOf_add_eq_sum length, places, Finset.sum_pair (Nat.ne_of_lt before), exponent,
      pow_add, mul_add, mul_one]
  have same : compute one seed = compute two seed ↔ 32767 ∣ j - i := by
    rw [compute_eq_iff length, sum, ← dvd_X_pow_add_one_iff]
    constructor
    · exact (isCoprime_X_pow_generator _).symm.dvd_of_dvd_mul_left
    · exact fun divides => Dvd.dvd.mul_left divides _
  refine ⟨same, fun first count short after within => ?_⟩
  rw [Ne, same]
  intro divides
  have far := Nat.le_of_dvd (Nat.sub_pos_of_lt before) divides
  omega

def farErrors : List UInt8 := 1 :: (List.replicate 4095 0 ++ [2])

theorem getD_farErrors (byte : Nat) :
    farErrors.getD byte 0 = if byte = 0 then 1 else if byte = 4096 then 2 else 0 := by
  rcases byte with _ | next
  · rfl
  rw [farErrors, List.getD_cons_succ, if_neg (Nat.succ_ne_zero next)]
  rcases Nat.lt_or_ge next 4095 with within | behind
  · rw [List.getD_append _ _ _ _ (by rwa [List.length_replicate]), List.getD_replicate _ within,
      if_neg (by omega)]
  · rw [List.getD_append_right _ _ _ _ (by rwa [List.length_replicate]), List.length_replicate]
    rcases Nat.exists_eq_add_of_le behind with ⟨_ | further, rfl⟩
    · rfl
    · rw [if_neg (by omega), Nat.add_sub_cancel_left]
      rfl

theorem bitAt_farErrors (place : Nat) :
    bitAt farErrors place = decide (place = 7 ∨ place = 7 + 32767) := by
  rw [bitAt, getD_farErrors]
  split
  · change Nat.testBit (2 ^ 0) _ = _
    rw [Nat.testBit_two_pow, decide_eq_decide]
    omega
  split
  · change Nat.testBit (2 ^ 1) _ = _
    rw [Nat.testBit_two_pow, decide_eq_decide]
    omega
  · change Nat.testBit 0 _ = _
    rw [Nat.zero_testBit, eq_comm, decide_eq_false_iff_not]
    omega

theorem bitAt_zeros (count place : Nat) : bitAt (List.replicate count 0) place = false := by
  have zero : (List.replicate count (0 : UInt8)).getD (place / 8) 0 = 0 := by
    rw [List.getD_eq_getElem?_getD, List.getElem?_replicate]
    split <;> rfl
  rw [bitAt, zero]
  exact Nat.zero_testBit _

theorem compute_eq_iff_dvd_distance_far :
    differing farErrors (List.replicate 4097 0) = {7, 7 + 32767} ∧
      compute farErrors 0x1234 = compute (List.replicate 4097 0) 0x1234 := by
  have length : farErrors.length = 4097 := by
    rw [farErrors, List.length_cons, List.length_append, List.length_replicate,
      List.length_singleton]
  have places : differing farErrors (List.replicate 4097 0) = {7, 7 + 32767} := by
    ext place
    simp only [differing, Finset.mem_filter, Finset.mem_range, bitAt_farErrors, bitAt_zeros, length,
      Finset.mem_insert, Finset.mem_singleton, ne_eq, decide_eq_false_iff_not, not_not]
    omega
  have same := compute_eq_iff_dvd_distance (by rw [length, List.length_replicate])
    (by decide : 7 < 7 + 32767) places 0x1234
  exact ⟨places, same.1.mpr (by decide)⟩

end Checksum

end RiteImage
