import Mathlib.RingTheory.Coprime.Lemmas
import RiteImage.Proofs.Remainder

namespace RiteImage

open Polynomial

def bitAt (bytes : List UInt8) (place : Nat) : Bool :=
  (bytes.getD (place / 8) 0).toNat.testBit (7 - place % 8)

def differing (one two : List UInt8) : Finset Nat :=
  {place ∈ Finset.range (8 * one.length) | bitAt one place ≠ bitAt two place}

theorem testBit_bigEndian {bytes : List UInt8} {place : Nat} (inside : place < 8 * bytes.length) :
    (bigEndian bytes).testBit (8 * bytes.length - 1 - place) = bitAt bytes place := by
  induction bytes using List.reverseRecOn with
  | nil => exact absurd inside (Nat.not_lt_zero _)
  | append_singleton bytes last ih =>
    rw [List.length_append, List.length_singleton] at inside ⊢
    rw [bigEndian_concat, show (256 : Nat) = 2 ^ 8 by rfl,
      Nat.testBit_two_pow_mul_add _ last.toNat_lt, bitAt]
    rcases Nat.lt_or_ge place (8 * bytes.length) with before | within
    · have shifted : 8 * (bytes.length + 1) - 1 - place - 8 = 8 * bytes.length - 1 - place := by
        omega
      rw [if_neg (by omega), shifted, ih before, bitAt, List.getD_append _ _ _ _ (by omega)]
    · have byte : place / 8 = bytes.length := by omega
      have digit : 8 * (bytes.length + 1) - 1 - place = 7 - place % 8 := by omega
      rw [if_pos (by omega), byte, digit, List.getD_append_right _ _ _ _ (Nat.le_refl _),
        Nat.sub_self]
      rfl

theorem bigEndian_injective {one two : List UInt8} (length : one.length = two.length)
    (same : bigEndian one = bigEndian two) : one = two := by
  rw [← wordBytes_bigEndian one, ← wordBytes_bigEndian two, length, same]

theorem polynomialOf_add_eq_zero_iff {one two : List UInt8} (length : one.length = two.length) :
    polynomialOf (bigEndian one) + polynomialOf (bigEndian two) = 0 ↔ one = two := by
  rw [CharTwo.add_eq_zero]
  constructor
  · exact fun same => bigEndian_injective length (polynomialOf_injective same)
  · rintro rfl
    rfl

theorem polynomialOf_add_eq_sum {one two : List UInt8} (length : one.length = two.length) :
    polynomialOf (bigEndian one) + polynomialOf (bigEndian two) =
      ∑ place ∈ differing one two, X ^ (8 * one.length - 1 - place) := by
  ext i
  simp only [coeff_add, coeff_polynomialOf, finsetSum_coeff, coeff_X_pow]
  rcases Nat.lt_or_ge i (8 * one.length) with inside | outside
  · obtain ⟨place, le, rfl⟩ : ∃ place, place < 8 * one.length ∧ i = 8 * one.length - 1 - place :=
      ⟨8 * one.length - 1 - i, by omega, by omega⟩
    have only (other : Nat) (mem : other ∈ differing one two) :
        (8 * one.length - 1 - place = 8 * one.length - 1 - other) ↔ (place = other) := by
      have := Finset.mem_range.mp (Finset.mem_filter.mp mem).1
      omega
    have bit := testBit_bigEndian le
    have bit' := testBit_bigEndian (length ▸ le)
    rw [← length] at bit'
    rw [bit, bit', Finset.sum_congr rfl fun other mem => if_congr (only other mem) rfl rfl,
      Finset.sum_ite_eq]
    simp only [differing, Finset.mem_filter, Finset.mem_range, le, true_and]
    cases bitAt one place <;> cases bitAt two place <;> decide
  · have high (bytes : List UInt8) (same : bytes.length = one.length) :
        (bigEndian bytes).testBit i = false := by
      have small := bigEndian_lt_two_pow bytes
      rw [same] at small
      have wide := Nat.pow_le_pow_right (by decide : 0 < 2) outside
      exact Nat.testBit_lt_two_pow (Nat.lt_of_lt_of_le small wide)
    have none (other : Nat) (mem : other ∈ differing one two) :
        ¬ i = 8 * one.length - 1 - other := by
      have := Finset.mem_range.mp (Finset.mem_filter.mp mem).1
      omega
    rw [high one rfl, high two length.symm,
      Finset.sum_congr rfl fun other mem => if_neg (none other mem), Finset.sum_const_zero]
    rfl

theorem polynomialOf_add_around {one two : List UInt8} (length : one.length = two.length)
    (before after : List UInt8) :
    polynomialOf (bigEndian (before ++ one ++ after)) +
        polynomialOf (bigEndian (before ++ two ++ after)) =
      X ^ (8 * after.length) * (polynomialOf (bigEndian one) + polynomialOf (bigEndian two)) := by
  rw [polynomialOf_append, polynomialOf_append, polynomialOf_append, polynomialOf_append, length]
  have outside := CharTwo.add_self_eq_zero (X ^ (8 * after.length) *
    (X ^ (8 * two.length) * polynomialOf (bigEndian before)) + polynomialOf (bigEndian after))
  linear_combination outside

namespace Checksum

theorem compute_eq_iff {one two : List UInt8} (length : one.length = two.length) (seed : UInt16) :
    compute one seed = compute two seed ↔
      generator ∣ polynomialOf (bigEndian one) + polynomialOf (bigEndian two) := by
  have cancel : X ^ (8 * two.length) * polynomialOf seed.toNat + polynomialOf (bigEndian one) -
      (X ^ (8 * two.length) * polynomialOf seed.toNat + polynomialOf (bigEndian two)) =
        polynomialOf (bigEndian one) + polynomialOf (bigEndian two) := by
    rw [add_sub_add_left_eq_sub, CharTwo.sub_eq_add]
  rw [← cancel, ← modByMonic_eq_zero_iff_dvd monic_generator, sub_modByMonic, sub_eq_zero,
    ← polynomialOf_compute two, ← length, ← polynomialOf_compute one]
  exact ⟨fun same => by rw [same], eq_of_polynomialOf_eq⟩

theorem isCoprime_X_pow_generator (count : Nat) : IsCoprime (X ^ count) generator := by
  refine IsCoprime.pow_left ⟨-(X ^ 15 + X ^ 11 + X ^ 4), 1, ?_⟩
  rw [generator]
  ring

/-- A burst of at most sixteen bits is no multiple of the generator. -/
theorem not_dvd_of_burst {one two : List UInt8} (length : one.length = two.length)
    (differ : one ≠ two) {first : Nat}
    (burst : ∀ place ∈ differing one two, first ≤ place ∧ place < first + 16) :
    ¬ generator ∣ polynomialOf (bigEndian one) + polynomialOf (bigEndian two) := by
  intro divides
  have nonzero := (polynomialOf_add_eq_zero_iff length).not.mpr differ
  let last := min (first + 15) (8 * one.length - 1)
  let pattern : (ZMod 2)[X] := ∑ place ∈ differing one two, X ^ (last - place)
  have placed : polynomialOf (bigEndian one) + polynomialOf (bigEndian two) =
      X ^ (8 * one.length - 1 - last) * pattern := by
    rw [polynomialOf_add_eq_sum length, Finset.mul_sum]
    refine Finset.sum_congr rfl fun place mem => ?_
    have inside := Finset.mem_range.mp (Finset.mem_filter.mp mem).1
    have near := burst place mem
    rw [← pow_add]
    congr 1
    omega
  have low : pattern.degree < generator.degree := by
    rw [degree_generator]
    refine (degree_lt_iff_coeff_zero pattern 16).mpr fun i above => ?_
    rw [finsetSum_coeff]
    refine Finset.sum_eq_zero fun place mem => ?_
    have near := burst place mem
    rw [coeff_X_pow, if_neg (by omega)]
  rw [placed] at divides nonzero
  have inner := (isCoprime_X_pow_generator _).symm.dvd_of_dvd_mul_left divides
  exact monic_generator.not_dvd_of_degree_lt (right_ne_zero_of_mul nonzero) low inner

/-- The generator is a multiple of `X + 1`, and so are only sums of an even number of terms. -/
theorem not_dvd_of_odd {one two : List UInt8} (length : one.length = two.length)
    (odd : Odd (differing one two).card) :
    ¬ generator ∣ polynomialOf (bigEndian one) + polynomialOf (bigEndian two) := by
  intro divides
  have at_one := eval_dvd (x := 1) divides
  have root : generator.eval 1 = 0 := by
    rw [generator]
    simp only [eval_add, eval_pow, eval_X, eval_one, one_pow]
    decide
  have count : (polynomialOf (bigEndian one) + polynomialOf (bigEndian two)).eval 1 = 1 := by
    rw [polynomialOf_add_eq_sum length, eval_finsetSum]
    simp only [eval_pow, eval_X, one_pow, Finset.sum_const, nsmul_eq_mul, mul_one]
    exact ZMod.natCast_eq_one_iff_odd.mpr odd
  rw [root, count, zero_dvd_iff] at at_one
  exact one_ne_zero at_one

def Detectable (places : Finset Nat) : Prop :=
  (∃ first, ∀ place ∈ places, first ≤ place ∧ place < first + 16) ∨ Odd places.card

/-- A detectable difference changes the check value, also that of a part which all of it lies in. -/
theorem compute_ne_of_differing {before one two after : List UInt8}
    (length : one.length = two.length) (differ : one ≠ two)
    (detectable : Detectable (differing (before ++ one ++ after) (before ++ two ++ after)))
    (seed : UInt16) : compute one seed ≠ compute two seed := by
  intro same
  have inner := (compute_eq_iff length seed).mp same
  have divides := Dvd.dvd.mul_left inner (X ^ (8 * after.length))
  rw [← polynomialOf_add_around length before after] at divides
  have whole_length : (before ++ one ++ after).length = (before ++ two ++ after).length := by
    simp [length]
  have whole_differ : before ++ one ++ after ≠ before ++ two ++ after := by
    simpa using differ
  rcases detectable with ⟨first, burst⟩ | odd
  · exact not_dvd_of_burst whole_length whole_differ burst divides
  · exact not_dvd_of_odd whole_length odd divides

end Checksum

end RiteImage
