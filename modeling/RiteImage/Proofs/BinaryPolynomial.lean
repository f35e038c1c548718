import Mathlib.Algebra.CharP.Two
import Mathlib.Algebra.Field.ZMod
import Mathlib.Algebra.Polynomial.Div
import RiteImage.Proofs.Segment

namespace RiteImage

open Polynomial

/-- The digit for `2 ^ i` is the coefficient of `X ^ i`. Digits from place `n` on are zero. -/
noncomputable def polynomialOf (n : Nat) : (ZMod 2)[X] :=
  ∑ i ∈ Finset.range n, if n.testBit i then X ^ i else 0

@[simp] theorem coeff_polynomialOf (n i : Nat) :
    (polynomialOf n).coeff i = if n.testBit i then 1 else 0 := by
  have term (j : Nat) : ((if n.testBit j then X ^ j else 0 : (ZMod 2)[X])).coeff i =
      if i = j then (if n.testBit i then 1 else 0) else 0 := by
    by_cases same : i = j
    · subst same
      cases n.testBit i <;> simp
    · cases n.testBit j <;> simp [coeff_X_pow, same]
  simp only [polynomialOf, finsetSum_coeff, term, Finset.sum_ite_eq, Finset.mem_range]
  by_cases small : i < n
  · rw [if_pos small]
  · have high : n < 2 ^ i := Nat.lt_of_le_of_lt (Nat.le_of_not_lt small) Nat.lt_two_pow_self
    rw [if_neg small, Nat.testBit_lt_two_pow high]
    rfl

theorem polynomialOf_injective {m n : Nat} (same : polynomialOf m = polynomialOf n) : m = n := by
  apply Nat.eq_of_testBit_eq
  intro i
  have digit := congrArg (fun p => p.coeff i) same
  simp only [coeff_polynomialOf] at digit
  cases hm : m.testBit i <;> cases hn : n.testBit i <;> simp_all

@[simp] theorem polynomialOf_zero : polynomialOf 0 = 0 := rfl

theorem polynomialOf_xor (m n : Nat) :
    polynomialOf (m ^^^ n) = polynomialOf m + polynomialOf n := by
  ext i
  simp only [coeff_add, coeff_polynomialOf, Nat.testBit_xor]
  cases m.testBit i <;> cases n.testBit i <;> decide

theorem polynomialOf_concat (k high : Nat) {low : Nat} (small : low < 2 ^ k) :
    polynomialOf (2 ^ k * high + low) = X ^ k * polynomialOf high + polynomialOf low := by
  ext i
  simp only [coeff_add, coeff_X_pow_mul', coeff_polynomialOf, Nat.testBit_two_pow_mul_add _ small]
  rcases Nat.lt_or_ge i k with lt | ge
  · simp [lt, Nat.not_le.mpr lt]
  · have above : low.testBit i = false :=
      Nat.testBit_lt_two_pow (Nat.lt_of_lt_of_le small (Nat.pow_le_pow_right (by decide) ge))
    simp [ge, Nat.not_lt.mpr ge, above]

theorem polynomialOf_mul_two_pow (k n : Nat) :
    polynomialOf (2 ^ k * n) = X ^ k * polynomialOf n := by
  simpa using polynomialOf_concat k n (Nat.two_pow_pos k)

theorem degree_polynomialOf_lt_iff {n k : Nat} : (polynomialOf n).degree < k ↔ n < 2 ^ k := by
  rw [degree_lt_iff_coeff_zero]
  constructor
  · intro zero
    apply Nat.lt_pow_two_of_testBit
    intro i above
    have digit := zero i above
    rw [coeff_polynomialOf] at digit
    cases set : n.testBit i <;> simp_all
  · intro small i above
    have clear : n.testBit i = false :=
      Nat.testBit_lt_two_pow (Nat.lt_of_lt_of_le small (Nat.pow_le_pow_right (by decide) above))
    simp [clear]

theorem dvd_of_X_pow_dvd {n k : Nat} (divides : X ^ k ∣ polynomialOf n) : 2 ^ k ∣ n := by
  rw [X_pow_dvd_iff] at divides
  rw [Nat.dvd_iff_mod_eq_zero]
  apply Nat.eq_of_testBit_eq
  intro i
  rw [Nat.testBit_mod_two_pow, Nat.zero_testBit]
  by_cases low : i < k
  · have digit := divides i low
    rw [coeff_polynomialOf] at digit
    cases set : n.testBit i <;> simp_all
  · simp [low]

theorem bigEndian_append (one two : List UInt8) :
    bigEndian (one ++ two) = 2 ^ (8 * two.length) * bigEndian one + bigEndian two := by
  induction two using List.reverseRecOn with
  | nil => simp [bigEndian]
  | append_singleton two last ih =>
    have wider : 2 ^ (8 * (two.length + 1)) = 256 * 2 ^ (8 * two.length) := by
      rw [Nat.mul_add, Nat.pow_add, Nat.mul_comm]
    rw [← List.append_assoc, bigEndian_concat, bigEndian_concat, ih, List.length_append,
      List.length_singleton, wider, Nat.mul_add, Nat.mul_assoc, Nat.add_assoc]

theorem bigEndian_lt_two_pow (bytes : List UInt8) : bigEndian bytes < 2 ^ (8 * bytes.length) := by
  have := bigEndian_lt bytes
  rwa [show (256 : Nat) = 2 ^ 8 by rfl, ← Nat.pow_mul] at this

theorem polynomialOf_append (one two : List UInt8) :
    polynomialOf (bigEndian (one ++ two)) =
      X ^ (8 * two.length) * polynomialOf (bigEndian one) + polynomialOf (bigEndian two) := by
  rw [bigEndian_append, polynomialOf_concat _ _ (bigEndian_lt_two_pow two)]

end RiteImage
