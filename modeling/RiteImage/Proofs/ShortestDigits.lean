import RiteImage.Number.Shortest
import RiteImage.Proofs.NearestDouble

/-! The digits of a double.
Decimals between the middles on either side of a double are read as it. Seventeen digits are
enough for one of them, since then the grid is finer than the gap between the middles. -/
namespace RiteImage

namespace Binary64

theorem magnitude_below (below : Nat) :
    2 * magnitude below + (if significandOf (below + 1) = hiddenWeight ∧
      0 < exponentOf (below + 1) then 1 else 2) * 2 ^ exponentOf (below + 1) =
      2 * magnitude (below + 1) := by
  rw [magnitude_succ]
  obtain ⟨whole, normal, less⟩ := word_parts below
  rcases Nat.lt_or_eq_of_le (Nat.succ_le_of_lt less) with inside | last
  · obtain ⟨exponent, significand⟩ := parts_of_word (e := exponentOf below)
      (s := significandOf below + 1) (by omega) inside
    rw [← Nat.add_assoc, ← whole] at exponent significand
    rw [exponent, significand, if_neg (by omega)]
    ring
  · obtain ⟨exponent, significand⟩ := parts_of_word (e := exponentOf below + 1)
      (s := hiddenWeight) (.inr (Nat.le_refl _)) (by decide)
    have next : hiddenWeight * (exponentOf below + 1) + hiddenWeight = below + 1 := by
      rw [Nat.mul_succ]
      omega
    rw [next] at exponent significand
    rw [exponent, significand, if_pos ⟨rfl, Nat.succ_pos _⟩]
    ring

end Binary64

namespace Shortest

open Binary64

variable {x : Binary64} {v : ℚ}

@[simp] theorem numerator_of (x : Binary64) : (Interval.of x).numerator = magnitude x.word := rfl

@[simp] theorem denominator_of (x : Binary64) : (Interval.of x).denominator = one := by
  rw [Interval.of]

theorem low_of {below : Nat} (word : x.word = below + 1) :
    (Interval.of x).low = 2 * (magnitude below + magnitude x.word) := by
  have gap := magnitude_below below
  rw [← word] at gap
  have low : (Interval.of x).low = (4 * significandOf x.word -
    (if significandOf x.word = hiddenWeight ∧ 0 < exponentOf x.word then 1 else 2)) *
      2 ^ exponentOf x.word := by
    simp only [Interval.of, Bool.and_eq_true, decide_eq_true_eq]
    rfl
  rw [low, Nat.sub_mul, Nat.mul_assoc]
  change 4 * magnitude x.word - _ = _
  omega

theorem high_of (x : Binary64) :
    (Interval.of x).high = 2 * (magnitude x.word + magnitude (x.word + 1)) := by
  have high : (Interval.of x).high = (4 * significandOf x.word + 2) * 2 ^ exponentOf x.word := rfl
  rw [high, magnitude_succ, magnitude]
  ring

/-- A number between the bounds, which count only if they are read as the double too. -/
def Interval.Holds (i : Interval) (v : ℚ) : Prop :=
  if i.closed then i.low ≤ 4 * v * i.denominator ∧ 4 * v * i.denominator ≤ i.high
  else i.low < 4 * v * i.denominator ∧ 4 * v * i.denominator < i.high

/-- The bounds are the middles on either side, and the even word takes these too. -/
theorem holds_iff {below : Nat} (word : x.word = below + 1) : (Interval.of x).Holds v ↔
    (value below + value x.word ≤ 2 * v ∧ 2 * v ≤ value x.word + value (x.word + 1)) ∧
      (value below + value x.word = 2 * v ∨ 2 * v = value x.word + value (x.word + 1) →
        x.word % 2 = 0) := by
  have closed : (Interval.of x).closed = true ↔ x.word % 2 = 0 := by
    have whole := (word_parts x.word).1
    have half : (Interval.of x).closed = true ↔ significandOf x.word % 2 = 0 :=
      decide_eq_true_iff
    rw [hiddenWeight] at whole
    rw [half]
    omega
  have scale := cast_one_pos
  have middle (a b : Nat) : value a + value b = (magnitude a + magnitude b) / one := by
    rw [value, value, add_div]
  simp only [Interval.Holds, low_of word, high_of, denominator_of, middle, closed, div_le_iff₀ scale,
    le_div_iff₀ scale, div_eq_iff scale.ne', eq_div_iff scale.ne']
  push_cast
  split_ifs with even
  · simp only [even, implies_true, and_true]
    constructor
    · rintro ⟨low, high⟩
      constructor <;> linarith
    · rintro ⟨low, high⟩
      constructor <;> linarith
  · simp only [even, imp_false, not_or]
    constructor
    · rintro ⟨low, high⟩
      refine ⟨⟨by linarith, by linarith⟩, fun tie => ?_, fun tie => ?_⟩ <;> linarith
    · rintro ⟨⟨low, high⟩, low', high'⟩
      have low := lt_of_le_of_ne low low'
      have high := lt_of_le_of_ne high high'
      constructor <;> linarith

/-- What lies between the bounds is just what is read as the double. -/
theorem holds_iff_nearest (positive : 0 < x.word) (finite : x.word < infinityWord) :
    (Interval.of x).Holds v ↔ Nearest v x.word := by
  obtain ⟨below, word⟩ := Nat.exists_eq_add_one_of_ne_zero (Nat.ne_of_gt positive)
  rw [holds_iff word]
  constructor
  · rintro ⟨⟨low, high⟩, even⟩
    apply nearest_of_middles (Nat.le_of_lt finite)
    · intro other next
      obtain rfl : other = below := by omega
      exact ⟨low, fun tie => even (.inl tie)⟩
    · exact fun _ => ⟨high, fun tie => even (.inr tie)⟩
  · intro nearest
    obtain ⟨high, even⟩ := nearest.not_above finite
    rw [word] at nearest ⊢
    obtain ⟨low, even'⟩ := nearest.not_below
    rw [word] at high even
    exact ⟨⟨low, high⟩, fun tie => tie.elim even' even⟩

theorem power_eq (e : Int) : (10 : ℚ) ^ e = 10 ^ e.toNat / 10 ^ (-e).toNat := by
  rcases Int.le_total 0 e with nonneg | nonpos
  · obtain ⟨n, rfl⟩ := Int.eq_ofNat_of_zero_le nonneg
    simp
  · obtain ⟨n, rfl⟩ := Int.exists_eq_neg_ofNat nonpos
    simp

theorem within_iff {i : Interval} {e : Int} {n : Nat} :
    i.within e n = true ↔ i.Holds (n * 10 ^ e) := by
  have positive : (0 : ℚ) < 10 ^ (-e).toNat := by positivity
  have scaled : 4 * (n * 10 ^ e) * i.denominator =
      ((4 * n * (i.denominator * 10 ^ e.toNat) : Nat) : ℚ) / 10 ^ (-e).toNat := by
    rw [power_eq]
    push_cast
    ring
  have bound (b : Nat) : (b : ℚ) = ((b * 10 ^ (-e).toNat : Nat) : ℚ) / 10 ^ (-e).toNat := by
    push_cast
    field_simp
  rw [Interval.within, Interval.Holds, scaled, bound i.low, bound i.high]
  simp only [div_le_div_iff_of_pos_right positive, div_lt_div_iff_of_pos_right positive,
    Nat.cast_le, Nat.cast_lt]
  split <;> simp

theorem within_of_onGrid {i : Interval} {e : Int} {n : Nat} (found : onGrid i e = some n) :
    (n = i.numerator * 10 ^ (-e).toNat / (i.denominator * 10 ^ e.toNat) ∨
      n = i.numerator * 10 ^ (-e).toNat / (i.denominator * 10 ^ e.toNat) + 1) ∧
      i.within e n = true := by
  simp only [onGrid] at found
  split at found
  · rename_i lower
    cases found
    exact ⟨.inl rfl, (Bool.and_eq_true_iff.mp lower).1⟩
  · split at found
    · rename_i upper
      cases found
      exact ⟨.inr rfl, upper⟩
    · cases found

theorem isSome_onGrid {i : Interval} {e : Int} {n : Nat}
    (neighbour : n = i.numerator * 10 ^ (-e).toNat / (i.denominator * 10 ^ e.toNat) ∨
      n = i.numerator * 10 ^ (-e).toNat / (i.denominator * 10 ^ e.toNat) + 1)
    (within : i.within e n = true) : (onGrid i e).isSome := by
  simp only [onGrid]
  rcases neighbour with rfl | rfl
  · cases up : i.within e (i.numerator * 10 ^ (-e).toNat / (i.denominator * 10 ^ e.toNat) + 1) with
    | true => split <;> simp_all
    | false => simp_all
  · split <;> simp_all

theorem lt_pow_digitCount (n : Nat) : n < 10 ^ digitCount n :=
  (Nat.length_toDigits_le_iff (by decide) Nat.length_toDigits_pos).mp (Nat.le_refl _)

theorem pow_le_of_digitCount {n k : Nat} (count : digitCount n = k + 1) (positive : 0 < n) :
    10 ^ k ≤ n := by
  cases k with
  | zero => exact positive
  | succ k =>
    by_contra less
    have short := (Nat.length_toDigits_le_iff (by decide) k.succ_pos).mpr (Nat.not_le.mp less)
    rw [digitCount] at count
    omega

theorem exists_digitCount (n : Nat) : ∃ k, digitCount n = k + 1 :=
  Nat.exists_eq_add_one_of_ne_zero (Nat.ne_of_gt Nat.length_toDigits_pos)

theorem leading_bounds_of_le {n d : Nat} (positive : 0 < d) (large : d ≤ n) :
    10 ^ (digitCount (n / d) - 1) * d ≤ n ∧ n < 10 ^ (digitCount (n / d)) * d := by
  obtain ⟨k, count⟩ := exists_digitCount (n / d)
  have low := pow_le_of_digitCount count (Nat.div_pos large positive)
  have high := lt_pow_digitCount (n / d)
  rw [Nat.le_div_iff_mul_le positive] at low
  rw [Nat.div_lt_iff_lt_mul positive] at high
  rw [count] at high ⊢
  exact ⟨low, high⟩

theorem leading_bounds_of_lt {n d : Nat} (positive : 0 < n) (small : n < d) :
    n * 10 ^ (digitCount ((d - 1) / n) - 1) < d ∧ d ≤ 10 ^ (digitCount ((d - 1) / n)) * n := by
  have high := lt_pow_digitCount ((d - 1) / n)
  rw [Nat.div_lt_iff_lt_mul positive] at high
  refine ⟨?_, by omega⟩
  obtain ⟨k, count⟩ := exists_digitCount ((d - 1) / n)
  rw [count]
  cases k with
  | zero => simpa using small
  | succ k =>
    have more : 0 < (d - 1) / n := by
      by_contra none
      rw [Nat.eq_zero_of_not_pos none] at count
      simp [digitCount] at count
    have low := pow_le_of_digitCount count more
    rw [Nat.le_div_iff_mul_le positive, Nat.mul_comm] at low
    rw [Nat.add_sub_cancel]
    omega

theorem leading_bounds {n d : Nat} (positive : 0 < n) (positive' : 0 < d) :
    (10 : ℚ) ^ leadingExponent n d ≤ n / d ∧ (n / d : ℚ) < 10 ^ (leadingExponent n d + 1) := by
  have scale : (0 : ℚ) < d := Nat.cast_pos.mpr positive'
  rw [leadingExponent, le_div_iff₀ scale, div_lt_iff₀ scale]
  split_ifs with large
  · obtain ⟨low, high⟩ := leading_bounds_of_le positive' large
    obtain ⟨k, count⟩ := exists_digitCount (n / d)
    have exponent : ((k + 1 : Nat) : Int) - 1 = k := by omega
    rw [count] at low high ⊢
    rw [exponent]
    constructor
    · exact_mod_cast low
    · exact_mod_cast high
  · obtain ⟨low, high⟩ := leading_bounds_of_lt positive (Nat.not_le.mp large)
    obtain ⟨k, count⟩ := exists_digitCount ((d - 1) / n)
    have exponent : -((k + 1 : Nat) : Int) + 1 = -(k : Int) := by omega
    rw [count] at low high ⊢
    have high : (d : ℚ) ≤ 10 ^ (k + 1) * n := by exact_mod_cast high
    have low : (n * 10 ^ k : ℚ) < d := by exact_mod_cast low
    have power : (0 : ℚ) < 10 ^ k := by positivity
    rw [exponent, zpow_neg, zpow_neg, zpow_natCast, zpow_natCast]
    constructor
    · rw [inv_mul_le_iff₀ (by positivity)]
      exact high
    · rw [lt_inv_mul_iff₀ power]
      linarith

theorem grid_bounds {N D : Nat} (e : Int) (positive : 0 < D) :
    (N * 10 ^ (-e).toNat / (D * 10 ^ e.toNat) : Nat) * (10 : ℚ) ^ e ≤ N / D ∧
      (N / D : ℚ) < ((N * 10 ^ (-e).toNat / (D * 10 ^ e.toNat) : Nat) + 1) * (10 : ℚ) ^ e := by
  have unit : 0 < D * 10 ^ e.toNat := Nat.mul_pos positive (Nat.pow_pos (by decide))
  have scale : (0 : ℚ) < D := Nat.cast_pos.mpr positive
  have power : (0 : ℚ) < 10 ^ (-e).toNat := by positivity
  have low := Nat.div_mul_le_self (N * 10 ^ (-e).toNat) (D * 10 ^ e.toNat)
  have high := Nat.lt_div_mul_add unit (a := N * 10 ^ (-e).toNat)
  generalize N * 10 ^ (-e).toNat / (D * 10 ^ e.toNat) = n at *
  have low : (n * (D * 10 ^ e.toNat) : ℚ) ≤ N * 10 ^ (-e).toNat := by exact_mod_cast low
  have high : (N * 10 ^ (-e).toNat : ℚ) < n * (D * 10 ^ e.toNat) + D * 10 ^ e.toNat := by
    exact_mod_cast high
  have scaled (m : ℚ) : m * (10 : ℚ) ^ e * D = m * (D * 10 ^ e.toNat) / 10 ^ (-e).toNat := by
    rw [power_eq]
    ring
  rw [le_div_iff₀ scale, div_lt_iff₀ scale, scaled, scaled, div_le_iff₀ power, lt_div_iff₀ power]
  constructor
  · exact low
  · linarith

theorem Interval.Holds.between {i : Interval} {u w : ℚ} (low : i.Holds u) (high : i.Holds w)
    (above : u ≤ v) (below : v ≤ w) : i.Holds v := by
  have nonneg : (0 : ℚ) ≤ i.denominator := Nat.cast_nonneg _
  have above := mul_le_mul_of_nonneg_right above nonneg
  have below := mul_le_mul_of_nonneg_right below nonneg
  unfold Holds at *
  split_ifs at *
  · constructor <;> linarith
  · constructor <;> linarith

theorem holds_value (positive : 0 < x.word) : (Interval.of x).Holds (value x.word) := by
  obtain ⟨below, word⟩ := Nat.exists_eq_add_one_of_ne_zero (Nat.ne_of_gt positive)
  have step := strictMono_value (Nat.lt_succ_self below)
  have step' := strictMono_value (Nat.lt_succ_self (below + 1))
  rw [holds_iff word, word]
  refine ⟨⟨by linarith, by linarith⟩, ?_⟩
  rintro (tie | tie) <;> linarith

theorem not_holds_of_onGrid {e : Int} (positive : 0 < x.word)
    (none : onGrid (Interval.of x) e = none) (n : Nat) :
    ¬ (Interval.of x).Holds (n * 10 ^ e) := by
  intro holds
  have own : (Interval.of x).Holds (magnitude x.word / one) := holds_value positive
  have unit : (0 : ℚ) < 10 ^ e := zpow_pos (by norm_num) e
  have neighbour (n : Nat) := isSome_onGrid (i := Interval.of x) (e := e) (n := n)
  simp only [none, Option.isSome_none, Bool.false_eq_true, within_iff, imp_false] at neighbour
  obtain ⟨under, above⟩ := grid_bounds (N := magnitude x.word) e (Nat.cast_pos.mp cast_one_pos)
  rw [numerator_of, denominator_of] at neighbour
  generalize magnitude x.word * 10 ^ (-e).toNat / (one * 10 ^ e.toNat) = lower at *
  rcases Nat.lt_or_ge lower n with greater | less
  · apply neighbour (lower + 1) (.inr rfl)
    have le : ((lower + 1 : Nat) : ℚ) ≤ n := Nat.cast_le.mpr greater
    apply own.between holds _ (mul_le_mul_of_nonneg_right le unit.le)
    exact_mod_cast above.le
  · apply neighbour lower (.inl rfl)
    have le : (n : ℚ) ≤ lower := Nat.cast_le.mpr less
    exact holds.between own (mul_le_mul_of_nonneg_right le unit.le) under

/-- A grid of seventeen digits is finer than the gap on either side of a double. -/
theorem gaps {unit : ℚ} {below : Nat} (coarse : unit * 10 ^ 16 ≤ value (below + 1)) :
    value (below + 1) + unit < value (below + 2) ∧ value below + unit < value (below + 1) := by
  have scale := cast_one_pos
  obtain ⟨-, -, short⟩ := word_parts (below + 1)
  have above : (magnitude (below + 2) : ℚ) =
      magnitude (below + 1) + 2 ^ exponentOf (below + 1) := by
    exact_mod_cast magnitude_succ (below + 1)
  have gap := magnitude_below below
  have parts : (magnitude (below + 1) : ℚ) =
      significandOf (below + 1) * 2 ^ exponentOf (below + 1) := by
    rw [magnitude]
    push_cast
    rfl
  have positive : (0 : ℚ) < 2 ^ exponentOf (below + 1) := by positivity
  have bound : (significandOf (below + 1) : ℚ) < 2 ^ 53 := by exact_mod_cast short
  have scaled := mul_lt_mul_of_pos_right bound positive
  have added (word : Nat) : (magnitude word / one + unit) * one = magnitude word + unit * one := by
    rw [add_mul, div_mul_cancel₀ _ scale.ne']
  simp only [value, lt_div_iff₀ scale, le_div_iff₀ scale, added] at *
  constructor
  · linarith
  · split_ifs at gap with least
    · have exact : (significandOf (below + 1) : ℚ) = 2 ^ 52 := by exact_mod_cast least.1
      have gap : (2 * magnitude below + 1 * 2 ^ exponentOf (below + 1) : ℚ) =
          2 * magnitude (below + 1) := by exact_mod_cast gap
      rw [exact] at parts
      linarith
    · have gap : (2 * magnitude below + 2 * 2 ^ exponentOf (below + 1) : ℚ) =
          2 * magnitude (below + 1) := by exact_mod_cast gap
      linarith

theorem isSome_onGrid_seventeen (positive : 0 < x.word) :
    (onGrid (Interval.of x) (leadingExponent (magnitude x.word) one - 16)).isSome := by
  obtain ⟨below, word⟩ := Nat.exists_eq_add_one_of_ne_zero (Nat.ne_of_gt positive)
  have some_unit := Nat.cast_pos.mp cast_one_pos
  have first := (leading_bounds (magnitude_pos positive) some_unit).1
  generalize exponent : leadingExponent (magnitude x.word) one - 16 = e
  have coarse : (10 : ℚ) ^ e * 10 ^ 16 ≤ value x.word := by
    have split : (10 : ℚ) ^ leadingExponent (magnitude x.word) one = 10 ^ e * 10 ^ 16 := by
      rw [← exponent, zpow_sub₀ (by norm_num)]
      field_simp
    rw [value, ← split]
    exact first
  obtain ⟨under, above⟩ := grid_bounds (N := magnitude x.word) e some_unit
  generalize magnitude x.word * 10 ^ (-e).toNat / (one * 10 ^ e.toNat) = n at *
  change _ ≤ value x.word at under
  change value x.word < _ at above
  rw [Option.isSome_iff_ne_none]
  intro none
  have outside (m : Nat) : ¬ (Interval.of x).Holds (m * 10 ^ e) :=
    not_holds_of_onGrid positive none m
  simp only [holds_iff word, word] at *
  obtain ⟨above_gap, below_gap⟩ := gaps coarse
  rcases le_total (2 * (value (below + 1) - n * 10 ^ e)) (10 ^ e) with near | far
  · apply outside n
    refine ⟨⟨by linarith, by linarith⟩, ?_⟩
    rintro (tie | tie) <;> linarith
  · apply outside (n + 1)
    push_cast
    refine ⟨⟨by linarith, by linarith⟩, ?_⟩
    rintro (tie | tie) <;> linarith

/-- The first grid that answers is taken, and there is one. -/
theorem ofPositive_eq (positive : 0 < x.word) :
    let leading := leadingExponent (magnitude x.word) one
    ∃ (extra n : Nat), ofPositive x = scientific n (leading - extra) ∧
      onGrid (Interval.of x) (leading - extra) = some n ∧
      ∀ fewer < extra, onGrid (Interval.of x) (leading - fewer) = none := by
  intro leading
  obtain ⟨last, answered⟩ := Option.isSome_iff_exists.mp (isSome_onGrid_seventeen positive)
  have some_found : ((List.range 17).findSome? fun (extra : Nat) =>
      (onGrid (Interval.of x) (leading - extra)).map fun n => scientific n (leading - extra)).isSome := by
    rw [List.findSome?_isSome_iff]
    exact ⟨16, by simp, by simp [leading, answered]⟩
  obtain ⟨s, found⟩ := Option.isSome_iff_exists.mp some_found
  have text : ofPositive x = s := by
    simp only [ofPositive, numerator_of, denominator_of]
    rw [found]
    rfl
  obtain ⟨before, extra, after, range, here, none⟩ := List.findSome?_eq_some_iff.mp found
  obtain ⟨n, grid, rfl⟩ := Option.map_eq_some_iff.mp here
  refine ⟨extra, n, text, grid, fun fewer less => ?_⟩
  have ascending := List.pairwise_lt_range (n := 17)
  rw [range, List.pairwise_append, List.pairwise_cons] at ascending
  have inside : extra ∈ List.range 17 := range ▸ List.mem_append_right _ List.mem_cons_self
  have member : fewer ∈ List.range 17 := by
    rw [List.mem_range] at *
    omega
  rw [range, List.mem_append, List.mem_cons] at member
  rcases member with earlier | same | later
  · exact Option.map_eq_none_iff.mp (none fewer earlier)
  · omega
  · have := ascending.2.1.1 fewer later
    omega

theorem digits_scientific_mul_ten {n : Nat} (positive : 0 < n) (e e' : Int) :
    (scientific (10 * n) e).digits = (scientific n e').digits := by
  have last : Nat.toDigits 10 (10 * n) = Nat.toDigits 10 n ++ ['0'] := by
    rw [Nat.toDigits_of_base_le (by decide) (by omega)]
    simp
  simp [scientific, last]

theorem length_digits_scientific {n k : Nat} (le : n ≤ 10 ^ (k + 1)) (e : Int) :
    (scientific n e).digits.length ≤ k + 1 := by
  rcases Nat.lt_or_eq_of_le le with less | rfl
  · have kept : (scientific n e).digits.length ≤ digitCount n := by
      simp only [scientific, List.length_reverse]
      exact le_trans (List.length_dropWhile_le _ _) (List.length_reverse).le
    exact le_trans kept ((Nat.length_toDigits_le_iff (by decide) k.succ_pos).mpr less)
  · have one_digit (k : Nat) (e : Int) : (scientific (10 ^ k) e).digits.length = 1 := by
      induction k with
      | zero => rfl
      | succ k ih =>
        rw [Nat.pow_succ', digits_scientific_mul_ten (Nat.pow_pos (by decide)) e e]
        exact ih
    rw [one_digit]
    omega

theorem low_pos (positive : 0 < x.word) : 0 < (Interval.of x).low := by
  obtain ⟨below, word⟩ := Nat.exists_eq_add_one_of_ne_zero (Nat.ne_of_gt positive)
  have some_magnitude := magnitude_pos positive
  rw [low_of word]
  omega

theorem Interval.Holds.pos {i : Interval} (holds : i.Holds v) (low : 0 < i.low) : 0 < v := by
  have low : (0 : ℚ) < i.low := Nat.cast_pos.mpr low
  have nonneg : (0 : ℚ) ≤ i.denominator := Nat.cast_nonneg _
  by_contra nonpos
  have less := mul_nonpos_of_nonpos_of_nonneg (not_lt.mp nonpos) nonneg
  rw [Holds] at holds
  split at holds <;> linarith

theorem le_of_onGrid {i : Interval} {e : Int} {n k : Nat} (positive : 0 < i.denominator)
    (less : (i.numerator / i.denominator : ℚ) < 10 ^ (e + k)) (found : onGrid i e = some n) :
    n ≤ 10 ^ k := by
  obtain ⟨neighbour, -⟩ := within_of_onGrid found
  obtain ⟨under, -⟩ := grid_bounds (N := i.numerator) e positive
  generalize i.numerator * 10 ^ (-e).toNat / (i.denominator * 10 ^ e.toNat) = lower at *
  have unit : (0 : ℚ) < 10 ^ e := zpow_pos (by norm_num) e
  have below : (lower * 10 ^ e : ℚ) < 10 ^ k * 10 ^ e := by
    rw [zpow_add₀ (by norm_num), zpow_natCast] at less
    linarith
  have below : lower < 10 ^ k := by exact_mod_cast lt_of_mul_lt_mul_right below unit.le
  omega

/-- No digits that are read as the double are fewer. -/
theorem length_digits_ofPositive {digits : List Char} {exponent : Int} (positive : 0 < x.word)
    (finite : x.word < infinityWord) (all : ∀ c ∈ digits, c.isDigit = true)
    (nearest : Nearest (Decimal.amount digits exponent) x.word) :
    (ofPositive x).digits.length ≤ digits.length := by
  have holds := (holds_iff_nearest positive finite).mpr nearest
  have filled : 0 < digits.length := by
    apply List.length_pos_of_ne_nil
    rintro rfl
    simpa [Decimal.amount, Decimal.ofDigits] using holds.pos (low_pos positive)
  obtain ⟨extra, n, text, grid, fewer⟩ := ofPositive_eq positive
  have some_unit := Nat.cast_pos.mp cast_one_pos
  obtain ⟨low, high⟩ := leading_bounds (magnitude_pos positive) some_unit
  generalize leadingExponent (magnitude x.word) one = leading at *
  have bound : n ≤ 10 ^ (extra + 1) := by
    have whole : leading - extra + (extra + 1 : Nat) = leading + 1 := by omega
    apply le_of_onGrid _ _ grid
    · simpa using some_unit
    · rwa [whole, numerator_of, denominator_of]
  rw [text]
  apply le_trans (length_digits_scientific bound _)
  by_contra more
  have none (shift : Nat) (less : shift < extra) (m : Nat) :
      ¬ (Interval.of x).Holds (m * 10 ^ (leading - shift)) :=
    not_holds_of_onGrid positive (fewer shift less) m
  rcases lt_or_ge (Decimal.amount digits exponent) (10 ^ leading) with small | large
  · apply none 0 (by omega) 1
    simpa using holds.between (holds_value positive) small.le low
  · have less := lt_of_le_of_lt large (Decimal.amount_lt all exponent)
    rw [zpow_lt_zpow_iff_right₀ (by norm_num)] at less
    obtain ⟨shift, whole⟩ := Int.eq_ofNat_of_zero_le
      (show 0 ≤ exponent - (leading - (digits.length - 1 : Nat)) by omega)
    apply none (digits.length - 1) (by omega) (Decimal.ofDigits digits * 10 ^ shift)
    have same : exponent = shift + (leading - (digits.length - 1 : Nat)) := by omega
    rw [Decimal.amount, same, zpow_add₀ (by norm_num), zpow_natCast, ← mul_assoc] at holds
    exact_mod_cast holds

end Shortest

end RiteImage
