import Mathlib.Algebra.Order.Field.Rat
import Mathlib.Data.Nat.Log
import Mathlib.Order.Monotone.Basic
import Mathlib.Tactic.FieldSimp
import Mathlib.Tactic.Linarith
import Mathlib.Tactic.Ring
import RiteImage.Number.Decimal
import RiteImage.Proofs.NumberText

/-! The double that decimal text is read as.
The magnitude words of doubles are ordered as their values are, and infinity takes the place of
the power of two behind the greatest of them. A number goes to the nearest one, and from the
middle between two to the one whose word is even. -/
namespace RiteImage

namespace Binary64

def significandOf (word : Nat) : Nat :=
  if word < hiddenWeight then word else hiddenWeight + word % hiddenWeight

def exponentOf (word : Nat) : Nat := word / hiddenWeight - 1

/-- What a word stands for, counted in the smallest positive double. -/
def magnitude (word : Nat) : Nat := significandOf word * 2 ^ exponentOf word

def value (word : Nat) : ℚ := magnitude word / one

structure Nearest (v : ℚ) (word : Nat) : Prop where
  le : word ≤ infinityWord
  closest : ∀ other ≤ infinityWord, |v - value word| ≤ |v - value other|
  even : ∀ other ≤ infinityWord, other ≠ word → |v - value other| = |v - value word| →
    word % 2 = 0

theorem hiddenWeight_pos : 0 < hiddenWeight := by decide

theorem word_parts (word : Nat) : word = hiddenWeight * exponentOf word + significandOf word ∧
    (exponentOf word = 0 ∨ hiddenWeight ≤ significandOf word) ∧
    significandOf word < 2 * hiddenWeight := by
  rw [significandOf, exponentOf]
  split_ifs with small
  · simp [Nat.div_eq_of_lt small]
    omega
  · have less := Nat.mod_lt word hiddenWeight_pos
    have one_le : 1 ≤ word / hiddenWeight :=
      (Nat.one_le_div_iff hiddenWeight_pos).mpr (Nat.not_lt.mp small)
    have whole := Nat.div_add_mod word hiddenWeight
    obtain ⟨e, quotient⟩ := Nat.exists_eq_add_of_le one_le
    rw [quotient, Nat.mul_add, Nat.mul_one] at whole
    rw [quotient, Nat.add_sub_cancel_left]
    exact ⟨by omega, .inr (Nat.le_add_right _ _), by omega⟩

theorem parts_of_word {e s : Nat} (normal : e = 0 ∨ hiddenWeight ≤ s)
    (less : s < 2 * hiddenWeight) :
    exponentOf (hiddenWeight * e + s) = e ∧ significandOf (hiddenWeight * e + s) = s := by
  rcases Nat.lt_or_ge s hiddenWeight with small | large
  · have zero : e = 0 := by omega
    subst zero
    simp [significandOf, exponentOf, small, Nat.div_eq_of_lt small]
  · have above : ¬ hiddenWeight * e + s < hiddenWeight := by omega
    have rest : s - hiddenWeight < hiddenWeight := by omega
    have whole : hiddenWeight * e + s = (s - hiddenWeight) + hiddenWeight * (e + 1) := by
      rw [Nat.mul_succ]
      omega
    rw [significandOf, exponentOf, if_neg above, whole, Nat.add_mul_mod_self_left,
      Nat.add_mul_div_left _ _ hiddenWeight_pos, Nat.mod_eq_of_lt rest, Nat.div_eq_of_lt rest]
    omega

theorem magnitude_add {s : Nat} (e : Nat) (normal : e = 0 ∨ hiddenWeight ≤ s)
    (le : s ≤ 2 * hiddenWeight) : magnitude (hiddenWeight * e + s) = s * 2 ^ e := by
  rcases Nat.eq_or_lt_of_le le with rfl | less
  · have next : hiddenWeight * e + 2 * hiddenWeight = hiddenWeight * (e + 1) + hiddenWeight := by
      ring
    obtain ⟨exponent, significand⟩ := parts_of_word (e := e + 1) (.inr (Nat.le_refl _))
      (by decide : hiddenWeight < 2 * hiddenWeight)
    rw [next, magnitude, exponent, significand]
    ring
  · obtain ⟨exponent, significand⟩ := parts_of_word normal less
    rw [magnitude, exponent, significand]

theorem magnitude_succ (word : Nat) :
    magnitude (word + 1) = magnitude word + 2 ^ exponentOf word := by
  obtain ⟨parts, normal, less⟩ := word_parts word
  have next := magnitude_add (s := significandOf word + 1) (exponentOf word) (by omega) (by omega)
  rw [← Nat.add_assoc, ← parts] at next
  rw [next, magnitude, Nat.add_one_mul]

theorem strictMono_magnitude : StrictMono magnitude := by
  apply strictMono_nat_of_lt_succ
  intro word
  rw [magnitude_succ]
  exact Nat.lt_add_of_pos_right (Nat.two_pow_pos _)

theorem magnitude_pos {word : Nat} (positive : 0 < word) : 0 < magnitude word :=
  Nat.zero_lt_of_lt (strictMono_magnitude positive)

theorem cast_one_pos : (0 : ℚ) < one := by
  have positive : 0 < one := by decide +kernel
  exact_mod_cast positive

theorem strictMono_value : StrictMono value := by
  intro a b less
  have magnitudes : (magnitude a : ℚ) < magnitude b := by exact_mod_cast strictMono_magnitude less
  exact div_lt_div_of_pos_right magnitudes cast_one_pos

/-- Two words that are equally near are neighbours, and of these only one is even. -/
theorem Nearest.unique {v : ℚ} {word other : Nat} (first : Nearest v word)
    (second : Nearest v other) : word = other := by
  by_contra different
  wlog less : word < other generalizing word other
  · exact this second first (Ne.symm different) (by omega)
  have same := le_antisymm (first.closest other second.le) (second.closest word first.le)
  have even := first.even other second.le (Ne.symm different) same.symm
  have even' := second.even word first.le different same
  -- A word between the two is nearer than either of them.
  have between : word + 1 < other := by omega
  have low := strictMono_value (Nat.lt_succ_self word)
  have high := strictMono_value between
  have nearer := first.closest (word + 1) (Nat.le_trans (Nat.le_of_lt between) second.le)
  rcases abs_cases (v - value word) with ⟨a, _⟩ | ⟨a, _⟩ <;>
    rcases abs_cases (v - value other) with ⟨b, _⟩ | ⟨b, _⟩ <;>
    rcases abs_cases (v - value (word + 1)) with ⟨c, _⟩ | ⟨c, _⟩ <;>
    linarith

/-- It is enough to look at the middles on either side of a word. -/
theorem nearest_of_middles {v : ℚ} {word : Nat} (le : word ≤ infinityWord)
    (low : ∀ below, below + 1 = word → value below + value word ≤ 2 * v ∧
      (value below + value word = 2 * v → word % 2 = 0))
    (high : word < infinityWord → 2 * v ≤ value word + value (word + 1) ∧
      (2 * v = value word + value (word + 1) → word % 2 = 0)) : Nearest v word := by
  have both (other : Nat) (inside : other ≤ infinityWord) (different : other ≠ word) :
      |v - value word| ≤ |v - value other| ∧
        (|v - value other| = |v - value word| → word % 2 = 0) := by
    rcases Nat.lt_or_gt_of_ne different with less | greater
    · obtain ⟨below, rfl⟩ := Nat.exists_eq_add_one_of_ne_zero (Nat.ne_of_gt (Nat.zero_lt_of_lt less))
      obtain ⟨bound, tie⟩ := low below rfl
      have step := strictMono_value (Nat.lt_succ_self below)
      have order := strictMono_value.monotone (Nat.le_of_lt_succ less)
      have far : |v - value other| = v - value other := abs_of_nonneg (by linarith)
      refine ⟨?_, fun same => ?_⟩
      · rw [far, abs_le]
        constructor <;> linarith
      · rw [far] at same
        rcases abs_cases (v - value (below + 1)) with ⟨a, _⟩ | ⟨a, _⟩
        · linarith
        · exact tie (by linarith)
    · obtain ⟨bound, tie⟩ := high (Nat.lt_of_lt_of_le greater inside)
      have step := strictMono_value (Nat.lt_succ_self word)
      have order := strictMono_value.monotone (Nat.succ_le_of_lt greater)
      have far : |v - value other| = value other - v := by
        rw [abs_sub_comm]
        exact abs_of_nonneg (by linarith)
      refine ⟨?_, fun same => ?_⟩
      · rw [far, abs_le]
        constructor <;> linarith
      · rw [far] at same
        rcases abs_cases (v - value word) with ⟨a, _⟩ | ⟨a, _⟩
        · exact tie (by linarith)
        · linarith
  refine ⟨le, fun other inside => ?_, fun other inside different => (both other inside different).2⟩
  by_cases same : other = word
  · simp [same]
  · exact (both other inside same).1

variable {v : ℚ} {word : Nat}

theorem Nearest.not_below {below : Nat} (nearest : Nearest v (below + 1)) :
    value below + value (below + 1) ≤ 2 * v ∧
      (value below + value (below + 1) = 2 * v → (below + 1) % 2 = 0) := by
  have step := strictMono_value (Nat.lt_succ_self below)
  have inside : below ≤ infinityWord := Nat.le_of_succ_le nearest.le
  have closest := nearest.closest below inside
  constructor
  · rcases abs_cases (v - value (below + 1)) with ⟨a, _⟩ | ⟨a, _⟩ <;>
      rcases abs_cases (v - value below) with ⟨b, _⟩ | ⟨b, _⟩ <;>
      linarith
  · intro tie
    apply nearest.even below inside (Nat.ne_of_lt (Nat.lt_succ_self below))
    rw [abs_sub_comm v (value (below + 1))]
    congr 1
    linarith

theorem Nearest.not_above (nearest : Nearest v word) (finite : word < infinityWord) :
    2 * v ≤ value word + value (word + 1) ∧
      (2 * v = value word + value (word + 1) → word % 2 = 0) := by
  have step := strictMono_value (Nat.lt_succ_self word)
  have closest := nearest.closest (word + 1) finite
  constructor
  · rcases abs_cases (v - value word) with ⟨a, _⟩ | ⟨a, _⟩ <;>
      rcases abs_cases (v - value (word + 1)) with ⟨b, _⟩ | ⟨b, _⟩ <;>
      linarith
  · intro tie
    apply nearest.even (word + 1) finite (Nat.succ_ne_self word)
    rw [abs_sub_comm v (value (word + 1))]
    congr 1
    linarith

theorem nearest_infinity (le : value infinityWord ≤ v) : Nearest v infinityWord := by
  apply nearest_of_middles (Nat.le_refl _)
  · intro below next
    have step := strictMono_value (Nat.lt_succ_self below)
    rw [Nat.succ_eq_add_one, next] at step
    constructor
    · linarith
    · intro tie
      linarith
  · intro impossible
    omega

theorem nearest_down (le : value word ≤ v) (half : 2 * v ≤ value word + value (word + 1))
    (even : 2 * v = value word + value (word + 1) → word % 2 = 0) :
    Nearest v (min infinityWord word) := by
  rcases Nat.lt_or_ge word infinityWord with finite | large
  · rw [Nat.min_eq_right (Nat.le_of_lt finite)]
    apply nearest_of_middles (Nat.le_of_lt finite)
    · rintro below rfl
      have step := strictMono_value (Nat.lt_succ_self below)
      constructor
      · linarith
      · intro tie
        linarith
    · exact fun _ => ⟨half, even⟩
  · rw [Nat.min_eq_left large]
    have order := strictMono_value.monotone large
    exact nearest_infinity (by linarith)

theorem nearest_up (lt : v < value (word + 1)) (half : value word + value (word + 1) ≤ 2 * v)
    (even : value word + value (word + 1) = 2 * v → (word + 1) % 2 = 0) :
    Nearest v (min infinityWord (word + 1)) := by
  have step := strictMono_value (Nat.lt_succ_self word)
  rcases Nat.lt_or_ge word infinityWord with finite | large
  · rw [Nat.min_eq_right finite]
    apply nearest_of_middles finite
    · intro below next
      obtain rfl : below = word := by omega
      exact ⟨half, even⟩
    · intro _
      have step' := strictMono_value (Nat.lt_succ_self (word + 1))
      constructor
      · linarith
      · intro tie
        linarith
  · rw [Nat.min_eq_left (by omega)]
    have order := strictMono_value.monotone large
    exact nearest_infinity (by linarith)

theorem quotient_bounds (scaled denominator : Nat) :
    let e := (scaled / denominator).log2 - 52
    let s := scaled / (denominator * 2 ^ e)
    (e = 0 ∨ hiddenWeight ≤ s) ∧ s < 2 * hiddenWeight := by
  intro e s
  have split : s = scaled / denominator / 2 ^ e := (Nat.div_div_eq_div_mul _ _ _).symm
  have above : scaled / denominator < 2 ^ ((scaled / denominator).log2 + 1) := Nat.lt_log2_self
  have weight : hiddenWeight = 2 ^ 52 := rfl
  rcases Nat.lt_or_ge (scaled / denominator).log2 53 with small | large
  · have zero : e = 0 := by omega
    refine ⟨.inl zero, ?_⟩
    rw [split, zero, pow_zero, Nat.div_one, weight, ← Nat.pow_succ']
    exact Nat.lt_of_lt_of_le above (Nat.pow_le_pow_right (by decide) (by omega))
  · have whole : (scaled / denominator).log2 = 52 + e := by omega
    have nonzero : scaled / denominator ≠ 0 := by
      intro zero
      simp [zero] at large
    have below := Nat.log2_self_le nonzero
    rw [whole] at above below
    constructor
    · right
      rw [split, Nat.le_div_iff_mul_le (Nat.two_pow_pos e), weight, ← Nat.pow_add]
      exact below
    · rw [split, Nat.div_lt_iff_lt_mul (Nat.two_pow_pos e), weight, ← Nat.pow_succ', ← Nat.pow_add]
      exact Nat.lt_of_lt_of_eq above (by congr 1; omega)

/-- A number between two neighbours, all three counted in one unit, goes to the nearer of them. -/
theorem nearest_between {base gap rest : Nat} {unit : ℚ} (positive : 0 < unit)
    (here : value word = (base : Nat) / unit) (next : value (word + 1) = (base + gap : Nat) / unit)
    (number : v = (base + rest : Nat) / unit) (inside : rest < gap) :
    Nearest v (min infinityWord
      (if gap < 2 * rest || (2 * rest = gap && word % 2 = 1) then word + 1 else word)) := by
  have middle : value word + value (word + 1) = (2 * base + gap : Nat) / unit := by
    rw [here, next]
    push_cast
    ring
  have twice : 2 * v = (2 * base + 2 * rest : Nat) / unit := by
    rw [number]
    push_cast
    ring
  split_ifs with up
  all_goals simp only [Bool.or_eq_true, Bool.and_eq_true, decide_eq_true_eq] at up
  · apply nearest_up
    · rw [number, next, div_lt_div_iff_of_pos_right positive, Nat.cast_lt]
      omega
    · rw [middle, twice, div_le_div_iff_of_pos_right positive, Nat.cast_le]
      omega
    · rw [middle, twice, div_left_inj' positive.ne', Nat.cast_inj]
      omega
  · apply nearest_down
    · rw [number, here, div_le_div_iff_of_pos_right positive, Nat.cast_le]
      omega
    · rw [middle, twice, div_le_div_iff_of_pos_right positive, Nat.cast_le]
      omega
    · rw [middle, twice, div_left_inj' positive.ne', Nat.cast_inj]
      omega

theorem nearest_nearestWord (numerator : Nat) {denominator : Nat} (positive : 0 < denominator) :
    Nearest (numerator / denominator) (nearestWord numerator denominator) := by
  obtain ⟨normal, less⟩ := quotient_bounds (numerator * one) denominator
  rw [nearestWord]
  generalize (numerator * one / denominator).log2 - 52 = e at *
  have unit : Nat.pow 2 e = 2 ^ e := rfl
  have grid : 0 < denominator * 2 ^ e := Nat.mul_pos positive (Nat.two_pow_pos e)
  have split := Nat.div_add_mod (numerator * one) (denominator * 2 ^ e)
  have inside := Nat.mod_lt (numerator * one) grid
  simp only [unit, roundDiv]
  generalize numerator * one / (denominator * 2 ^ e) = s at *
  generalize numerator * one % (denominator * 2 ^ e) = rest at *
  have even : (hiddenWeight * e + s) % 2 = s % 2 := by
    rw [hiddenWeight]
    omega
  have nonzero := cast_one_pos.ne'
  have scale : (0 : ℚ) < denominator * one := mul_pos (Nat.cast_pos.mpr positive) cast_one_pos
  have here : value (hiddenWeight * e + s) =
      (denominator * 2 ^ e * s : Nat) / (denominator * one : ℚ) := by
    rw [value, magnitude_add e normal (by omega)]
    push_cast
    field_simp
  have next : value (hiddenWeight * e + s + 1) =
      (denominator * 2 ^ e * s + denominator * 2 ^ e : Nat) / (denominator * one : ℚ) := by
    rw [value, Nat.add_assoc, magnitude_add e (by omega) (by omega)]
    push_cast
    field_simp
  have number : (numerator / denominator : ℚ) =
      (denominator * 2 ^ e * s + rest : Nat) / (denominator * one : ℚ) := by
    rw [split]
    push_cast
    field_simp
  have nearest := nearest_between scale here next number inside
  rw [even] at nearest
  rwa [apply_ite (hiddenWeight * e + ·), ← Nat.add_assoc]

/-! The sign is a bit of its own. -/

theorem infinityWord_lt : infinityWord < signWeight := by decide

theorem toNat_ofWord {negative : Bool} (small : word < signWeight) :
    (ofWord negative word).bits.toNat = if negative then signWeight + word else word := by
  have size : 2 * signWeight = UInt64.size := rfl
  apply UInt64.toNat_ofNat_of_lt'
  split <;> omega

theorem word_ofWord {negative : Bool} (small : word < signWeight) :
    (ofWord negative word).word = word := by
  rw [Binary64.word, toNat_ofWord small]
  split
  · rw [Nat.add_mod_left, Nat.mod_eq_of_lt small]
  · exact Nat.mod_eq_of_lt small

theorem isNegative_ofWord {negative : Bool} (small : word < signWeight) :
    (ofWord negative word).isNegative = negative := by
  rw [isNegative, toNat_ofWord small]
  cases negative with
  | true => simp
  | false => simpa using small

theorem ofWord_word (x : Binary64) : ofWord x.isNegative x.word = x := by
  have size : x.bits.toNat < 2 * signWeight := x.bits.toNat_lt
  have bits : (if x.isNegative then signWeight + x.word else x.word) = x.bits.toNat := by
    simp only [isNegative, Binary64.word, decide_eq_true_eq]
    split
    · rw [Nat.mod_eq_sub_mod (by assumption), Nat.mod_eq_of_lt (by omega)]
      omega
    · exact Nat.mod_eq_of_lt (by omega)
  rw [ofWord, bits, UInt64.ofNat_toNat]

end Binary64

namespace Decimal

open Text Binary64

def amount (digits : List Char) (exponent : Int) : ℚ := ofDigits digits * 10 ^ exponent

variable {c : Char} {cs digits : List Char}

theorem ofDigits_eq (cs : List Char) : ofDigits cs = Nat.ofDigitChars 10 cs 0 := rfl

theorem ofDigits_append (front back : List Char) :
    ofDigits (front ++ back) = ofDigits front * 10 ^ back.length + ofDigits back := by
  rw [ofDigits_eq, Nat.ofDigitChars_append, Nat.ofDigitChars_eq_ofDigitChars_zero, Nat.mul_comm]
  rfl

theorem ofDigits_cons (c : Char) (cs : List Char) :
    ofDigits (c :: cs) = Integer.digitValue c * 10 ^ cs.length + ofDigits cs := by
  have first : ofDigits [c] = Integer.digitValue c := by simp [ofDigits, Integer.digitValue]
  rw [← first, ← ofDigits_append, List.singleton_append]

theorem ofDigits_replicate_zero (size : Nat) : ofDigits (List.replicate size '0') = 0 := by
  simp [ofDigits_eq]

theorem digitValue_lt (digit : c.isDigit = true) : Integer.digitValue c < 10 := by
  have bounds := (isDigit_iff c).mp digit
  change c.toNat - 48 < 10
  omega

theorem ofDigits_lt (all : ∀ c ∈ cs, c.isDigit = true) : ofDigits cs < 10 ^ cs.length := by
  induction cs with
  | nil => decide
  | cons c cs ih =>
    have rest := ih fun d member => all d (List.mem_cons_of_mem c member)
    have first : Integer.digitValue c + 1 ≤ 10 := digitValue_lt (all c List.mem_cons_self)
    have scaled := Nat.mul_le_mul_right (10 ^ cs.length) first
    rw [Nat.succ_mul] at scaled
    rw [ofDigits_cons, List.length_cons, pow_succ]
    omega

theorem le_ofDigits (digit : c.isDigit = true) (nonzero : c ≠ '0') (cs : List Char) :
    10 ^ cs.length ≤ ofDigits (c :: cs) := by
  have first : 1 ≤ Integer.digitValue c := by
    have bounds := (isDigit_iff c).mp digit
    have other : c.toNat ≠ 48 := fun same => nonzero (Char.toNat_inj.mp same)
    change 1 ≤ c.toNat - 48
    omega
  have scaled := Nat.mul_le_mul_right (10 ^ cs.length) first
  rw [ofDigits_cons]
  omega

theorem ofDigits_dropWhile (cs : List Char) : ofDigits (cs.dropWhile (· = '0')) = ofDigits cs := by
  induction cs with
  | nil => rfl
  | cons c cs ih =>
    by_cases zero : c = '0'
    · simp [zero, ih, ofDigits_cons, Integer.digitValue]
    · simp [zero]

theorem amount_nonneg (digits : List Char) (exponent : Int) : 0 ≤ amount digits exponent :=
  mul_nonneg (Nat.cast_nonneg _) (zpow_nonneg (by norm_num) _)

theorem amount_lt (all : ∀ c ∈ digits, c.isDigit = true) (exponent : Int) :
    amount digits exponent < 10 ^ (digits.length + exponent) := by
  have less : (ofDigits digits : ℚ) < 10 ^ digits.length := by exact_mod_cast ofDigits_lt all
  rw [zpow_add₀ (by norm_num), zpow_natCast]
  exact mul_lt_mul_of_pos_right less (zpow_pos (by norm_num) _)

theorem le_amount (digit : c.isDigit = true) (nonzero : c ≠ '0') (cs : List Char) (exponent : Int) :
    10 ^ (cs.length + exponent) ≤ amount (c :: cs) exponent := by
  have le : (10 : ℚ) ^ cs.length ≤ ofDigits (c :: cs) := by
    exact_mod_cast le_ofDigits digit nonzero cs
  rw [zpow_add₀ (by norm_num), zpow_natCast]
  exact mul_le_mul_of_nonneg_right le (zpow_nonneg (by norm_num) _)

theorem amount_of_nonneg {exponent : Int} (nonneg : 0 ≤ exponent) :
    amount digits exponent = (ofDigits digits * 10 ^ exponent.toNat : Nat) / (1 : Nat) := by
  obtain ⟨n, rfl⟩ := Int.eq_ofNat_of_zero_le nonneg
  simp [amount]

theorem amount_of_neg {exponent : Int} (negative : exponent < 0) :
    amount digits exponent = ofDigits digits / (10 ^ (-exponent).toNat : Nat) := by
  obtain ⟨n, rfl⟩ := Int.exists_eq_neg_ofNat (Int.le_of_lt negative)
  simp [amount, div_eq_mul_inv]

theorem nearest_of_tiny {v : ℚ} (nonneg : 0 ≤ v) (tiny : v ≤ 10 ^ (-330 : Int)) : Nearest v 0 := by
  have scale : 2 * one ≤ 10 ^ 330 := by decide +kernel
  have scale : (2 * one : ℚ) ≤ 10 ^ 330 := by exact_mod_cast scale
  have nothing : magnitude 0 = 0 := by decide
  have least : magnitude 1 = 1 := by decide
  have zero : value 0 = 0 := by rw [value, nothing, Nat.cast_zero, zero_div]
  have first : value 1 = 1 / one := by rw [value, least, Nat.cast_one]
  have shrunk : (10 : ℚ) ^ 330 * 10 ^ (-330 : Int) = 1 := by
    rw [← zpow_natCast, ← zpow_add₀ (by norm_num)]
    rfl
  have small : (0 : ℚ) ≤ 10 ^ (-330 : Int) := zpow_nonneg (by norm_num) _
  generalize (10 : ℚ) ^ 330 = power at *
  generalize (10 : ℚ) ^ (-330 : Int) = bound at *
  have double : 2 * v ≤ 1 / one := by
    rw [le_div_iff₀ cast_one_pos]
    have first := mul_le_mul_of_nonneg_left tiny (mul_nonneg zero_le_two cast_one_pos.le)
    have second := mul_le_mul_of_nonneg_right scale small
    linarith
  have nearest : Nearest v (min infinityWord 0) := by
    apply nearest_down
    · rwa [zero]
    · rw [zero, first]
      linarith
    · simp
  simpa using nearest

theorem nearest_of_huge {v : ℚ} (huge : 10 ^ (310 : Int) ≤ v) : Nearest v infinityWord := by
  have scale : magnitude infinityWord ≤ 10 ^ 310 * one := by decide +kernel
  have scale : (magnitude infinityWord : ℚ) ≤ 10 ^ 310 * one := by exact_mod_cast scale
  apply nearest_infinity
  refine le_trans ?_ huge
  rw [value, div_le_iff₀ cast_one_pos]
  exact scale

/-- The digits are read as the double that is nearest to what they stand for. -/
theorem nearest_wordOf (all : ∀ c ∈ digits, c.isDigit = true) (exponent : Int) :
    Nearest (amount digits exponent) (wordOf digits exponent) := by
  have significant : amount digits exponent = amount (digits.dropWhile (· = '0')) exponent := by
    rw [amount, amount, ofDigits_dropWhile]
  have all_left : ∀ c ∈ digits.dropWhile (· = '0'), c.isDigit = true := fun c member =>
    all c (List.dropWhile_sublist _ |>.subset member)
  have first : ∀ c, (digits.dropWhile (· = '0')).head? = some c → c ≠ '0' := by
    intro c head
    simpa using not_of_head_dropWhile head
  rw [significant, wordOf]
  generalize digits.dropWhile (· = '0') = kept at *
  cases kept with
  | nil => simpa [amount, ofDigits] using nearest_of_tiny (le_refl 0) (zpow_nonneg (by norm_num) _)
  | cons c cs =>
    have below := amount_lt all_left exponent
    have above := le_amount (all_left c List.mem_cons_self) (first c rfl) cs exponent
    have nonneg := amount_nonneg (c :: cs) exponent
    simp only [List.isEmpty_cons, Bool.false_or, decide_eq_true_eq]
    split_ifs with small large whole
    · apply nearest_of_tiny nonneg
      exact le_trans (le_of_lt below) (zpow_le_zpow_right₀ (by norm_num) (by omega))
    · apply nearest_of_huge
      refine le_trans (zpow_le_zpow_right₀ (by norm_num) ?_) above
      rw [List.length_cons] at large
      omega
    · rw [amount_of_nonneg whole]
      exact nearest_nearestWord _ (by decide)
    · rw [amount_of_neg (not_le.mp whole)]
      exact nearest_nearestWord _ (Nat.pow_pos (by decide))

/-! Text goes by its digits. -/

theorem parseNumber_whole {rest : List Char} {n : Int} {negative : Bool} (digits : Digits cs)
    (power : Exponent rest) (parsed : parseExponent rest = some n) :
    parseNumber negative (cs ++ rest) = some (.finite negative cs n) := by
  obtain ⟨filled, all⟩ := digits
  rw [parseNumber, takeWhile_append all power.stops, dropWhile_append all power.stops,
    power.splitFraction_eq]
  simp [filled, parsed]

theorem parseNumber_pointed {fraction rest : List Char} {n : Int} {negative : Bool}
    (digits : Digits (cs ++ fraction)) (power : Exponent rest)
    (parsed : parseExponent rest = some n) :
    parseNumber negative (cs ++ '.' :: (fraction ++ rest)) =
      some (.finite negative (cs ++ fraction) (n - fraction.length)) := by
  obtain ⟨filled, all⟩ := digits
  have front : ∀ c ∈ cs, c.isDigit = true := fun c member => all c (List.mem_append_left _ member)
  have back : ∀ c ∈ fraction, c.isDigit = true := fun c member =>
    all c (List.mem_append_right _ member)
  have point : ∀ c, ('.' :: (fraction ++ rest)).head? = some c → c.isDigit = false := by
    intro c head
    cases head
    rfl
  rw [parseNumber, takeWhile_append front point, dropWhile_append front point, splitFraction,
    takeWhile_append back power.stops, dropWhile_append back power.stops]
  simp only [List.append_eq_nil_iff, ne_eq] at filled
  simp [filled, parsed]

theorem isDigit_of_parseNumber {negative sign : Bool} {exponent : Int}
    (parsed : parseNumber negative cs = some (.finite sign digits exponent)) :
    sign = negative ∧ ∀ c ∈ digits, c.isDigit = true := by
  simp only [parseNumber] at parsed
  split at parsed
  · cases parsed
  · obtain ⟨n, -, same⟩ := Option.map_eq_some_iff.mp parsed
    cases same
    refine ⟨rfl, fun c member => ?_⟩
    rcases List.mem_append.mp member with whole | fraction
    · exact List.mem_takeWhile_imp whole
    · unfold splitFraction at fraction
      split at fraction
      · exact List.mem_takeWhile_imp fraction
      · cases fraction

theorem parse_eq_ok_iff {decimal : Decimal} : parse cs = .ok decimal ↔
    (parseNumber (splitSign cs).1 (splitSign cs).2 <|>
      parseName (splitSign cs).1 (splitSign cs).2) = some decimal := by
  cases cs with
  | nil => simp [parse, splitSign, parseNumber, splitFraction, parseName]
  | cons c cs =>
    rw [parse, if_neg (by simp)]
    rcases splitSign (c :: cs) with ⟨negative, rest⟩
    dsimp only
    cases parseNumber negative rest <|> parseName negative rest with
    | none => simp
    | some found => simp

/-- Finite text is read as the double that is nearest to it, with the sign of the text. -/
theorem nearest_of_parse {negative : Bool} {exponent : Int}
    (parsed : parse cs = .ok (.finite negative digits exponent)) :
    Nearest (amount digits exponent) (toBinary64 (.finite negative digits exponent)).word ∧
      (toBinary64 (.finite negative digits exponent)).isNegative = (splitSign cs).1 := by
  have number : parseNumber (splitSign cs).1 (splitSign cs).2 =
      some (.finite negative digits exponent) := by
    have found := parse_eq_ok_iff.mp parsed
    simp only [Option.orElse_eq_orElse, Option.orElse_eq_or, Option.or_eq_some_iff] at found
    rcases found with number | ⟨-, name⟩
    · exact number
    · simp only [parseName] at name
      split at name
      · cases name
      · split at name <;> cases name
  obtain ⟨rfl, all⟩ := isDigit_of_parseNumber number
  have nearest := nearest_wordOf all exponent
  have small := Nat.lt_of_le_of_lt nearest.le infinityWord_lt
  rw [toBinary64, word_ofWord small, isNegative_ofWord small]
  exact ⟨nearest, rfl⟩

end Decimal

end RiteImage
