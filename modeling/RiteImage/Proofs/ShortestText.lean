import RiteImage.Proofs.LiteralText
import RiteImage.Proofs.ShortestDigits

namespace RiteImage

/-- Digits that stand for a number, with the exponent of the first of them. -/
structure Scientific.Denotes (s : Scientific) (v : ℚ) : Prop where
  digits : Text.Digits s.digits
  amount : Decimal.amount s.digits (s.exponent + 1 - s.digits.length) = v
  low : 10 ^ s.exponent ≤ v
  high : v < 10 ^ (s.exponent + 1)

namespace Shortest

theorem amount_append_zeros (digits : List Char) (size : Nat) (exponent : Int) :
    Decimal.amount (digits ++ List.replicate size '0') exponent =
      Decimal.amount digits (exponent + size) := by
  rw [Decimal.amount, Decimal.amount, Decimal.ofDigits_append, Decimal.ofDigits_replicate_zero,
    zpow_add₀ (by norm_num), List.length_replicate, zpow_natCast]
  push_cast
  ring

theorem exists_zeros (digits : List Char) :
    ∃ size, digits = (digits.reverse.dropWhile (· = '0')).reverse ++ List.replicate size '0' := by
  have split := List.takeWhile_append_dropWhile (p := (· = '0')) (l := digits.reverse)
  have zeros : (digits.reverse.takeWhile (· = '0')) =
      List.replicate (digits.reverse.takeWhile (· = '0')).length '0' :=
    List.eq_replicate_iff.mpr ⟨rfl, fun c member => by simpa using List.mem_takeWhile_imp member⟩
  refine ⟨(digits.reverse.takeWhile (· = '0')).length, ?_⟩
  have back := congrArg List.reverse split
  rw [List.reverse_append, List.reverse_reverse, zeros, List.reverse_replicate] at back
  simpa using back.symm

theorem denotes_scientific {n : Nat} (positive : 0 < n) (e : Int) :
    (scientific n e).Denotes (n * 10 ^ e) := by
  obtain ⟨size, split⟩ := exists_zeros (Nat.toDigits 10 n)
  obtain ⟨k, count⟩ := exists_digitCount n
  have size_eq : (Nat.toDigits 10 n).length = k + 1 := count
  have number : Decimal.ofDigits (Nat.toDigits 10 n) = n := Nat.ofDigitChars_ten_toDigits
  have all : ∀ c ∈ Nat.toDigits 10 n, c.isDigit = true := fun c member =>
    Nat.isDigit_of_mem_toDigits (by decide) (by decide) member
  have exponent : (scientific n e).exponent = e + k := by
    simp only [scientific, size_eq]
    omega
  have kept : (scientific n e).digits =
    ((Nat.toDigits 10 n).reverse.dropWhile (· = '0')).reverse := rfl
  rw [← kept] at split
  have length := congrArg List.length split
  rw [size_eq, List.length_append, List.length_replicate] at length
  have power : (0 : ℚ) < 10 ^ e := zpow_pos (by norm_num) e
  refine ⟨⟨?_, fun c member => ?_⟩, ?_, ?_, ?_⟩
  · intro empty
    rw [split, empty, List.nil_append, Decimal.ofDigits_replicate_zero] at number
    omega
  · apply all
    rw [split]
    exact List.mem_append_left _ member
  · have shifted : (scientific n e).exponent + 1 - (scientific n e).digits.length = e + size := by
      omega
    rw [shifted, ← amount_append_zeros, ← split, Decimal.amount, number]
  · have low : (10 ^ k : ℚ) ≤ n := by exact_mod_cast pow_le_of_digitCount count positive
    rw [exponent, zpow_add₀ (by norm_num), zpow_natCast, mul_comm]
    exact mul_le_mul_of_nonneg_right low power.le
  · have high := lt_pow_digitCount n
    rw [count] at high
    have high : (n : ℚ) < 10 ^ (k + 1) := by exact_mod_cast high
    have whole : e + k + 1 = ((k + 1 : Nat) : Int) + e := by omega
    rw [exponent, whole, zpow_add₀ (by norm_num), zpow_natCast]
    exact mul_lt_mul_of_pos_right high power

end Shortest

namespace Scientific

open Decimal Text

variable {s : Scientific} {v : ℚ} {negative : Bool}

structure Prints (cs : List Char) (v : ℚ) : Prop where
  head : ∃ c rest, cs = c :: rest ∧ c.isDigit = true
  number : ∀ negative, ∃ digits exponent,
    parseNumber negative cs = some (.finite negative digits exponent) ∧ amount digits exponent = v

theorem amount_zeros_append (size : Nat) (digits : List Char) (exponent : Int) :
    amount (List.replicate size '0' ++ digits) exponent = amount digits exponent := by
  rw [amount, amount, ofDigits_append, ofDigits_replicate_zero, Nat.zero_mul, Nat.zero_add]

theorem prints_pointed (whole fraction : List Char) (filled : whole ≠ [])
    (all : ∀ c ∈ whole ++ fraction, c.isDigit = true) :
    Prints (whole ++ '.' :: fraction) (amount (whole ++ fraction) (-fraction.length)) := by
  constructor
  · obtain ⟨c, rest, rfl⟩ := List.exists_cons_of_ne_nil filled
    exact ⟨c, rest ++ '.' :: fraction, rfl, all c List.mem_cons_self⟩
  · intro negative
    have digits : Digits (whole ++ fraction) := ⟨by simp [filled], all⟩
    have parsed : parseNumber negative (whole ++ '.' :: (fraction ++ [])) = _ :=
      parseNumber_pointed digits .nothing rfl
    rw [List.append_nil] at parsed
    exact ⟨_, _, parsed, by simp⟩

theorem isDigit_append_zeros {cs : List Char} (all : ∀ c ∈ cs, c.isDigit = true) (size : Nat) :
    ∀ c ∈ cs ++ List.replicate size '0', c.isDigit = true := by
  intro c member
  rcases List.mem_append.mp member with digit | zero
  · exact all c digit
  · rw [List.eq_of_mem_replicate zero]
    rfl

theorem prints_cut {digits : List Char} {size : Nat} (all : ∀ c ∈ digits, c.isDigit = true)
    (some_whole : 0 < size) (long : size < digits.length) :
    Prints (digits.take size ++ '.' :: digits.drop size)
      (amount digits (size - digits.length)) := by
  have filled : digits.take size ≠ [] := by
    apply List.ne_nil_of_length_pos
    rw [List.length_take]
    omega
  have pointed := prints_pointed (digits.take size) (digits.drop size) filled (by simpa using all)
  have place : -((digits.length - size : Nat) : Int) = size - digits.length := by omega
  rwa [List.take_append_drop, List.length_drop, place] at pointed

theorem prints_filled {digits : List Char} (filled : digits ≠ [])
    (all : ∀ c ∈ digits, c.isDigit = true) (zeros : Nat) :
    Prints (digits ++ List.replicate zeros '0' ++ ['.', '0']) (amount digits zeros) := by
  have whole := isDigit_append_zeros all zeros
  have pointed := prints_pointed _ (List.replicate 1 '0') (by simp [filled])
    (isDigit_append_zeros whole 1)
  rw [Shortest.amount_append_zeros, Shortest.amount_append_zeros] at pointed
  simpa using pointed

theorem prints_fraction {digits : List Char} (all : ∀ c ∈ digits, c.isDigit = true) (zeros : Nat) :
    Prints (['0', '.'] ++ List.replicate zeros '0' ++ digits)
      (amount digits (-(zeros + digits.length : Nat))) := by
  have behind : ∀ c ∈ ['0'] ++ (List.replicate zeros '0' ++ digits), c.isDigit = true := by
    simp only [List.mem_append, List.mem_singleton, List.mem_replicate]
    rintro c (rfl | ⟨-, rfl⟩ | digit)
    · rfl
    · rfl
    · exact all c digit
  have pointed := prints_pointed ['0'] _ (by simp) behind
  have front : ['0'] ++ (List.replicate zeros '0' ++ digits) =
      List.replicate (zeros + 1) '0' ++ digits := by
    simp [List.replicate_succ]
  rw [front, amount_zeros_append, List.length_append, List.length_replicate] at pointed
  simpa using pointed

theorem prints_positional (denotes : s.Denotes v) : Prints s.positional v := by
  obtain ⟨⟨filled, all⟩, rfl, -, -⟩ := denotes
  rw [positional]
  split_ifs with nonneg
  · obtain ⟨k, exponent⟩ := Int.eq_ofNat_of_zero_le nonneg
    simp only [exponent, Int.toNat_natCast]
    rcases Nat.lt_or_ge (k + 1) s.digits.length with long | short
    · have none : k + 1 - s.digits.length = 0 := by omega
      have some_left : (s.digits.drop (k + 1)).isEmpty = false := by
        simp [List.isEmpty_eq_false_iff]
        omega
      simpa [none, some_left] using prints_cut all k.succ_pos long
    · have length : (s.digits ++ List.replicate (k + 1 - s.digits.length) '0').length = k + 1 := by
        rw [List.length_append, List.length_replicate]
        omega
      have place : ((k + 1 - s.digits.length : Nat) : Int) = k + 1 - s.digits.length := by omega
      have printed := prints_filled filled all (k + 1 - s.digits.length)
      rw [List.take_of_length_le length.le, List.drop_of_length_le length.le]
      simpa [place] using printed
  · have place : -(((-s.exponent).toNat - 1 + s.digits.length : Nat) : Int) =
        s.exponent + 1 - s.digits.length := by omega
    rw [← place]
    exact prints_fraction all _

theorem exponentValue_eq {cs : List Char} (small : ofDigits cs < 65536) :
    exponentValue cs = ofDigits cs := by
  have read (cs : List Char) (n : Nat) (small : Nat.ofDigitChars 10 cs n < 65536) :
      cs.foldl (fun n c => if n < 65536 then 10 * n + (c.toNat - '0'.toNat) else n) n =
        Nat.ofDigitChars 10 cs n := by
    induction cs generalizing n with
    | nil => rfl
    | cons c cs ih =>
      have less := Nat.lt_of_le_of_lt (Integer.le_ofDigitChars (c :: cs) n) small
      rw [List.foldl_cons, if_pos less, Nat.ofDigitChars_cons]
      exact ih _ small
  exact read cs 0 small

theorem parseExponent_toString {e : Int} (bounded : e.natAbs < 65536) :
    parseExponent ('e' :: (toString e).toList) = some e ∧
      Exponent ('e' :: (toString e).toList) := by
  have digits : Digits (Nat.toDigits 10 e.natAbs) :=
    ⟨Nat.toDigits_ne_nil, fun c member =>
      Nat.isDigit_of_mem_toDigits (by decide) (by decide) member⟩
  have value : exponentValue (Nat.toDigits 10 e.natAbs) = e.natAbs := by
    have whole : ofDigits (Nat.toDigits 10 e.natAbs) = e.natAbs := Nat.ofDigitChars_ten_toDigits
    rw [exponentValue_eq (whole.symm ▸ bounded), whole]
  rw [Integer.toList_toString]
  split_ifs with below
  · have same : -(e.natAbs : Int) = e := by omega
    constructor
    · simpa [parseExponent, splitSign, value, Digits] using And.intro digits same
    · exact .marked (.inl rfl) (.minus digits)
  · have same : (e.natAbs : Int) = e := by omega
    obtain ⟨c, cs, whole⟩ := List.exists_cons_of_ne_nil digits.1
    rw [whole] at digits value ⊢
    constructor
    · rw [parseExponent, splitSign_of_unsigned (not_sign_of_isDigit digits.head)]
      simpa [value, same, Digits] using digits
    · exact .marked (.inl rfl) (.bare digits)

theorem prints_marked (denotes : s.Denotes v) (bounded : s.exponent.natAbs < 65536) :
    Prints s.marked v := by
  obtain ⟨⟨filled, all⟩, rfl, -, -⟩ := denotes
  obtain ⟨c, rest, digits⟩ := List.exists_cons_of_ne_nil filled
  obtain ⟨parsed, power⟩ := parseExponent_toString bounded
  rw [digits] at all
  have head := all c List.mem_cons_self
  cases rest with
  | nil =>
    have shape : s.marked = [c] ++ 'e' :: (toString s.exponent).toList := by simp [marked, digits]
    rw [shape, digits]
    refine ⟨⟨c, _, rfl, head⟩, fun negative => ?_⟩
    exact ⟨_, _, parseNumber_whole ⟨List.cons_ne_nil c [], all⟩ power parsed, by simp⟩
  | cons d rest =>
    have shape : s.marked = [c] ++ '.' :: (d :: rest ++ 'e' :: (toString s.exponent).toList) := by
      simp [marked, digits]
    have place : s.exponent - (d :: rest).length = s.exponent + 1 - (c :: d :: rest).length := by
      simp only [List.length_cons]
      omega
    rw [shape, digits, ← place]
    refine ⟨⟨c, _, rfl, head⟩, fun negative => ?_⟩
    exact ⟨_, _, parseNumber_pointed ⟨List.cons_ne_nil c (d :: rest), all⟩ power parsed, rfl⟩

theorem prints_text (denotes : s.Denotes v) (bounded : s.exponent.natAbs < 65536) : Prints s.text v := by
  rw [text]
  split
  · exact prints_positional denotes
  · exact prints_marked denotes bounded

end Scientific

namespace Shortest

open Binary64

variable {x : Binary64} {v : ℚ}

theorem exists_denotes (positive : 0 < x.word) :
    ∃ v, (ofPositive x).Denotes v ∧ (Interval.of x).Holds v := by
  obtain ⟨extra, n, text, grid, -⟩ := ofPositive_eq positive
  have holds := within_iff.mp (within_of_onGrid grid).2
  have counted : 0 < n := by
    apply Nat.pos_of_ne_zero
    rintro rfl
    simpa using holds.pos (low_pos positive)
  exact ⟨_, text ▸ denotes_scientific counted _, holds⟩

theorem exponent_lt {s : Scientific} (positive : 0 < x.word) (finite : x.word < infinityWord)
    (denotes : s.Denotes v) (nearest : Nearest v x.word) : s.exponent.natAbs < 65536 := by
  by_contra far
  rcases lt_or_ge s.exponent 0 with tiny | huge
  · have nonneg := le_trans (zpow_nonneg (by norm_num) s.exponent) denotes.low
    have shrunk : (10 : ℚ) ^ (s.exponent + 1) ≤ 10 ^ (-330 : Int) :=
      zpow_le_zpow_right₀ (by norm_num) (by omega)
    have zero := nearest.unique (Decimal.nearest_of_tiny nonneg (denotes.high.le.trans shrunk))
    omega
  · have grown : (10 : ℚ) ^ (310 : Int) ≤ 10 ^ s.exponent :=
      zpow_le_zpow_right₀ (by norm_num) (by omega)
    have infinite := nearest.unique (Decimal.nearest_of_huge (grown.trans denotes.low))
    omega

end Shortest

namespace Decimal

open Binary64 Text

variable {cs : List Char} {word : Nat}

/-- Text without a sign that is read as the double of a word, whatever its sign is then. -/
structure Spells (cs : List Char) (word : Nat) : Prop where
  head : ∃ c rest, cs = c :: rest ∧ c ≠ '+' ∧ c ≠ '-'
  found : ∀ negative, ∃ decimal,
    (parseNumber negative cs <|> parseName negative cs) = some decimal ∧
      decimal.toBinary64 = ofWord negative word

theorem Spells.parse (spells : Spells cs word) (negative : Bool) : ∃ decimal,
    Decimal.parse (if negative then '-' :: cs else cs) = .ok decimal ∧
      decimal.toBinary64 = ofWord negative word := by
  obtain ⟨decimal, found, double⟩ := spells.found negative
  refine ⟨decimal, parse_eq_ok_iff.mpr ?_, double⟩
  cases negative with
  | true => exact found
  | false =>
    obtain ⟨c, rest, rfl, unsigned⟩ := spells.head
    simpa [splitSign_of_unsigned unsigned] using found

theorem spells_infinity : Spells ['i', 'n', 'f'] infinityWord :=
  ⟨⟨'i', _, rfl, by decide⟩, fun negative => ⟨.infinite negative, rfl, rfl⟩⟩

theorem spells_zero : Spells ['0', '.', '0'] 0 :=
  ⟨⟨'0', _, rfl, by decide⟩, fun negative => ⟨.finite negative ['0', '0'] (-1), rfl, rfl⟩⟩

/-- Text of a number is read as the double that is nearest to the number. -/
theorem spells_of_prints {v : ℚ} (prints : Scientific.Prints cs v) (nearest : Nearest v word) :
    Spells cs word := by
  constructor
  · obtain ⟨c, rest, whole, digit⟩ := prints.head
    exact ⟨c, rest, whole, not_sign_of_isDigit digit⟩
  · intro negative
    obtain ⟨digits, exponent, parsed, rfl⟩ := prints.number negative
    have all := (isDigit_of_parseNumber parsed).2
    have same := (nearest_wordOf all exponent).unique nearest
    refine ⟨_, by rw [parsed]; rfl, ?_⟩
    rw [toBinary64, same]

end Decimal

namespace Binary64

open Decimal

/-- What is printed of a double is read as that double, whichever NaN a NaN is. -/
theorem parse_text (x : Binary64) : ∃ decimal, Decimal.parse x.text.toList = .ok decimal ∧
    decimal.toBinary64 = if x.isNaN then ofWord false nanWord else x := by
  by_cases nan : x.isNaN = true
  · refine ⟨.nan false, ?_, ?_⟩
    · rw [text, if_pos nan]
      rfl
    · rw [if_pos nan]
      rfl
  · have unsigned : Spells (if x.isInfinite then ['i', 'n', 'f'] else
        if x.word = 0 then ['0', '.', '0'] else (Shortest.ofPositive x).text) x.word := by
      split_ifs with infinite zero
      · rw [of_decide_eq_true infinite]
        exact spells_infinity
      · rw [zero]
        exact spells_zero
      · have positive := Nat.pos_of_ne_zero zero
        have finite : x.word < infinityWord := by
          simp only [isNaN, isInfinite, decide_eq_true_eq] at nan infinite
          omega
        obtain ⟨v, denotes, holds⟩ := Shortest.exists_denotes positive
        have nearest := (Shortest.holds_iff_nearest positive finite).mp holds
        have bounded := Shortest.exponent_lt positive finite denotes nearest
        exact spells_of_prints (Scientific.prints_text denotes bounded) nearest
    obtain ⟨decimal, parsed, double⟩ := unsigned.parse x.isNegative
    rw [ofWord_word] at double
    refine ⟨decimal, ?_, by rw [double, if_neg nan]⟩
    rw [text, if_neg nan, String.toList_ofList]
    exact parsed

end Binary64

namespace Literal

variable {bytes : ByteArray} {start : Nat}

theorem ofPayload_text_float (offset : Nat) {x : Binary64} (number : x.isNaN = false) :
    ofPayload 2 offset (text (.float x)).toUTF8 = .ok (.float x) := by
  obtain ⟨decimal, parsed, double⟩ := x.parse_text
  rw [number] at double
  apply ofPayload_float_iff.mpr
  refine ⟨decimal, ?_, x.text, x.text.toList, rfl, Decimal.stripped_of_parse parsed, parsed⟩
  rw [double]
  rfl

/-- An entry with the printed text of a double is read as that double. -/
theorem read_text_float {x : Binary64} (number : x.isNaN = false)
    (entry : Entry bytes start 2 (text (.float x)).toUTF8) :
    (read bytes start).result = .ok (.float x) := by
  rw [(run_of_entry entry).1, ofPayload_text_float _ number]
  rfl

end Literal

end RiteImage
