import Mathlib.Algebra.Group.Int.Defs
import RiteImage.Number.Decimal
import RiteImage.Number.Integer
import RiteImage.Proofs.BlankEnds

namespace RiteImage

namespace Text

/-- A part behind one sign or none, which it is told of. -/
inductive Signed (part : Bool → List Char → Prop) : List Char → Prop
  | bare {cs : List Char} (rest : part false cs) : Signed part cs
  | plus {cs : List Char} (rest : part false cs) : Signed part ('+' :: cs)
  | minus {cs : List Char} (rest : part true cs) : Signed part ('-' :: cs)

def Digits (cs : List Char) : Prop := cs ≠ [] ∧ ∀ c ∈ cs, c.isDigit = true

theorem not_digits_nil : ¬ Digits [] := fun digits => digits.1 rfl

theorem Digits.head {c : Char} {cs : List Char} (digits : Digits (c :: cs)) : c.isDigit = true :=
  digits.2 c List.mem_cons_self

theorem isDigit_iff (c : Char) : c.isDigit = true ↔ 48 ≤ c.toNat ∧ c.toNat ≤ 57 := by
  simp only [Char.isDigit, Bool.and_eq_true, decide_eq_true_eq, ge_iff_le, UInt32.le_iff_toNat_le]
  rfl

theorem not_sign_of_isDigit {c : Char} (digit : c.isDigit = true) : c ≠ '+' ∧ c ≠ '-' := by
  constructor
  · rintro rfl
    cases digit
  · rintro rfl
    cases digit

theorem splitSign_of_unsigned {c : Char} (unsigned : c ≠ '+' ∧ c ≠ '-') (cs : List Char) :
    Decimal.splitSign (c :: cs) = (false, c :: cs) := by
  simp [Decimal.splitSign, unsigned.1, unsigned.2]

/-! No digit, sign or letter of a number is white space. -/

theorem visible_digits {cs : List Char} (all : ∀ c ∈ cs, c.isDigit = true) :
    ∀ c ∈ cs, ¬ WhiteSpace c := by
  intro c member
  have digit := (isDigit_iff c).mp (all c member)
  unfold WhiteSpace
  omega

theorem visible_signs : ¬ WhiteSpace '+' ∧ ¬ WhiteSpace '-' := by
  unfold WhiteSpace
  decide

theorem Signed.visible {part : Bool → List Char → Prop} {cs : List Char} (signed : Signed part cs)
    (unsigned : ∀ negative cs, part negative cs → ∀ c ∈ cs, ¬ WhiteSpace c) :
    ∀ c ∈ cs, ¬ WhiteSpace c := by
  cases signed with
  | bare rest => exact unsigned _ _ rest
  | plus rest => exact List.forall_mem_cons.mpr ⟨visible_signs.1, unsigned _ _ rest⟩
  | minus rest => exact List.forall_mem_cons.mpr ⟨visible_signs.2, unsigned _ _ rest⟩

theorem stripped_of_visible {cs : List Char} (visible : ∀ c ∈ cs, ¬ WhiteSpace c) :
    Stripped cs cs := by
  refine ⟨⟨[], [], by simp, nofun, nofun⟩, fun c head => ?_, fun c last => ?_⟩
  · exact visible c (List.mem_of_head? head)
  · exact visible c (List.mem_of_getLast? last)

theorem signed_iff {part : Bool → List Char → Prop}
    (unsigned : ∀ negative c cs, part negative (c :: cs) → c ≠ '+' ∧ c ≠ '-') (cs : List Char) :
    Signed part cs ↔ part (Decimal.splitSign cs).1 (Decimal.splitSign cs).2 := by
  constructor
  · intro signed
    cases signed with
    | bare rest =>
      cases cs with
      | nil => exact rest
      | cons c cs => rwa [splitSign_of_unsigned (unsigned false c cs rest)]
    | plus rest => exact rest
    | minus rest => exact rest
  · intro rest
    unfold Decimal.splitSign at rest
    split at rest
    · exact .minus rest
    · exact .plus rest
    · exact .bare rest

end Text

open Text

namespace Integer

/-- A text says an integer: a sign at most, then the digits of its distance from zero. -/
def Spells (cs : List Char) (n : Int) : Prop :=
  Signed (fun negative digits => Digits digits ∧
    n = if negative then -(Nat.ofDigitChars 10 digits 0 : Int)
      else (Nat.ofDigitChars 10 digits 0 : Int)) cs

theorem le_ofDigitChars (cs : List Char) (n : Nat) : n ≤ Nat.ofDigitChars 10 cs n := by
  induction cs generalizing n with
  | nil => exact Nat.le_refl n
  | cons c cs ih =>
    rw [Nat.ofDigitChars_cons]
    exact Nat.le_trans (by omega) (ih _)

variable {limit : Nat} {overflow : IntegerFault} {cs : List Char}

theorem magnitude_eq_ok_iff {n m : Nat} (small : n ≤ limit) :
    magnitude limit overflow n cs = .ok m ↔
      (∀ c ∈ cs, c.isDigit = true) ∧ m = Nat.ofDigitChars 10 cs n ∧ m ≤ limit := by
  induction cs generalizing n with
  | nil =>
    simp only [magnitude, Nat.ofDigitChars_nil, Except.ok.injEq, List.not_mem_nil]
    constructor
    · rintro rfl
      exact ⟨nofun, rfl, small⟩
    · exact fun h => h.2.1.symm
  | cons c cs ih =>
    rw [magnitude, Nat.ofDigitChars_cons, List.forall_mem_cons]
    by_cases digit : c.isDigit = true
    · by_cases fits : 10 * n + digitValue c ≤ limit
      · rw [if_pos digit, if_pos fits, ih fits, and_iff_right digit]
        rfl
      · rw [if_pos digit, if_neg fits]
        constructor
        · nofun
        · intro h
          obtain ⟨-, rfl, le⟩ := h
          exact absurd (Nat.le_trans (le_ofDigitChars cs _) le) fits
    · rw [if_neg digit]
      constructor
      · nofun
      · exact fun h => absurd h.1.1 digit

theorem ofUnsigned_eq_ok_iff {m : Nat} :
    ofUnsigned limit overflow cs = .ok m ↔
      Digits cs ∧ m = Nat.ofDigitChars 10 cs 0 ∧ m ≤ limit := by
  cases cs with
  | nil =>
    constructor
    · nofun
    · exact fun h => absurd h.1 not_digits_nil
  | cons c cs =>
    rw [ofUnsigned, magnitude_eq_ok_iff (Nat.zero_le _), Digits,
      and_iff_right (List.cons_ne_nil c cs)]

theorem map_ofUnsigned_eq_ok_iff (value : Int → Int) {v : Int64}
    (range : ∀ m : Nat, m ≤ limit ↔ -2 ^ 63 ≤ value m ∧ value m < 2 ^ 63) :
    (do let n ← ofUnsigned limit overflow cs; pure (n : Int)).map
        (fun n => Int64.ofInt (value n)) = .ok v ↔
      Digits cs ∧ v.toInt = value (Nat.ofDigitChars 10 cs 0) := by
  constructor
  · intro parsed
    rcases found : ofUnsigned limit overflow cs with fault | m
    · rw [found] at parsed
      cases parsed
    · rw [found] at parsed
      cases parsed
      obtain ⟨digits, rfl, le⟩ := ofUnsigned_eq_ok_iff.mp found
      obtain ⟨low, high⟩ := (range _).mp le
      exact ⟨digits, Int64.toInt_ofInt_of_le low high⟩
  · intro h
    obtain ⟨digits, same⟩ := h
    have le : Nat.ofDigitChars 10 cs 0 ≤ limit :=
      (range _).mpr (same ▸ ⟨v.le_toInt, v.toInt_lt⟩)
    have found : ofUnsigned limit overflow cs = .ok (Nat.ofDigitChars 10 cs 0) :=
      ofUnsigned_eq_ok_iff.mpr ⟨digits, rfl, le⟩
    have back : Int64.ofInt (value (Nat.ofDigitChars 10 cs 0)) = v := by
      rw [← same, Int64.ofInt_toInt]
    rw [found]
    exact congrArg Except.ok back

/-- The smallest integer is one further from zero than the largest, and so are their limits. -/
theorem parse_eq_ok_iff {v : Int64} : parse cs = .ok v ↔ Spells cs v.toInt := by
  have positive (m : Nat) : m ≤ largest ↔ -2 ^ 63 ≤ (m : Int) ∧ (m : Int) < 2 ^ 63 := by
    rw [largest]
    omega
  have negative (m : Nat) : m ≤ largest + 1 ↔ -2 ^ 63 ≤ -(m : Int) ∧ -(m : Int) < 2 ^ 63 := by
    rw [largest]
    omega
  rw [Spells, signed_iff fun _ _ _ h => not_sign_of_isDigit h.1.head]
  unfold parse
  split
  · constructor
    · nofun
    · exact fun h => absurd h.1 not_digits_nil
  · exact map_ofUnsigned_eq_ok_iff (fun n => -n) negative
  · exact map_ofUnsigned_eq_ok_iff (fun n => n) positive
  · rename_i not_empty not_minus not_plus
    have unsplit : Decimal.splitSign cs = (false, cs) := by
      unfold Decimal.splitSign
      split
      · exact absurd rfl (not_minus _)
      · exact absurd rfl (not_plus _)
      · rfl
    rw [unsplit]
    exact map_ofUnsigned_eq_ok_iff (fun n => n) positive

theorem toList_toString (n : Int) :
    (toString n).toList =
      if n < 0 then '-' :: Nat.toDigits 10 n.natAbs else Nat.toDigits 10 n.natAbs := by
  rw [Int.toString_eq_repr]
  cases n with
  | ofNat m =>
    rw [if_neg (by simp), Int.repr, Nat.toList_repr]
    rfl
  | negSucc m =>
    rw [if_pos (Int.negSucc_lt_zero m), Int.repr, String.toList_append, Nat.toList_repr]
    rfl

theorem spells_toString (n : Int) : Spells (toString n).toList n := by
  have digits : Digits (Nat.toDigits 10 n.natAbs) :=
    ⟨Nat.toDigits_ne_nil, fun c member =>
      Nat.isDigit_of_mem_toDigits (by decide) (by decide) member⟩
  have value : Nat.ofDigitChars 10 (Nat.toDigits 10 n.natAbs) 0 = n.natAbs :=
    Nat.ofDigitChars_ten_toDigits
  rw [toList_toString]
  split
  · refine .minus ⟨digits, ?_⟩
    rw [value, if_pos rfl]
    omega
  · refine .bare ⟨digits, ?_⟩
    rw [value, if_neg Bool.false_ne_true]
    omega

theorem Spells.stripped {n : Int} (spells : Spells cs n) : Stripped cs cs :=
  stripped_of_visible (spells.visible fun _ _ rest => visible_digits rest.1.2)

end Integer

namespace Decimal

inductive Mantissa : List Char → Prop
  | whole {digits : List Char} (filled : Digits digits) : Mantissa digits
  | pointed {whole fraction : List Char} (filled : Digits (whole ++ fraction)) :
    Mantissa (whole ++ '.' :: fraction)

inductive Exponent : List Char → Prop
  | nothing : Exponent []
  | marked {mark : Char} {cs : List Char} (e : mark = 'e' ∨ mark = 'E')
    (rest : Signed (fun _ => Digits) cs) : Exponent (mark :: cs)

inductive Unsigned : List Char → Prop
  | name {cs : List Char}
    (known : String.ofList (cs.map Char.toLower) ∈ ["inf", "infinity", "nan"]) : Unsigned cs
  | number {mantissa exponent : List Char} (digits : Mantissa mantissa)
    (power : Exponent exponent) : Unsigned (mantissa ++ exponent)

variable {cs : List Char} {negative : Bool}

theorem isSome_parseExponent : (parseExponent cs).isSome = true ↔ Exponent cs := by
  cases cs with
  | nil => exact ⟨fun _ => .nothing, fun _ => rfl⟩
  | cons mark rest =>
    have digits : Signed (fun _ => Digits) rest ↔ Digits (splitSign rest).2 :=
      signed_iff (fun _ _ _ h => not_sign_of_isDigit h.head) rest
    have opened : (parseExponent (mark :: rest)).isSome = true ↔
        (mark = 'e' ∨ mark = 'E') ∧ Digits (splitSign rest).2 := by
      simp [parseExponent, Digits, and_assoc]
    rw [opened, ← digits]
    constructor
    · exact fun h => .marked h.1 h.2
    · intro exponent
      cases exponent with
      | marked e rest => exact ⟨e, rest⟩

theorem Exponent.head {c : Char} (exponent : Exponent cs) (head : cs.head? = some c) :
    c = 'e' ∨ c = 'E' := by
  cases exponent with
  | nothing => cases head
  | marked e rest =>
    cases head
    exact e

/-- An exponent cannot be taken for more digits of the number before it. -/
theorem Exponent.stops (exponent : Exponent cs) : ∀ c, cs.head? = some c → c.isDigit = false := by
  intro c head
  rcases exponent.head head with rfl | rfl <;> rfl

theorem Exponent.splitFraction_eq (exponent : Exponent cs) : splitFraction cs = ([], cs) := by
  cases exponent with
  | nothing => rfl
  | marked e rest => rcases e with rfl | rfl <;> rfl

/-- The parts of a text that is a number are those that its grammar has. -/
theorem Mantissa.parts {mantissa exponent : List Char} (digits : Mantissa mantissa)
    (power : Exponent exponent) (whole_eq : cs = mantissa ++ exponent) :
    cs.takeWhile Char.isDigit ++ (splitFraction (cs.dropWhile Char.isDigit)).1 ≠ [] ∧
      (splitFraction (cs.dropWhile Char.isDigit)).2 = exponent := by
  subst whole_eq
  cases digits with
  | whole digits =>
    rw [takeWhile_append digits.2 power.stops, dropWhile_append digits.2 power.stops,
      power.splitFraction_eq, List.append_nil]
    exact ⟨digits.1, rfl⟩
  | pointed digits =>
    rename_i whole fraction
    obtain ⟨filled, all⟩ := digits
    have front : ∀ c ∈ whole, c.isDigit = true := fun c member =>
      all c (List.mem_append_left _ member)
    have back : ∀ c ∈ fraction, c.isDigit = true := fun c member =>
      all c (List.mem_append_right _ member)
    have point : ∀ c, ('.' :: (fraction ++ exponent)).head? = some c → c.isDigit = false := by
      intro c head
      cases head
      rfl
    rw [List.append_assoc, List.cons_append, takeWhile_append front point,
      dropWhile_append front point, splitFraction, takeWhile_append back power.stops,
      dropWhile_append back power.stops]
    exact ⟨filled, rfl⟩

theorem exists_mantissa
    (filled : cs.takeWhile Char.isDigit ++ (splitFraction (cs.dropWhile Char.isDigit)).1 ≠ []) :
    ∃ mantissa, cs = mantissa ++ (splitFraction (cs.dropWhile Char.isDigit)).2 ∧
      Mantissa mantissa := by
  have parts (cs : List Char) : cs.takeWhile Char.isDigit ++ cs.dropWhile Char.isDigit = cs ∧
      ∀ c ∈ cs.takeWhile Char.isDigit, c.isDigit = true :=
    ⟨List.takeWhile_append_dropWhile, fun c member => List.mem_takeWhile_imp member⟩
  obtain ⟨cs_eq, whole⟩ := parts cs
  generalize cs.takeWhile Char.isDigit = front at *
  generalize cs.dropWhile Char.isDigit = tail at *
  subst cs_eq
  revert filled
  fun_cases splitFraction tail with
  | case1 rest =>
    intro filled
    obtain ⟨tail_eq, fraction⟩ := parts rest
    refine ⟨front ++ '.' :: rest.takeWhile Char.isDigit, ?_, .pointed ⟨filled, fun c member => ?_⟩⟩
    · rw [List.append_assoc, List.cons_append, tail_eq]
    · exact (List.mem_append.mp member).elim (whole c) (fraction c)
  | case2 no_point =>
    intro filled
    rw [List.append_nil] at filled
    exact ⟨front, rfl, .whole ⟨filled, whole⟩⟩

/-- The longest parts that can be digits are those of the only way to read a number. -/
theorem isSome_parseNumber : (parseNumber negative cs).isSome = true ↔
    ∃ mantissa exponent, cs = mantissa ++ exponent ∧ Mantissa mantissa ∧ Exponent exponent := by
  have opened : (parseNumber negative cs).isSome = true ↔
      cs.takeWhile Char.isDigit ++ (splitFraction (cs.dropWhile Char.isDigit)).1 ≠ [] ∧
        Exponent (splitFraction (cs.dropWhile Char.isDigit)).2 := by
    rw [← isSome_parseExponent]
    unfold parseNumber
    simp only [Bool.and_eq_true, List.isEmpty_iff, ne_eq, List.append_eq_nil_iff]
    split
    · rename_i empty
      exact ⟨nofun, fun h => absurd empty h.1⟩
    · rename_i filled
      rw [Option.isSome_map, and_iff_right filled]
  rw [opened]
  constructor
  · intro h
    obtain ⟨filled, power⟩ := h
    obtain ⟨mantissa, whole, digits⟩ := exists_mantissa filled
    exact ⟨mantissa, _, whole, digits, power⟩
  · intro h
    obtain ⟨mantissa, exponent, whole, digits, power⟩ := h
    obtain ⟨filled, rest⟩ := digits.parts power whole
    exact ⟨filled, rest.symm ▸ power⟩

theorem isSome_parseName : (parseName negative cs).isSome = true ↔
    String.ofList (cs.map Char.toLower) ∈ ["inf", "infinity", "nan"] := by
  simp only [parseName, Bool.or_eq_true, decide_eq_true_eq, List.mem_cons, List.not_mem_nil,
    or_false]
  split
  · rename_i known
    simpa using known.imp_right .inl
  · rename_i infinite
    split
    · rename_i known
      simp [known]
    · rename_i nan
      simp [nan, not_or.mp infinite]

theorem Mantissa.head (mantissa : Mantissa cs) :
    ∃ c rest, cs = c :: rest ∧ (c.isDigit = true ∨ c = '.') := by
  cases mantissa with
  | whole digits =>
    cases cs with
    | nil => exact absurd digits not_digits_nil
    | cons c rest => exact ⟨c, rest, rfl, .inl digits.head⟩
  | pointed digits =>
    rename_i whole fraction
    cases whole with
    | nil => exact ⟨'.', fraction, rfl, .inr rfl⟩
    | cons c rest => exact ⟨c, rest ++ '.' :: fraction, rfl, .inl digits.head⟩

theorem Unsigned.head {c : Char} (unsigned : Unsigned (c :: cs)) : c ≠ '+' ∧ c ≠ '-' := by
  generalize whole : c :: cs = text at unsigned
  cases unsigned with
  | name known =>
    subst whole
    have lower : c.toLower ∈ ['i', 'n'] := by
      simp only [List.mem_cons, List.not_mem_nil, or_false, List.map_cons] at known
      rcases known with known | known | known <;> simp [← String.toList_inj] at known <;>
        simp [known]
    constructor
    · rintro rfl
      revert lower
      decide
    · rintro rfl
      revert lower
      decide
  | number digits power =>
    obtain ⟨d, rest, rfl, digit | rfl⟩ := digits.head
    · cases whole
      exact not_sign_of_isDigit digit
    · cases whole
      decide

theorem exists_parse_eq_ok_iff :
    (∃ decimal, parse cs = .ok decimal) ↔ Signed (fun _ => Unsigned) cs := by
  have unsigned (negative : Bool) (rest : List Char) :
      (parseNumber negative rest <|> parseName negative rest).isSome = true ↔
        Unsigned rest := by
    have either : (parseNumber negative rest <|> parseName negative rest).isSome = true ↔
        (parseNumber negative rest).isSome = true ∨ (parseName negative rest).isSome = true := by
      cases parseNumber negative rest <;> simp
    rw [either, isSome_parseNumber, isSome_parseName]
    constructor
    · intro h
      obtain ⟨mantissa, exponent, rfl, digits, power⟩ | known := h
      · exact .number digits power
      · exact .name known
    · intro h
      cases h with
      | name known => exact .inr known
      | number digits power => exact .inl ⟨_, _, rfl, digits, power⟩
  rw [signed_iff fun _ _ _ => Unsigned.head]
  rw [← unsigned (splitSign cs).1]
  cases cs with
  | nil =>
    constructor
    · intro h
      obtain ⟨decimal, parsed⟩ := h
      cases parsed
    · intro impossible
      cases impossible
  | cons c cs =>
    rw [parse, if_neg (by simp)]
    rcases splitSign (c :: cs) with ⟨negative, rest⟩
    dsimp only
    rcases parseNumber negative rest <|> parseName negative rest with _ | decimal
    · simp
    · simp

theorem visible_name (known : String.ofList (cs.map Char.toLower) ∈ ["inf", "infinity", "nan"]) :
    ∀ c ∈ cs, ¬ WhiteSpace c := by
  intro c member blank
  have not_capital : ¬ (c.val ≥ 'A'.val ∧ c.val ≤ 'Z'.val) := by
    unfold WhiteSpace at blank
    simp only [ge_iff_le, UInt32.le_iff_toNat_le]
    change ¬ (65 ≤ c.toNat ∧ c.toNat ≤ 90)
    omega
  have lower : c.toLower = c := dif_neg not_capital
  have names : cs.map Char.toLower ∈
      [['i', 'n', 'f'], ['i', 'n', 'f', 'i', 'n', 'i', 't', 'y'], ['n', 'a', 'n']] := by
    simpa [← String.toList_inj] using known
  have letters : ∀ name ∈
      [['i', 'n', 'f'], ['i', 'n', 'f', 'i', 'n', 'i', 't', 'y'], ['n', 'a', 'n']],
      ∀ d ∈ name, ¬ WhiteSpace d := by
    simp [WhiteSpace]
  exact letters _ names c (List.mem_map.mpr ⟨c, member, lower⟩) blank

theorem Mantissa.visible (mantissa : Mantissa cs) : ∀ c ∈ cs, ¬ WhiteSpace c := by
  cases mantissa with
  | whole digits => exact visible_digits digits.2
  | pointed digits =>
    have point : ¬ WhiteSpace '.' := by
      unfold WhiteSpace
      decide
    obtain ⟨front, back⟩ := List.forall_mem_append.mp (visible_digits digits.2)
    exact List.forall_mem_append.mpr ⟨front, List.forall_mem_cons.mpr ⟨point, back⟩⟩

theorem Exponent.visible (exponent : Exponent cs) : ∀ c ∈ cs, ¬ WhiteSpace c := by
  cases exponent with
  | nothing => simp
  | marked e rest =>
    have marks : ¬ WhiteSpace 'e' ∧ ¬ WhiteSpace 'E' := by
      unfold WhiteSpace
      decide
    have digits := rest.visible fun _ _ digits => visible_digits digits.2
    rcases e with rfl | rfl
    · exact List.forall_mem_cons.mpr ⟨marks.1, digits⟩
    · exact List.forall_mem_cons.mpr ⟨marks.2, digits⟩

theorem Unsigned.visible (unsigned : Unsigned cs) : ∀ c ∈ cs, ¬ WhiteSpace c := by
  cases unsigned with
  | name known => exact visible_name known
  | number digits power => exact List.forall_mem_append.mpr ⟨digits.visible, power.visible⟩

theorem stripped_of_parse {decimal : Decimal} (parsed : parse cs = .ok decimal) :
    Stripped cs cs := by
  have signed := exists_parse_eq_ok_iff.mp ⟨decimal, parsed⟩
  exact stripped_of_visible (signed.visible fun _ _ => Unsigned.visible)

end Decimal

end RiteImage
