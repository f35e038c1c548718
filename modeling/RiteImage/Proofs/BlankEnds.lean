import Mathlib.Data.List.TakeWhile
import RiteImage.Text.Basic

namespace RiteImage

theorem CodePoints.contains_iff {set : CodePoints}
    (ascending : set.intervals.toList.Pairwise fun a b => a.1 ≤ b.1 ∧ a.2 < b.1) (c : Char) :
    set.contains c = true ↔
      ∃ interval ∈ set.intervals, interval.1 ≤ c.toNat ∧ c.toNat ≤ interval.2 := by
  constructor
  · intro holds
    dsimp only [contains] at holds
    split at holds
    · rename_i first last found
      obtain ⟨inside, eq⟩ := Array.getElem?_eq_some_iff.mp found
      exact ⟨(first, last), eq ▸ Array.getElem_mem inside, by simpa using holds⟩
    · cases holds
  · intro h
    obtain ⟨interval, member, first, last⟩ := h
    obtain ⟨i, inside, rfl⟩ := Array.getElem_of_mem member
    have ordered : set.intervals.toList.Pairwise fun a b =>
        decide (b.1 ≤ c.toNat) = true → decide (a.1 ≤ c.toNat) = true := by
      refine ascending.imp fun {a b} before started => ?_
      have := of_decide_eq_true started
      exact decide_eq_true (by omega)
    obtain ⟨count, le, -, splits⟩ := exists_border ordered
    have found : border (fun interval => interval.1 ≤ c.toNat) set.intervals = count :=
      borderBetween_eq splits _ (Nat.zero_le _) le
    have below : i < count := (splits i inside).mp (decide_eq_true first)
    have within : count - 1 < set.intervals.size := Nat.lt_of_lt_of_le (by omega) le
    have started := of_decide_eq_true ((splits (count - 1) within).mpr (by omega))
    -- An interval before the last one that has started ends before that one starts.
    have last_started : i = count - 1 := by
      refine Nat.le_antisymm (by omega) (Nat.le_of_not_lt fun lt => ?_)
      have before := (List.pairwise_iff_getElem.mp ascending i (count - 1) inside within lt).2
      rw [Array.getElem_toList] at before started
      rw [Array.getElem_toList] at before
      omega
    subst last_started
    simp only [contains, found, Array.getElem?_eq_getElem within, first, last, decide_true,
      Bool.and_self]

namespace Text

def WhiteSpace (c : Char) : Prop :=
  (0x9 ≤ c.toNat ∧ c.toNat ≤ 0xD) ∨ c.toNat = 0x20 ∨ c.toNat = 0x85 ∨ c.toNat = 0xA0 ∨
    c.toNat = 0x1680 ∨ (0x2000 ≤ c.toNat ∧ c.toNat ≤ 0x200A) ∨ c.toNat = 0x2028 ∨
    c.toNat = 0x2029 ∨ c.toNat = 0x202F ∨ c.toNat = 0x205F ∨ c.toNat = 0x3000

theorem isBlank_iff (c : Char) : isBlank c = true ↔ WhiteSpace c := by
  rw [isBlank, CodePoints.contains_iff (by decide)]
  simp only [blanks, List.mem_toArray, List.mem_cons, List.not_mem_nil, or_false,
    exists_eq_or_imp, exists_eq_left, WhiteSpace]
  omega

/-- A part of a text between white space, with none at its own ends. -/
structure Stripped (text core : List Char) : Prop where
  between : ∃ before after, text = before ++ core ++ after ∧
    (∀ c ∈ before, WhiteSpace c) ∧ ∀ c ∈ after, WhiteSpace c
  head : ∀ c, core.head? = some c → ¬ WhiteSpace c
  last : ∀ c, core.getLast? = some c → ¬ WhiteSpace c

section Ends

variable {holds : Char → Bool} {cs front rest : List Char} {c : Char}

theorem not_of_head_dropWhile (head : (cs.dropWhile holds).head? = some c) : holds c = false := by
  have stopped := List.head?_dropWhile_not holds cs
  rwa [head] at stopped

theorem dropWhile_append (all : ∀ c ∈ front, holds c = true)
    (stops : ∀ c, rest.head? = some c → holds c = false) :
    (front ++ rest).dropWhile holds = rest := by
  rw [List.dropWhile_append_of_pos all]
  cases rest with
  | nil => rfl
  | cons c rest =>
    have other := stops c rfl
    rw [List.dropWhile_cons_of_neg (by simp [other])]

theorem takeWhile_append (all : ∀ c ∈ front, holds c = true)
    (stops : ∀ c, rest.head? = some c → holds c = false) :
    (front ++ rest).takeWhile holds = front := by
  rw [List.takeWhile_append_of_pos all]
  cases rest with
  | nil => simp
  | cons c rest =>
    have other := stops c rfl
    rw [List.takeWhile_cons_of_neg (by simp [other]), List.append_nil]

end Ends

theorem stripped_trim (text : List Char) : Stripped text (trim text) := by
  have front : text.takeWhile isBlank ++ text.dropWhile isBlank = text :=
    List.takeWhile_append_dropWhile
  have back : trim text ++ ((text.dropWhile isBlank).reverse.takeWhile isBlank).reverse =
      text.dropWhile isBlank := by
    rw [trim, ← List.reverse_append, List.takeWhile_append_dropWhile, List.reverse_reverse]
  refine ⟨⟨text.takeWhile isBlank,
    ((text.dropWhile isBlank).reverse.takeWhile isBlank).reverse, ?_, ?_, ?_⟩, ?_, ?_⟩
  · rw [List.append_assoc, back, front]
  · intro c member
    exact (isBlank_iff c).mp (List.mem_takeWhile_imp member)
  · intro c member
    exact (isBlank_iff c).mp (List.mem_takeWhile_imp (List.mem_reverse.mp member))
  · intro c head blank
    have first : (text.dropWhile isBlank).head? = some c := by
      rw [← back, List.head?_append, head, Option.some_or]
    have not_blank := not_of_head_dropWhile first
    rw [(isBlank_iff c).mpr blank] at not_blank
    cases not_blank
  · intro c last blank
    rw [trim, List.getLast?_reverse] at last
    have not_blank := not_of_head_dropWhile last
    rw [(isBlank_iff c).mpr blank] at not_blank
    cases not_blank

theorem stripped_iff {text core : List Char} : Stripped text core ↔ core = trim text := by
  constructor
  · intro stripped
    obtain ⟨⟨before, after, rfl, blank, blank'⟩, head, last⟩ := stripped
    have not_blank {c : Char} (other : ¬ WhiteSpace c) : isBlank c = false :=
      Bool.eq_false_iff.mpr fun holds => other ((isBlank_iff c).mp holds)
    have front : ∀ c ∈ before, isBlank c = true := fun c member =>
      (isBlank_iff c).mpr (blank c member)
    have back : ∀ c ∈ after.reverse, isBlank c = true := fun c member =>
      (isBlank_iff c).mpr (blank' c (List.mem_reverse.mp member))
    cases core with
    | nil =>
      have all : ∀ c ∈ before ++ [] ++ after, isBlank c = true := by
        intro c member
        rw [List.append_nil, List.mem_append] at member
        exact member.elim (front c) fun behind => back c (List.mem_reverse.mpr behind)
      have nothing : (before ++ [] ++ after ++ []).dropWhile isBlank = [] :=
        dropWhile_append all nofun
      rw [List.append_nil] at nothing
      rw [trim, nothing]
      rfl
    | cons c core =>
      rw [trim, List.append_assoc, dropWhile_append front fun d first => ?_, List.reverse_append,
        dropWhile_append back fun d first => ?_, List.reverse_reverse]
      · rw [List.head?_reverse] at first
        exact not_blank (last d first)
      · cases first
        exact not_blank (head c rfl)
  · rintro rfl
    exact stripped_trim text

/-- Of a text that is all white space nothing is left, and a line break may be of three bytes. -/
example : trim ['\u2028', '\t', '-', '7', ' ', 'x', '\u3000'] = ['-', '7', ' ', 'x'] := by
  cbv

end Text

end RiteImage
