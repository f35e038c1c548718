namespace RiteImage

/-- Halves `low .. high` until both meet at the border. -/
def borderBetween (keep : α → Bool) (xs : Array α) (low high : Nat) (inside : high ≤ xs.size) :
    Nat :=
  if gap : low < high then
    let middle := (low + high) / 2
    have _within : middle < xs.size := by omega
    if keep xs[middle] then
      borderBetween keep xs (middle + 1) high inside
    else
      borderBetween keep xs low middle (by omega)
  else low
termination_by high - low

def border (keep : α → Bool) (xs : Array α) : Nat :=
  borderBetween keep xs 0 xs.size (Nat.le_refl _)

theorem borderBetween_le (keep : α → Bool) (xs : Array α) (low high : Nat)
    (inside : high ≤ xs.size) (le : low ≤ xs.size) :
    borderBetween keep xs low high inside ≤ xs.size := by
  fun_induction borderBetween keep xs low high inside with
  | case1 low high inside gap middle within kept ih => exact ih (by omega)
  | case2 low high inside gap middle within dropped ih => exact ih le
  | case3 low high inside met => exact le

theorem border_le (keep : α → Bool) (xs : Array α) : border keep xs ≤ xs.size :=
  borderBetween_le keep xs 0 xs.size (Nat.le_refl _) (Nat.zero_le _)

theorem borderBetween_eq {keep : α → Bool} {xs : Array α} {count low high : Nat}
    (splits : ∀ i, (h : i < xs.size) → (keep xs[i] = true ↔ i < count)) (inside : high ≤ xs.size)
    (above : low ≤ count) (below : count ≤ high) :
    borderBetween keep xs low high inside = count := by
  fun_induction borderBetween keep xs low high inside with
  | case1 low high inside gap middle within kept ih =>
    exact ih ((splits middle within).mp kept) below
  | case2 low high inside gap middle within dropped ih =>
    exact ih above (Nat.le_of_not_lt fun lt => dropped ((splits middle within).mpr lt))
  | case3 low high inside met => omega

theorem exists_border {keep : α → Bool} {xs : List α}
    (ordered : xs.Pairwise fun a b => keep b = true → keep a = true) :
    ∃ count, count ≤ xs.length ∧ xs.take count = xs.filter keep ∧
      ∀ i, (h : i < xs.length) → (keep xs[i] = true ↔ i < count) := by
  induction xs with
  | nil => exact ⟨0, Nat.le_refl 0, rfl, nofun⟩
  | cons x xs ih =>
    obtain ⟨first, rest⟩ := List.pairwise_cons.mp ordered
    by_cases kept : keep x = true
    · obtain ⟨count, le, taken, splits⟩ := ih rest
      refine ⟨count + 1, Nat.succ_le_succ le, ?_, fun i inside => ?_⟩
      · rw [List.take_succ_cons, List.filter_cons_of_pos kept, taken]
      · cases i with
        | zero => simp [kept]
        | succ i => simpa using splits i (Nat.lt_of_succ_lt_succ inside)
    · -- Nothing is kept behind the first entry that is not.
      have none : ∀ a ∈ x :: xs, ¬ keep a = true := by
        intro a mem kept'
        cases mem with
        | head => exact kept kept'
        | tail _ mem => exact kept (first a mem kept')
      refine ⟨0, Nat.zero_le _, ?_, fun i inside => ?_⟩
      · rw [List.take_zero, List.filter_eq_nil_iff.mpr none]
      · simp [none _ (List.getElem_mem inside)]

theorem take_border {keep : α → Bool} {xs : Array α}
    (ordered : xs.toList.Pairwise fun a b => keep b = true → keep a = true) :
    xs.toList.take (border keep xs) = xs.toList.filter keep := by
  obtain ⟨count, le, taken, splits⟩ := exists_border ordered
  have found : border keep xs = count := borderBetween_eq splits _ (Nat.zero_le _) le
  rw [found, taken]

end RiteImage
