import RiteImage.Reader.Laws

namespace RiteImage.Reader

variable {α β : Type}

/-- Neither success nor failure leaves the reader before its start. -/
class Forward (r : Reader α) : Prop where
  start_le : ∀ bytes start, start ≤ (r bytes start).position

class Advancing (r : Reader α) : Prop where
  lt_of_ok : ∀ bytes start a, (r bytes start).result = .ok a →
    start < (r bytes start).position ∧ start < bytes.size

instance (a : α) : Forward (pure a : Reader α) := ⟨fun _ _ => Nat.le_refl _⟩

instance (e : Cause) : Forward (fail e : Reader α) := ⟨fun _ _ => Nat.le_refl _⟩

instance (e : Event) : Forward (log e) := ⟨fun _ _ => Nat.le_refl _⟩

instance : Forward buffer := ⟨fun _ _ => Nat.le_refl _⟩

instance : Forward position := ⟨fun _ _ => Nat.le_refl _⟩

instance (count : Nat) : Forward (skip count) where
  start_le bytes start := by
    simp only [skip]
    split
    · exact Nat.le_add_right _ _
    · exact Nat.le_refl _

instance (count : Nat) : Forward (take count) where
  start_le bytes start := by
    simp only [take]
    split
    · exact Nat.le_add_right _ _
    · exact Nat.le_refl _

instance (r : Reader α) (next : α → Reader β) [first : Forward r] [rest : ∀ a, Forward (next a)] :
    Forward (r >>= next) where
  start_le bytes start := by
    have one := first.start_le bytes start
    rcases h : r bytes start with ⟨_ | a, middle, events⟩
    · rw [bind_of_error h]
      rwa [h] at one
    · rw [bind_of_ok h]
      rw [h] at one
      exact Nat.le_trans one ((rest a).start_le bytes middle)

instance (f : α → β) (r : Reader α) [Forward r] : Forward (f <$> r) :=
  inferInstanceAs (Forward (r >>= fun a => pure (f a)))

instance (c : Prop) [Decidable c] (r s : Reader α) [Forward r] [Forward s] :
    Forward (if c then r else s) := by
  split <;> assumption

instance (r : Reader α) [inner : Forward r] : Forward (lookahead r) where
  start_le bytes start := by
    have one := inner.start_le bytes start
    simp only [lookahead]
    rcases h : r bytes start with ⟨_ | a, middle, events⟩
    · rwa [h] at one
    · exact Nat.le_refl _

instance (condition : Bool) (e : Cause) : Forward (require condition e) := by
  unfold require; infer_instance

instance (alignment : Nat) (positive : 0 < alignment) : Forward (align alignment positive) := by
  unfold align; infer_instance

instance (count : Nat) : Forward (word count) := by
  unfold word; infer_instance

instance : Forward u8 := by unfold u8; infer_instance

instance : Forward u16 := by unfold u16; infer_instance

instance : Forward u32 := by unfold u32; infer_instance

instance : Forward tag := by unfold tag; infer_instance

theorem kept_forward : Kept (m := Reader) (n := Reader) fun _ r _ => Forward r where
  pure _ := inferInstance
  bind first rest := by
    have := first
    have := rest
    infer_instance

instance (count : Nat) (r : Reader α) [forward : Forward r] : Forward (replicate count r) := by
  rw [replicate_eq]
  exact kept_forward.replicateM (y := r) forward count

theorem advancing_skip (count : Nat) (positive : 0 < count) : Advancing (skip count) where
  lt_of_ok bytes start a ok := by
    by_cases fits : count ≤ bytes.size - start
    · simp only [skip, remaining, fits, if_true]
      omega
    · simp only [skip, remaining, fits, if_false] at ok
      cases ok

theorem advancing_take (count : Nat) (positive : 0 < count) : Advancing (take count) where
  lt_of_ok bytes start a ok := by
    by_cases fits : count ≤ bytes.size - start
    · simp only [take, remaining, fits, if_true]
      omega
    · simp only [take, remaining, fits, if_false] at ok
      cases ok

theorem advancing_bind (r : Reader α) (next : α → Reader β) [first : Advancing r]
    [rest : ∀ a, Forward (next a)] : Advancing (r >>= next) where
  lt_of_ok bytes start b ok := by
    rcases h : r bytes start with ⟨_ | a, middle, events⟩
    · rw [bind_of_error h] at ok
      cases ok
    · have one := first.lt_of_ok bytes start a (by rw [h])
      rw [bind_of_ok h]
      rw [h] at one
      exact ⟨Nat.lt_of_lt_of_le one.1 ((rest a).start_le bytes middle), one.2⟩

theorem advancing_bind_rest (r : Reader α) (next : α → Reader β) [first : Forward r]
    (rest : ∀ a, Advancing (next a)) : Advancing (r >>= next) where
  lt_of_ok bytes start b ok := by
    have one := first.start_le bytes start
    rcases h : r bytes start with ⟨_ | a, middle, events⟩
    · rw [bind_of_error h] at ok
      cases ok
    · rw [bind_of_ok h] at ok ⊢
      rw [h] at one
      have two := (rest a).lt_of_ok bytes middle b ok
      exact ⟨Nat.lt_of_le_of_lt one two.1, Nat.lt_of_le_of_lt one two.2⟩

instance : Advancing tag :=
  have := advancing_take 4 (by decide)
  advancing_bind (take 4) fun chunk => pure (Tag.ofBytes chunk)

end RiteImage.Reader
