import RiteImage.Data.Tree
import RiteImage.Proofs.Reads

namespace RiteImage

variable {α β : Type}

def Cause.Lacks (bytes : ByteArray) (e : Cause) : Prop :=
  ∃ offset needed available, e = .truncated offset needed available ∧ offset ≤ bytes.size ∧
    offset + available = bytes.size ∧ available < needed

namespace Reader

variable {bytes : ByteArray} {start : Nat} {holds : ByteArray → Cause → Prop}

theorem error_bind_iff {r : Reader α} {next : α → Reader β} {e : Cause} :
    ((r >>= next) bytes start).result = .error e ↔
      (r bytes start).result = .error e ∨
        ∃ a middle, Reads r bytes start a middle ∧ (next a bytes middle).result = .error e := by
  rcases run : r bytes start with ⟨f | a, middle, events⟩
  · have silent (a : α) (stop : Nat) : ¬ Reads r bytes start a stop := by
      simp [Reads, run]
    simp [bind_of_error run, silent]
  · have read := reads_of_eq run
    rw [result_bind read]
    constructor
    · intro failed
      exact .inr ⟨a, middle, read, failed⟩
    · intro h
      obtain impossible | ⟨b, stop, read', failed⟩ := h
      · cases impossible
      · obtain ⟨rfl, rfl⟩ := read.unique read'
        exact failed

theorem error_require_bind_iff {condition : Bool} {e f : Cause} {next : Unit → Reader β} :
    ((require condition f >>= next) bytes start).result = .error e ↔
      condition = false ∧ e = f ∨ condition = true ∧ (next () bytes start).result = .error e := by
  cases condition with
  | false =>
    change Except.error f = Except.error e ↔ _
    simp [eq_comm]
  | true =>
    change (next () bytes start).result = .error e ↔ _
    simp

theorem lacks_of_step {count : Nat} {a : α} {stop : Nat} {events : List Event} {e : Cause}
    (inside : start ≤ bytes.size)
    (failed : (if count ≤ remaining bytes start then ⟨.ok a, stop, events⟩
      else truncated bytes start count : Outcome α).result = .error e) : e.Lacks bytes := by
  split at failed
  · cases failed
  · rename_i missing
    cases failed
    rw [remaining] at missing ⊢
    exact ⟨start, count, _, rfl, inside, by omega, by omega⟩

/-- From inside the buffer the reader stays inside, and a failure is for missing bytes or for
something that holds of the buffer. -/
class Blames (holds : ByteArray → Cause → Prop) (r : Reader α) : Prop where
  le_size : ∀ {bytes start a stop}, start ≤ bytes.size → Reads r bytes start a stop →
    stop ≤ bytes.size
  of_error : ∀ {bytes start e}, start ≤ bytes.size → (r bytes start).result = .error e →
    e.Lacks bytes ∨ holds bytes e

instance (a : α) : Blames holds (pure a : Reader α) where
  le_size inside read := (reads_pure.mp read).2 ▸ inside
  of_error _ failed := nomatch failed

instance (e : Event) : Blames holds (log e) where
  le_size inside read := reads_log.mp read ▸ inside
  of_error _ failed := nomatch failed

instance : Blames holds position where
  le_size inside read := (reads_position.mp read).2 ▸ inside
  of_error _ failed := nomatch failed

theorem blames_fail {e : Cause} (told : ∀ bytes, holds bytes e) :
    Blames holds (fail e : Reader α) where
  le_size _ read := absurd read reads_fail
  of_error _ failed := by
    cases failed
    exact .inr (told _)

theorem blames_require {condition : Bool} {e : Cause} (told : ∀ bytes, holds bytes e) :
    Blames holds (require condition e) := by
  cases condition with
  | false => exact blames_fail told
  | true => exact (inferInstance : Blames holds (pure ()))

instance (count : Nat) : Blames holds (skip count) where
  le_size inside read := by
    obtain ⟨fits, rfl⟩ := reads_skip.mp read
    omega
  of_error inside failed := .inl (lacks_of_step inside failed)

instance (count : Nat) : Blames holds (take count) where
  le_size inside read := by
    obtain ⟨fits, -, rfl⟩ := reads_take.mp read
    omega
  of_error inside failed := .inl (lacks_of_step inside failed)

instance (r : Reader α) (next : α → Reader β) [first : Blames holds r]
    [rest : ∀ a, Blames holds (next a)] : Blames holds (r >>= next) where
  le_size inside read := by
    obtain ⟨a, middle, part, read⟩ := reads_bind.mp read
    exact (rest a).le_size (first.le_size inside part) read
  of_error inside failed := by
    obtain part | ⟨a, middle, read, failed⟩ := error_bind_iff.mp failed
    · exact first.of_error inside part
    · exact (rest a).of_error (first.le_size inside read) failed

instance (f : α → β) (r : Reader α) [Blames holds r] : Blames holds (f <$> r) :=
  inferInstanceAs (Blames holds (r >>= fun a => pure (f a)))

instance (c : Prop) [Decidable c] (r s : Reader α) [Blames holds r] [Blames holds s] :
    Blames holds (if c then r else s) := by
  split <;> assumption

instance (r : Reader α) [inner : Blames holds r] : Blames holds (lookahead r) where
  le_size inside read := (reads_lookahead.mp read).2 ▸ inside
  of_error {bytes start e} inside failed := by
    rcases run : r bytes start with ⟨f | a, middle, events⟩
    · rw [lookahead_of_error run] at failed
      cases failed
      exact inner.of_error inside (by rw [run])
    · rw [lookahead_of_ok run] at failed
      cases failed

instance (alignment : Nat) (positive : 0 < alignment) :
    Blames holds (align alignment positive) := by
  unfold align; infer_instance

instance (count : Nat) : Blames holds (word count) := by unfold word; infer_instance

instance : Blames holds u8 := by unfold u8; infer_instance

instance : Blames holds u16 := by unfold u16; infer_instance

instance : Blames holds u32 := by unfold u32; infer_instance

instance : Blames holds tag := by unfold tag; infer_instance

theorem kept_blames : Kept (m := Reader) (n := Reader) fun _ r _ => Blames holds r where
  pure _ := inferInstance
  bind first rest := by
    have := first
    have := rest
    infer_instance

instance (count : Nat) (r : Reader α) [blames : Blames holds r] :
    Blames holds (replicate count r) := by
  rw [replicate_eq]
  exact kept_blames.replicateM (y := r) blames count

end Reader

end RiteImage
