import RiteImage.Data.Tree
import RiteImage.Reader.Basic

/-! Equations of readers.
A composed reader is opened by what its first part does, and a repeated one is the
first value followed by the others. What holds of parts and is kept when they are put
together holds of repetitions and of maps over trees. -/
namespace RiteImage

variable {α β : Type}

def replicateM {m : Type → Type} [Monad m] : Nat → m α → m (List α)
  | 0, _ => pure []
  | count + 1, action => do
    let a ← action
    let rest ← replicateM count action
    pure (a :: rest)

theorem map_replicateM {m : Type → Type} [Monad m] [LawfulMonad m] (f : α → β) (action : m α)
    (count : Nat) : List.map f <$> replicateM count action = replicateM count (f <$> action) := by
  induction count with
  | zero => simp [replicateM]
  | succ count ih => simp [replicateM, ← ih]

/-- A relation between the actions of two monads that is kept when actions are put together. -/
structure Kept {m n : Type → Type} [Monad m] [Monad n] (R : (γ : Type) → m γ → n γ → Prop) :
    Prop where
  pure : ∀ {γ : Type} (c : γ), R γ (pure c : m γ) (pure c : n γ)
  bind : ∀ {γ δ : Type} {x : m γ} {y : n γ} {f : γ → m δ} {g : γ → n δ}, R γ x y →
    (∀ c, R δ (f c) (g c)) → R δ (x >>= f) (y >>= g)

namespace Kept

variable {m n : Type → Type} [Monad m] [Monad n] {R : (γ : Type) → m γ → n γ → Prop}

theorem replicateM (kept : Kept R) {x : m α} {y : n α} (entry : R α x y) (count : Nat) :
    R (List α) (replicateM count x) (replicateM count y) := by
  induction count with
  | zero => exact kept.pure []
  | succ count ih => exact kept.bind entry fun a => kept.bind ih fun rest => kept.pure (a :: rest)

mutual

theorem mapM (kept : Kept R) {f : α → m β} {g : α → n β} (each : ∀ a, R β (f a) (g a)) :
    (t : Tree α) → R (Tree β) (t.mapM f) (t.mapM g)
  | .node a ts => by
    unfold Tree.mapM
    exact kept.bind (each a) fun b => kept.bind (kept.mapAllM each ts) fun us =>
      kept.pure (Tree.node b us)

theorem mapAllM (kept : Kept R) {f : α → m β} {g : α → n β} (each : ∀ a, R β (f a) (g a)) :
    (ts : List (Tree α)) → R (List (Tree β)) (Tree.mapAllM f ts) (Tree.mapAllM g ts)
  | [] => by
    unfold Tree.mapAllM
    exact kept.pure []
  | t :: ts => by
    unfold Tree.mapAllM
    exact kept.bind (kept.mapM each t) fun u => kept.bind (kept.mapAllM each ts) fun us =>
      kept.pure (u :: us)

end

end Kept

namespace Reader

theorem bind_of_ok {r : Reader α} {next : α → Reader β} {bytes : ByteArray} {start middle : Nat}
    {a : α} {events : List Event} (first : r bytes start = ⟨.ok a, middle, events⟩) :
    (r >>= next) bytes start =
      ⟨(next a bytes middle).result, (next a bytes middle).position,
        events ++ (next a bytes middle).events⟩ := by
  change Reader.bind r next bytes start = _
  simp only [Reader.bind, first]

theorem bind_of_error {r : Reader α} {next : α → Reader β} {bytes : ByteArray} {start stop : Nat}
    {e : Cause} {events : List Event} (first : r bytes start = ⟨.error e, stop, events⟩) :
    (r >>= next) bytes start = ⟨.error e, stop, events⟩ := by
  change Reader.bind r next bytes start = _
  simp only [Reader.bind, first]

instance : LawfulMonad Reader := by
  refine LawfulMonad.mk' Reader ?_ ?_ ?_
  · intro α r
    funext bytes start
    change (r >>= fun a => pure a) bytes start = _
    rcases run : r bytes start with ⟨e | a, stop, events⟩
    · rw [bind_of_error run]
    · rw [bind_of_ok run]
      simp [Pure.pure, Reader.pure]
  · intro α β a next
    funext bytes start
    rw [bind_of_ok rfl]
    simp
  · intro α β γ r f g
    funext bytes start
    rcases run : r bytes start with ⟨e | a, middle, events⟩
    · rw [bind_of_error run, bind_of_error (bind_of_error run)]
    · rw [bind_of_ok run]
      rcases run' : f a bytes middle with ⟨e | b, stop, events'⟩
      · rw [bind_of_error run', bind_of_error (by rw [bind_of_ok run, run'])]
      · rw [bind_of_ok run', bind_of_ok (by rw [bind_of_ok run, run'])]
        simp

theorem replicateFrom_eq (r : Reader α) (bytes : ByteArray) (count start : Nat) (values : List α)
    (events : List Event) :
    replicateFrom r bytes count start values events =
      ⟨(replicate count r bytes start).result.map (values.reverse ++ ·),
        (replicate count r bytes start).position,
        events.reverse ++ (replicate count r bytes start).events⟩ := by
  induction count generalizing start values events with
  | zero => simp [replicate, replicateFrom, Except.map]
  | succ count ih =>
    simp only [replicate, replicateFrom]
    rcases r bytes start with ⟨e | a, middle, more⟩
    · simp [Except.map]
    · simp only [ih middle]
      rcases (replicate count r bytes middle).result with e | rest <;> simp [Except.map]

theorem replicate_zero (r : Reader α) : replicate 0 r = pure [] := rfl

theorem replicate_succ (count : Nat) (r : Reader α) :
    replicate (count + 1) r = (do
      let a ← r
      let rest ← replicate count r
      pure (a :: rest)) := by
  funext bytes start
  rcases first : r bytes start with ⟨e | a, middle, events⟩
  · rw [bind_of_error first]
    simp [replicate, replicateFrom, first]
  · rw [bind_of_ok first]
    have opened : replicate (count + 1) r bytes start =
        replicateFrom r bytes count middle [a] (events.reverse ++ []) := by
      simp [replicate, replicateFrom, first]
    rw [opened, replicateFrom_eq]
    rcases second : replicate count r bytes middle with ⟨e | rest, stop, more⟩
    · rw [bind_of_error second]
      simp [Except.map]
    · rw [bind_of_ok second]
      simp [Except.map, pure, Reader.pure]

theorem replicate_eq (count : Nat) (r : Reader α) : replicate count r = replicateM count r := by
  induction count with
  | zero => rfl
  | succ count ih => rw [replicate_succ, ih, replicateM]

end Reader

end RiteImage
