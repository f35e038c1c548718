namespace RiteImage

inductive Tree (α : Type) where
  | node (label : α) (children : List (Tree α))

namespace Tree

variable {α β : Type}

def label : Tree α → α
  | node a _ => a

def children : Tree α → List (Tree α)
  | node _ ts => ts

mutual

def size : Tree α → Nat
  | node _ ts => 1 + sizeAll ts

def sizeAll : List (Tree α) → Nat
  | [] => 0
  | t :: ts => size t + sizeAll ts

end

mutual

def height : Tree α → Nat
  | node _ ts => heightAll ts

def heightAll : List (Tree α) → Nat
  | [] => 0
  | t :: ts => max (height t + 1) (heightAll ts)

end

mutual

/-- Every subtree with the depth of its root, where the whole tree is at `depth`. -/
def listing (depth : Nat) : Tree α → List (Nat × Tree α)
  | node a ts => (depth, node a ts) :: listingAll (depth + 1) ts

def listingAll (depth : Nat) : List (Tree α) → List (Nat × Tree α)
  | [] => []
  | t :: ts => listing depth t ++ listingAll depth ts

end

mutual

def mapM {m : Type → Type} [Monad m] (f : α → m β) : Tree α → m (Tree β)
  | node a ts => do
    let b ← f a
    let us ← mapAllM f ts
    pure (node b us)

def mapAllM {m : Type → Type} [Monad m] (f : α → m β) : List (Tree α) → m (List (Tree β))
  | [] => pure []
  | t :: ts => do
    let u ← mapM f t
    let us ← mapAllM f ts
    pure (u :: us)

end

mutual

/-- Every subtree with the one at the same place of another tree, where it has one. -/
def pairing (depth : Nat) : Tree α → Option (Tree β) → List (Nat × Tree α × Option (Tree β))
  | node a ts, other =>
    (depth, node a ts, other) :: pairingAll (depth + 1) ts ((other.map children).getD [])

def pairingAll (depth : Nat) :
    List (Tree α) → List (Tree β) → List (Nat × Tree α × Option (Tree β))
  | [], _ => []
  | t :: ts, others => pairing depth t others.head? ++ pairingAll depth ts others.tail

end

mutual

def all₂ (related : α → β → Bool) : Tree α → Tree β → Bool
  | node a ts, node b us => related a b && allAll₂ related ts us

def allAll₂ (related : α → β → Bool) : List (Tree α) → List (Tree β) → Bool
  | [], [] => true
  | t :: ts, u :: us => all₂ related t u && allAll₂ related ts us
  | _, _ => false

end

instance [BEq α] : BEq (Tree α) where
  beq := all₂ (· == ·)

/-- Takes the top tree of a stack apart: its children take its place. -/
def pop : List (Tree α) → Option (Tree α × List (Tree α))
  | [] => none
  | t :: stack => some (t, t.children ++ stack)

theorem sizeAll_append (ts us : List (Tree α)) :
    sizeAll (ts ++ us) = sizeAll ts + sizeAll us := by
  induction ts with
  | nil => simp [sizeAll]
  | cons t ts ih => simp only [List.cons_append, sizeAll, ih]; omega

theorem sizeAll_pop {stack rest : List (Tree α)} {t : Tree α}
    (popped : pop stack = some (t, rest)) : sizeAll rest < sizeAll stack := by
  cases stack with
  | nil => cases popped
  | cons u us =>
    cases u
    cases popped
    simp only [sizeAll_append, sizeAll, size, children]
    omega

def drain (stack : List (Tree α)) : List (Tree α) :=
  match _popped : pop stack with
  | none => []
  | some (t, rest) => t :: drain rest
termination_by sizeAll stack
decreasing_by exact sizeAll_pop _popped

def stackOrder (t : Tree α) : List (Tree α) := drain [t]

end Tree

end RiteImage
