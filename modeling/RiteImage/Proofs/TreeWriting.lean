import RiteImage.Proofs.TreeShape

namespace RiteImage.Tree

variable {α β : Type}

mutual

def write (own : Nat → α → Nat → List UInt8) (start : Nat) : Tree α → List UInt8
  | node a ts =>
    own start a ts.length ++ writeAll own (start + (own start a ts.length).length) ts

def writeAll (own : Nat → α → Nat → List UInt8) (start : Nat) : List (Tree α) → List UInt8
  | [] => []
  | t :: ts => write own start t ++ writeAll own (start + (write own start t).length) ts

end

mutual

def placed (own : Nat → α → Nat → List UInt8) (value : Nat → α → Nat → β) (start : Nat) :
    Tree α → Tree β
  | node a ts =>
    node (value start a ts.length)
      (placedAll own value (start + (own start a ts.length).length) ts)

def placedAll (own : Nat → α → Nat → List UInt8) (value : Nat → α → Nat → β) (start : Nat) :
    List (Tree α) → List (Tree β)
  | [] => []
  | t :: ts =>
    placed own value start t :: placedAll own value (start + (write own start t).length) ts

end

variable {own : Nat → α → Nat → List UInt8} {value : Nat → α → Nat → β}

theorem sameShape_placedAll {ts : List (Tree α)}
    (each : ∀ t ∈ ts, ∀ start, SameShape t (placed own value start t)) (start : Nat) :
    List.Forall₂ SameShape ts (placedAll own value start ts) := by
  induction ts generalizing start with
  | nil => exact .nil
  | cons t ts ih =>
    rw [placedAll]
    exact .cons (each t List.mem_cons_self start)
      (ih (fun u member => each u (List.mem_cons_of_mem t member)) _)

theorem sameShape_placed (t : Tree α) (start : Nat) : SameShape t (placed own value start t) := by
  induction t generalizing start with
  | node a ts ih =>
    rw [placed, sameShape_node]
    exact sameShape_placedAll ih _

theorem length_placedAll (start : Nat) (ts : List (Tree α)) :
    (placedAll own value start ts).length = ts.length := by
  induction ts generalizing start with
  | nil => rfl
  | cons t ts ih => rw [placedAll, List.length_cons, List.length_cons, ih]

variable {layout : Nat → β → Nat → List UInt8 → Prop} {limit : Nat}

theorem laid_writeAll {ts : List (Tree α)}
    (each : ∀ t ∈ ts, ∀ start, (write own start t).length < limit →
      Laid layout start (placed own value start t) (write own start t))
    {start : Nat} (short : (writeAll own start ts).length < limit) :
    Layout.each (Laid layout) start (placedAll own value start ts) (writeAll own start ts) := by
  induction ts generalizing start with
  | nil => rfl
  | cons t ts ih =>
    rw [writeAll, List.length_append] at short
    rw [writeAll, placedAll]
    exact ⟨_, _, rfl, each t List.mem_cons_self start (by omega),
      ih (fun u member => each u (List.mem_cons_of_mem t member)) (by omega)⟩

/-- A tree is laid out as it is written, if every node is and the whole is short enough. -/
theorem laid_write {fits : α → Nat → Prop}
    (node_ok : ∀ start a count, fits a count → (own start a count).length < limit →
      layout start (value start a count) count (own start a count))
    {t : Tree α} (every : EveryNode fits t) {start : Nat}
    (short : (write own start t).length < limit) :
    Laid layout start (placed own value start t) (write own start t) := by
  induction t generalizing start with
  | node a ts ih =>
    obtain ⟨root, below⟩ := everyNode_node.mp every
    rw [write, List.length_append] at short
    rw [write, placed, laid_node, length_placedAll]
    exact ⟨_, _, rfl, node_ok start a ts.length root (by omega),
      laid_writeAll (fun t member _ inner => ih t member (below t member) inner) (by omega)⟩

end RiteImage.Tree
