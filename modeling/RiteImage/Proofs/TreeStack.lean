import RiteImage.Proofs.TreePlaces

namespace RiteImage.Tree

variable {α : Type}

def preorder (t : Tree α) : List (Tree α) := (t.listing 0).map Prod.snd

def next (stack : Array (Tree α)) : Option (Tree α × Array (Tree α)) :=
  stack.back?.map fun t => (t, stack.pop ++ t.children.reverse.toArray)

/-- What a number of calls yields, and the stack behind them. An empty stack yields nothing. -/
def calls : Nat → Array (Tree α) → List (Tree α) × Array (Tree α)
  | 0, stack => ([], stack)
  | count + 1, stack =>
    match next stack with
    | none => ([], stack)
    | some (t, rest) => (t :: (calls count rest).1, (calls count rest).2)

/-- What is still to come: the listings of the trees on the stack, from the top down. -/
def pending (stack : Array (Tree α)) : List (Tree α) := stack.toList.reverse.flatMap preorder

/-! The listing follows the children. -/

theorem map_snd_listingAll {ts : List (Tree α)} {depth : Nat}
    (each : ∀ t ∈ ts, ∀ depth, (t.listing depth).map Prod.snd = t.stackOrder) :
    (listingAll depth ts).map Prod.snd = ts.flatMap stackOrder := by
  induction ts with
  | nil => rfl
  | cons t ts ih =>
    rw [listingAll, List.map_append, each t List.mem_cons_self, List.flatMap_cons,
      ih fun u member => each u (List.mem_cons_of_mem t member)]

theorem map_snd_listing (t : Tree α) (depth : Nat) :
    (t.listing depth).map Prod.snd = t.stackOrder := by
  induction t generalizing depth with
  | node a ts ih =>
    rw [listing, List.map_cons, map_snd_listingAll fun t member => ih t member, stackOrder_node]

theorem stackOrder_eq_preorder (t : Tree α) : t.stackOrder = t.preorder :=
  (map_snd_listing t 0).symm

theorem preorder_node (a : α) (ts : List (Tree α)) :
    (node a ts).preorder = node a ts :: ts.flatMap preorder := by
  have same : (stackOrder : Tree α → List (Tree α)) = preorder := funext stackOrder_eq_preorder
  rw [← stackOrder_eq_preorder, stackOrder_node, same]

theorem length_preorder (t : Tree α) : t.preorder.length = t.size := by
  rw [← stackOrder_eq_preorder, ← map_snd_places, List.length_map, length_places]

/-! One call. -/

theorem eq_empty_or_push (stack : Array (Tree α)) :
    stack = #[] ∨ ∃ (rest : Array (Tree α)) (t : Tree α), stack = rest.push t := by
  by_cases empty : stack.size = 0
  · exact .inl (Array.eq_empty_of_size_eq_zero empty)
  · exact .inr (Array.eq_push_of_size_ne_zero empty)

theorem map_next (stack : Array (Tree α)) :
    (next stack).map (fun (t, rest) => (t, rest.toList.reverse)) = pop stack.toList.reverse := by
  rcases eq_empty_or_push stack with rfl | ⟨rest, t, rfl⟩
  · rfl
  · simp [next, pop]

theorem flatMap_preorder_of_pop {stack rest : List (Tree α)} {t : Tree α}
    (popped : pop stack = some (t, rest)) :
    stack.flatMap preorder = t :: rest.flatMap preorder := by
  cases stack with
  | nil => cases popped
  | cons u others =>
    cases popped
    cases t with
    | node a ts =>
      rw [List.flatMap_cons, preorder_node, List.flatMap_append, List.cons_append]
      rfl

theorem pending_of_next {stack rest : Array (Tree α)} {t : Tree α}
    (called : next stack = some (t, rest)) : pending stack = t :: pending rest := by
  have popped := map_next stack
  rw [called] at popped
  exact flatMap_preorder_of_pop popped.symm

theorem next_eq_none_iff {stack : Array (Tree α)} : next stack = none ↔ pending stack = [] := by
  cases called : next stack with
  | none =>
    rcases eq_empty_or_push stack with rfl | ⟨rest, t, rfl⟩
    · exact iff_of_true rfl rfl
    · simp [next] at called
  | some found => simp [pending_of_next called]

/-! Any number of calls. -/

theorem calls_eq (count : Nat) (stack : Array (Tree α)) :
    (calls count stack).1 = (pending stack).take count ∧
      pending (calls count stack).2 = (pending stack).drop count := by
  induction count generalizing stack with
  | zero => exact ⟨rfl, rfl⟩
  | succ count ih =>
    rw [calls]
    cases called : next stack with
    | none =>
      have empty := next_eq_none_iff.mp called
      simp [empty]
    | some found =>
      obtain ⟨t, rest⟩ := found
      obtain ⟨first, last⟩ := ih rest
      rw [pending_of_next called]
      exact ⟨congrArg (t :: ·) first, last⟩

/-- The calls on a stack of one tree yield the listing of that tree, one entry after another, and
then nothing. What is still to come is at every moment the listings of the trees on the stack. The
listing has an entry for every path into the tree, and only one. -/
theorem calls_preorder (t : Tree α) :
    t.stackOrder = t.preorder ∧
    (∀ count, (calls count #[t]).1 = t.preorder.take count ∧
      pending (calls count #[t]).2 = t.preorder.drop count ∧
      (next (calls count #[t]).2 = none ↔ t.size ≤ count)) ∧
    t.preorder.length = t.size ∧
    ∃ paths : List (List Nat), paths.Nodup ∧ (∀ path, path ∈ paths ↔ (t.subtree? path).isSome) ∧
      paths.map t.subtree? = t.preorder.map some := by
  have whole : pending #[t] = t.preorder := List.append_nil _
  refine ⟨stackOrder_eq_preorder t, fun count => ?_, length_preorder t, ?_⟩
  · obtain ⟨yielded, rest⟩ := calls_eq count #[t]
    rw [whole] at yielded rest
    refine ⟨yielded, rest, ?_⟩
    rw [next_eq_none_iff, rest, List.drop_eq_nil_iff, length_preorder]
  · refine ⟨t.places.map Prod.fst, ?_, fun path => mem_map_fst_places, ?_⟩
    · refine (List.pairwise_map.mpr (pairwise_places t)).imp fun lt same => ?_
      exact List.lt_irrefl _ (same ▸ lt)
    · rw [← stackOrder_eq_preorder, ← map_snd_places, List.map_map, List.map_map]
      exact List.map_congr_left fun place mem => mem_places.mp mem

end RiteImage.Tree
