import RiteImage.Proofs.TreeShape

/-! Places of a tree, in pre-order.
Every subtree stands at one path, and the places list each path with the subtree there.
A traversal is told by them: what it visits in which order, and what it finds at the
same path of another tree. -/
namespace RiteImage.Tree

variable {α β : Type}

mutual

/-- Every path into the tree with the subtree there. -/
def places : Tree α → List (List Nat × Tree α)
  | node a ts => ([], node a ts) :: placesFrom 0 ts

def placesFrom (i : Nat) : List (Tree α) → List (List Nat × Tree α)
  | [] => []
  | t :: ts => (places t).map (Prod.map (i :: ·) id) ++ placesFrom (i + 1) ts

end

theorem mem_placesFrom {ts : List (Tree α)} {i : Nat} {path : List Nat} {s : Tree α}
    (each : ∀ t ∈ ts, ∀ path, (path, s) ∈ t.places ↔ t.subtree? path = some s) :
    (path, s) ∈ placesFrom i ts ↔
      ∃ k rest t, path = (i + k) :: rest ∧ ts[k]? = some t ∧ t.subtree? rest = some s := by
  induction ts generalizing i with
  | nil => simp [placesFrom]
  | cons t ts ih =>
    rw [placesFrom, List.mem_append, List.mem_map,
      ih fun u member => each u (List.mem_cons_of_mem t member)]
    constructor
    · intro h
      rcases h with ⟨⟨rest, s⟩, mem, same⟩ | ⟨k, rest, u, rfl, found, there⟩
      · cases same
        exact ⟨0, rest, t, rfl, rfl, (each t List.mem_cons_self rest).mp mem⟩
      · exact ⟨k + 1, rest, u, by rw [Nat.add_right_comm, Nat.add_assoc], found, there⟩
    · intro h
      obtain ⟨k, rest, u, rfl, found, there⟩ := h
      cases k with
      | zero =>
        cases found
        exact .inl ⟨(rest, s), (each t List.mem_cons_self rest).mpr there, rfl⟩
      | succ k => exact .inr ⟨k, rest, u, by rw [Nat.add_right_comm, Nat.add_assoc], found, there⟩

theorem mem_places {t : Tree α} {path : List Nat} {s : Tree α} :
    (path, s) ∈ t.places ↔ t.subtree? path = some s := by
  induction t generalizing path with
  | node a ts ih =>
    rw [places, List.mem_cons, mem_placesFrom fun t member path => ih t member]
    cases path with
    | nil => simp [subtree?, eq_comm]
    | cons k rest =>
      simp only [Prod.mk.injEq, reduceCtorEq, false_and, false_or, Nat.zero_add, List.cons.injEq,
        subtree?_cons, Option.bind_eq_some_iff]
      constructor
      · intro h
        obtain ⟨_, _, u, ⟨rfl, rfl⟩, found, there⟩ := h
        exact ⟨u, found, there⟩
      · intro h
        obtain ⟨u, found, there⟩ := h
        exact ⟨k, rest, u, ⟨rfl, rfl⟩, found, there⟩

theorem mem_map_fst_places {t : Tree α} {path : List Nat} :
    path ∈ t.places.map Prod.fst ↔ (t.subtree? path).isSome := by
  simp [mem_places, Option.isSome_iff_exists]

theorem exists_cons_of_mem_placesFrom {ts : List (Tree α)} {i : Nat} {place : List Nat × Tree α}
    (mem : place ∈ placesFrom i ts) : ∃ k rest, i ≤ k ∧ place.1 = k :: rest := by
  induction ts generalizing i with
  | nil => cases mem
  | cons t ts ih =>
    rw [placesFrom, List.mem_append, List.mem_map] at mem
    rcases mem with ⟨⟨rest, s⟩, -, rfl⟩ | mem
    · exact ⟨i, rest, Nat.le_refl i, rfl⟩
    · obtain ⟨k, rest, le, path⟩ := ih mem
      exact ⟨k, rest, Nat.le_of_succ_le le, path⟩

theorem pairwise_placesFrom {ts : List (Tree α)} {i : Nat}
    (each : ∀ t ∈ ts, t.places.Pairwise fun one two => one.1 < two.1) :
    (placesFrom i ts).Pairwise fun one two => one.1 < two.1 := by
  induction ts generalizing i with
  | nil => exact .nil
  | cons t ts ih =>
    rw [placesFrom, List.pairwise_append, List.pairwise_map]
    refine ⟨?_, ih fun u member => each u (List.mem_cons_of_mem t member), ?_⟩
    · refine (each t List.mem_cons_self).imp fun lt => ?_
      exact List.cons_lt_cons_iff.mpr (.inr ⟨rfl, lt⟩)
    · intro one mem two mem'
      obtain ⟨⟨rest, s⟩, -, rfl⟩ := List.mem_map.mp mem
      obtain ⟨k, rest', le, path⟩ := exists_cons_of_mem_placesFrom mem'
      rw [path]
      exact List.cons_lt_cons_iff.mpr (.inl le)

/-- Pre-order is the lexicographic order of the paths. -/
theorem pairwise_places (t : Tree α) : t.places.Pairwise fun one two => one.1 < two.1 := by
  induction t with
  | node a ts ih =>
    rw [places, List.pairwise_cons]
    refine ⟨fun place mem => ?_, pairwise_placesFrom ih⟩
    obtain ⟨k, rest, -, path⟩ := exists_cons_of_mem_placesFrom mem
    rw [path]
    exact List.nil_lt_cons k rest

theorem length_placesFrom {ts : List (Tree α)} {i : Nat}
    (each : ∀ t ∈ ts, t.places.length = t.size) : (placesFrom i ts).length = sizeAll ts := by
  induction ts generalizing i with
  | nil => rfl
  | cons t ts ih =>
    rw [placesFrom, List.length_append, List.length_map, each t List.mem_cons_self,
      ih fun u member => each u (List.mem_cons_of_mem t member), sizeAll]

theorem length_places (t : Tree α) : t.places.length = t.size := by
  induction t with
  | node a ts ih => rw [places, List.length_cons, length_placesFrom ih, size, Nat.add_comm]

theorem map_fst_placesFrom {ts : List (Tree α)} {us : List (Tree β)} {i : Nat}
    (pairs : List.Forall₂ SameShape ts us)
    (each : ∀ t ∈ ts, ∀ u : Tree β, SameShape t u →
      t.places.map Prod.fst = u.places.map Prod.fst) :
    (placesFrom i ts).map Prod.fst = (placesFrom i us).map Prod.fst := by
  induction pairs generalizing i with
  | nil => rfl
  | cons first _ ih =>
    have heads := congrArg (List.map (i :: ·)) (each _ List.mem_cons_self _ first)
    simp only [List.map_map] at heads
    simp only [placesFrom, List.map_append, List.map_map,
      ih fun t member => each t (List.mem_cons_of_mem _ member)]
    exact congrArg (· ++ _) heads

theorem map_fst_places {t : Tree α} {u : Tree β} (same : SameShape t u) :
    t.places.map Prod.fst = u.places.map Prod.fst := by
  induction t generalizing u with
  | node a ts ih =>
    cases u with
    | node b us =>
      rw [places, places, List.map_cons, List.map_cons,
        map_fst_placesFrom (sameShape_node.mp same) fun t member u => ih t member]

/-! What a stack yields. -/

@[simp] theorem drain_nil : drain ([] : List (Tree α)) = [] := by
  rw [drain]
  rfl

@[simp] theorem drain_cons (t : Tree α) (stack : List (Tree α)) :
    drain (t :: stack) = t :: drain (t.children ++ stack) := by
  rw [drain]
  rfl

theorem drain_append (ts us : List (Tree α)) : drain (ts ++ us) = drain ts ++ drain us := by
  fun_induction drain ts with
  | case1 ts empty =>
    cases ts with
    | nil => rfl
    | cons t ts => cases empty
  | case2 ts t rest popped ih =>
    cases ts with
    | nil => cases popped
    | cons u ts =>
      cases popped
      rw [List.cons_append, drain_cons, ← List.append_assoc, ih, List.cons_append]

theorem drain_eq (ts : List (Tree α)) : drain ts = ts.flatMap stackOrder := by
  induction ts with
  | nil => exact drain_nil
  | cons t ts ih => rw [← List.singleton_append, drain_append, ih]; rfl

theorem stackOrder_node (a : α) (ts : List (Tree α)) :
    (node a ts).stackOrder = node a ts :: ts.flatMap stackOrder := by
  rw [stackOrder, drain_cons, List.append_nil, drain_eq]
  rfl

theorem map_snd_placesFrom {ts : List (Tree α)} {i : Nat}
    (each : ∀ t ∈ ts, t.places.map Prod.snd = t.stackOrder) :
    (placesFrom i ts).map Prod.snd = ts.flatMap stackOrder := by
  induction ts generalizing i with
  | nil => rfl
  | cons t ts ih =>
    rw [placesFrom, List.map_append, List.map_map, List.flatMap_cons, ← each t List.mem_cons_self,
      ih fun u member => each u (List.mem_cons_of_mem t member)]
    rfl

/-- A stack that starts with a tree yields its places in their order. -/
theorem map_snd_places (t : Tree α) : t.places.map Prod.snd = t.stackOrder := by
  induction t with
  | node a ts ih => rw [places, List.map_cons, map_snd_placesFrom ih, stackOrder_node]

/-! What a pairing visits. -/

theorem bind_subtree?_cons (other : Option (Tree β)) (i : Nat) (rest : List Nat) :
    (other.bind fun u => u.subtree? (i :: rest)) =
      (((other.map children).getD [])[i]?).bind fun u => u.subtree? rest := by
  cases other <;> rfl

theorem pairingAll_eq {ts : List (Tree α)}
    (each : ∀ t ∈ ts, ∀ depth (other : Option (Tree β)), t.pairing depth other =
      t.places.map fun place => (depth + place.1.length, place.2, other.bind (·.subtree? place.1)))
    (depth i : Nat) (other : Option (Tree β)) :
    pairingAll (depth + 1) ts (((other.map children).getD []).drop i) =
      (placesFrom i ts).map fun place =>
        (depth + place.1.length, place.2, other.bind (·.subtree? place.1)) := by
  induction ts generalizing i with
  | nil => rfl
  | cons t ts ih =>
    rw [pairingAll, placesFrom, List.map_append, List.map_map, each t List.mem_cons_self,
      List.head?_drop, List.tail_drop, ih fun u member => each u (List.mem_cons_of_mem t member)]
    congr 1
    apply List.map_congr_left
    intro place _
    simp only [Function.comp, Prod.map, id, List.length_cons, bind_subtree?_cons,
      Nat.add_right_comm depth 1, Nat.add_assoc]

/-- A walk visits the places in their order, each with what stands at its path in the other tree. -/
theorem pairing_eq (t : Tree α) (depth : Nat) (other : Option (Tree β)) :
    t.pairing depth other = t.places.map fun place =>
      (depth + place.1.length, place.2, other.bind (·.subtree? place.1)) := by
  induction t generalizing depth other with
  | node a ts ih =>
    have children := pairingAll_eq (fun t member => ih t member) depth 0 other
    rw [List.drop_zero] at children
    rw [pairing, places, List.map_cons, children]
    cases other <;> rfl

/-! Where the places lie. -/

structure Ascends (start stop : Nat) (numbers : List Nat) : Prop where
  pairwise : numbers.Pairwise (· < ·)
  within : ∀ n ∈ numbers, start ≤ n ∧ n < stop

theorem Ascends.append {start middle stop : Nat} {one two : List Nat}
    (first : Ascends start middle one) (second : Ascends middle stop two) (le : start ≤ middle)
    (le' : middle ≤ stop) : Ascends start stop (one ++ two) where
  pairwise := List.pairwise_append.mpr ⟨first.pairwise, second.pairwise, fun m mem n mem' =>
    Nat.lt_of_lt_of_le (first.within m mem).2 (second.within n mem').1⟩
  within n mem := by
    rcases List.mem_append.mp mem with mem | mem
    · exact ⟨(first.within n mem).1, Nat.lt_of_lt_of_le (first.within n mem).2 le'⟩
    · exact ⟨Nat.le_trans le (second.within n mem).1, (second.within n mem).2⟩

section Offsets

variable {own : Nat → α → Nat → List UInt8 → Prop} {offset : α → Nat}

theorem offset_label
    (starts : ∀ start a count segment, own start a count segment → offset a = start)
    {t : Tree α} {start : Nat} {bytes : List UInt8} (laid : Laid own start t bytes) :
    offset t.label = start := by
  cases t with
  | node a ts =>
    obtain ⟨head, rest, rfl, first, -⟩ := laid_node.mp laid
    exact starts _ _ _ _ first

theorem ascends_each {ts : List (Tree α)} {start : Nat} {bytes : List UInt8}
    (each : ∀ t ∈ ts, ∀ start bytes, Laid own start t bytes →
      Ascends start (start + bytes.length) (t.stackOrder.map (offset ·.label)))
    (laid : Layout.each (Laid own) start ts bytes) :
    Ascends start (start + bytes.length) ((ts.flatMap stackOrder).map (offset ·.label)) := by
  induction ts generalizing start bytes with
  | nil => exact ⟨.nil, nofun⟩
  | cons t ts ih =>
    obtain ⟨head, rest, rfl, first, others⟩ := laid
    have one := each t List.mem_cons_self _ _ first
    have two := ih (fun u member => each u (List.mem_cons_of_mem t member)) others
    rw [List.flatMap_cons, List.map_append, List.length_append, ← Nat.add_assoc]
    exact one.append two (Nat.le_add_right _ _) (Nat.le_add_right _ _)

theorem ascends_laid
    (starts : ∀ start a count segment, own start a count segment →
      offset a = start ∧ 0 < segment.length)
    {t : Tree α} {start : Nat} {bytes : List UInt8} (laid : Laid own start t bytes) :
    Ascends start (start + bytes.length) (t.stackOrder.map (offset ·.label)) := by
  induction t generalizing start bytes with
  | node a ts ih =>
    obtain ⟨head, rest, rfl, first, others⟩ := laid_node.mp laid
    obtain ⟨here, positive⟩ := starts _ _ _ _ first
    have root : Ascends start (start + head.length) [offset a] :=
      ⟨List.pairwise_singleton _ _, by simpa [here] using positive⟩
    have below := ascends_each (fun t member start bytes => ih t member) others
    rw [stackOrder_node, List.map_cons, List.length_append, ← Nat.add_assoc]
    exact root.append below (Nat.le_add_right _ _) (Nat.le_add_right _ _)

end Offsets

end RiteImage.Tree
