import RiteImage.Proofs.TreeLayout

namespace RiteImage.Tree

variable {α β γ : Type}

def subtree? : Tree α → List Nat → Option (Tree α)
  | t, [] => some t
  | t, i :: path => t.children[i]?.bind fun child => child.subtree? path

def SameShape (t : Tree α) (u : Tree β) : Prop :=
  ∀ path, (t.subtree? path).map (fun s => s.children.length) =
    (u.subtree? path).map (fun s => s.children.length)

def Every (holds : α → Prop) (t : Tree α) : Prop :=
  ∀ path s, t.subtree? path = some s → holds s.label

/-- A condition on the labels and the numbers of children, at the end of every path. -/
def EveryNode (holds : α → Nat → Prop) (t : Tree α) : Prop :=
  ∀ path s, t.subtree? path = some s → holds s.label s.children.length

theorem subtree?_cons {a : α} {ts : List (Tree α)} {i : Nat} {path : List Nat} :
    (node a ts).subtree? (i :: path) = ts[i]?.bind fun child => child.subtree? path := rfl

theorem sameShape_node {a : α} {b : β} {ts : List (Tree α)} {us : List (Tree β)} :
    SameShape (node a ts) (node b us) ↔ List.Forall₂ SameShape ts us := by
  simp only [List.forall₂_iff_get, List.get_eq_getElem]
  constructor
  · intro same
    have length : ts.length = us.length := Option.some.inj (same [])
    refine ⟨length, fun i h h' path => ?_⟩
    have below := same (i :: path)
    rwa [subtree?_cons, subtree?_cons, List.getElem?_eq_getElem h, List.getElem?_eq_getElem h']
      at below
  · rintro ⟨length, same⟩ path
    cases path with
    | nil => exact congrArg some length
    | cons i path =>
      rw [subtree?_cons, subtree?_cons]
      by_cases h : i < ts.length
      · have h' : i < us.length := length ▸ h
        rw [List.getElem?_eq_getElem h, List.getElem?_eq_getElem h']
        exact same i h h' path
      · have h' : ¬ i < us.length := length ▸ h
        rw [List.getElem?_eq_none (Nat.le_of_not_lt h), List.getElem?_eq_none (Nat.le_of_not_lt h')]
        rfl

theorem Every.everyNode {holds : α → Prop} {t : Tree α} (every : Every holds t) :
    EveryNode (fun a _ => holds a) t := every

theorem SameShape.symm {t : Tree α} {u : Tree β} (same : SameShape t u) : SameShape u t :=
  fun path => (same path).symm

theorem SameShape.trans {t : Tree α} {u : Tree β} {v : Tree γ} (one : SameShape t u)
    (two : SameShape u v) : SameShape t v :=
  fun path => (one path).trans (two path)

theorem height_eq_of_sameShape {t : Tree α} {u : Tree β} (same : SameShape t u) :
    t.height = u.height := by
  induction t generalizing u with
  | node a ts ih =>
    cases u with
    | node b us =>
      have pairs := sameShape_node.mp same
      -- The induction is on the pairs alone, so nothing may tie them to the two nodes.
      clear same
      rw [height, height]
      induction pairs with
      | nil => rfl
      | cons one _ others =>
        rw [heightAll, heightAll, ih _ List.mem_cons_self one,
          others fun t member => ih t (List.mem_cons_of_mem _ member)]

theorem everyNode_node {holds : α → Nat → Prop} {a : α} {ts : List (Tree α)} :
    EveryNode holds (node a ts) ↔ holds a ts.length ∧ ∀ t ∈ ts, EveryNode holds t := by
  constructor
  · intro every
    refine ⟨every [] _ rfl, fun t member path s found => ?_⟩
    obtain ⟨i, h, rfl⟩ := List.getElem_of_mem member
    apply every (i :: path) s
    rwa [subtree?_cons, List.getElem?_eq_getElem h]
  · rintro ⟨root, below⟩ path s found
    cases path with
    | nil =>
      cases found
      exact root
    | cons i path =>
      obtain ⟨t, at_i, found⟩ := Option.bind_eq_some_iff.mp found
      exact below t (List.mem_of_getElem? at_i) path s found

theorem every_node {holds : α → Prop} {a : α} {ts : List (Tree α)} :
    Every holds (node a ts) ↔ holds a ∧ ∀ t ∈ ts, Every holds t :=
  @everyNode_node α (fun a _ => holds a) a ts

theorem laid_and {own : Nat → α → Nat → List UInt8 → Prop} {holds : α → Prop} {start : Nat}
    {t : Tree α} {bytes : List UInt8} :
    Laid (fun start a count bytes => own start a count bytes ∧ holds a) start t bytes ↔
      Laid own start t bytes ∧ Every holds t := by
  induction t generalizing start bytes with
  | node a ts ih =>
    simp only [laid_node, every_node]
    have below (start : Nat) (bytes : List UInt8) :=
      (Layout.each_congr (fun t member start bytes => @ih t member start bytes) start bytes).trans
        Layout.each_and
    simp only [below]
    constructor
    · intro given
      obtain ⟨head, rest, whole, ⟨first, h⟩, others, hs⟩ := given
      exact ⟨⟨head, rest, whole, first, others⟩, h, hs⟩
    · intro given
      obtain ⟨⟨head, rest, whole, first, others⟩, h, hs⟩ := given
      exact ⟨head, rest, whole, ⟨first, h⟩, others, hs⟩

open Reader

theorem accepts_mapAllM {r : Reader γ} {layout : Layout γ} {shapes : List (Tree α)}
    (each : ∀ t ∈ shapes, Accepts (t.mapM fun _ => r) fun start u bytes =>
      SameShape t u ∧ Laid (fun start c _ => layout start c) start u bytes) :
    Accepts (mapAllM (fun _ => r) shapes) fun start us bytes =>
      List.Forall₂ SameShape shapes us ∧
        Layout.each (Laid fun start c _ => layout start c) start us bytes := by
  induction shapes with
  | nil =>
    rw [mapAllM]
    refine Accepts.congr (accepts_pure []) fun start us bytes => ?_
    rw [List.forall₂_nil_left_iff]
    constructor
    · intro h
      obtain ⟨rfl, rfl⟩ := h
      exact ⟨rfl, rfl⟩
    · intro h
      obtain ⟨rfl, written⟩ := h
      exact ⟨rfl, written⟩
  | cons t shapes ih =>
    have others := ih fun u member => each u (List.mem_cons_of_mem t member)
    rw [mapAllM]
    refine Accepts.congr (accepts_bind (each t List.mem_cons_self) fun u =>
      accepts_bind_end others fun us => accepts_pure _) fun start us bytes => ?_
    rw [List.forall₂_cons_left_iff]
    constructor
    · intro h
      obtain ⟨u, head, rest, rfl, ⟨same, laid⟩, us, ⟨all, written⟩, rfl⟩ := h
      exact ⟨⟨u, us, same, all, rfl⟩, head, rest, rfl, laid, written⟩
    · intro h
      obtain ⟨⟨u, us, same, all, rfl⟩, head, rest, rfl, laid, written⟩ := h
      exact ⟨u, head, rest, rfl, ⟨same, laid⟩, us, ⟨all, written⟩, rfl⟩

/-- Reading along a tree accepts the trees of its shape. -/
theorem accepts_mapM {r : Reader γ} {layout : Layout γ} (h : Accepts r layout) (shape : Tree α) :
    Accepts (shape.mapM fun _ => r) fun start u bytes =>
      SameShape shape u ∧ Laid (fun start c _ => layout start c) start u bytes := by
  induction shape with
  | node a shapes ih =>
    rw [mapM]
    refine Accepts.congr (accepts_bind h fun c => accepts_bind_end (accepts_mapAllM ih) fun us =>
      accepts_pure _) fun start u bytes => ?_
    cases u with
    | node c us =>
      rw [sameShape_node, laid_node]
      constructor
      · intro h
        obtain ⟨_, head, rest, rfl, own, _, ⟨all, written⟩, same⟩ := h
        cases same
        exact ⟨all, head, rest, rfl, own, written⟩
      · intro h
        obtain ⟨all, head, rest, rfl, own, written⟩ := h
        exact ⟨c, head, rest, rfl, own, us, ⟨all, written⟩, rfl⟩

theorem mapM_eq_of_sameShape {r : Reader γ} {t : Tree α} {u : Tree β} (same : SameShape t u) :
    (t.mapM fun _ => r) = u.mapM fun _ => r := by
  induction t generalizing u with
  | node a ts ih =>
    cases u with
    | node b us =>
      have all : mapAllM (fun _ => r) ts = mapAllM (fun _ => r) us := by
        have pairs := sameShape_node.mp same
        clear same
        induction pairs with
        | nil => rfl
        | cons one _ others =>
          rw [mapAllM, mapAllM, ih _ List.mem_cons_self one,
            others fun t member => ih t (List.mem_cons_of_mem _ member)]
      rw [mapM, mapM, all]

end RiteImage.Tree
