import RiteImage.Proofs.Layout

namespace RiteImage.Tree

variable {α β : Type}

@[elab_as_elim, induction_eliminator]
theorem induction {motive : Tree α → Prop}
    (node : ∀ a ts, (∀ t ∈ ts, motive t) → motive (.node a ts)) (t : Tree α) : motive t :=
  t.rec (motive_2 := fun ts => ∀ t ∈ ts, motive t) node (fun _ h => nomatch h)
    (fun _ _ first others => List.forall_mem_cons.mpr ⟨first, others⟩)

mutual

/-- The own bytes of a node, which may tell the number of its children, and then these. -/
def Laid (own : Nat → α → Nat → List UInt8 → Prop) : Layout (Tree α)
  | start, node a ts, bytes =>
    ∃ head rest, bytes = head ++ rest ∧ own start a ts.length head ∧
      LaidAll own (start + head.length) ts rest

def LaidAll (own : Nat → α → Nat → List UInt8 → Prop) : Layout (List (Tree α))
  | _, [], bytes => bytes = []
  | start, t :: ts, bytes =>
    ∃ head rest, bytes = head ++ rest ∧ Laid own start t head ∧
      LaidAll own (start + head.length) ts rest

end

variable {own other : Nat → α → Nat → List UInt8 → Prop}

theorem laidAll_eq (own : Nat → α → Nat → List UInt8 → Prop) :
    LaidAll own = Layout.each (Laid own) := by
  funext start ts bytes
  induction ts generalizing start bytes with
  | nil => rfl
  | cons t ts ih => simp only [LaidAll, Layout.each, ih]

theorem laid_node {start : Nat} {a : α} {ts : List (Tree α)} {bytes : List UInt8} :
    Laid own start (node a ts) bytes ↔
      ∃ head rest, bytes = head ++ rest ∧ own start a ts.length head ∧
        Layout.each (Laid own) (start + head.length) ts rest := by
  rw [Laid, laidAll_eq]

theorem laid_congr
    (same : ∀ start a count bytes, own start a count bytes ↔ other start a count bytes)
    (t : Tree α) (start : Nat) (bytes : List UInt8) :
    Laid own start t bytes ↔ Laid other start t bytes := by
  induction t generalizing start bytes with
  | node a ts ih => simp only [laid_node, same, Layout.each_congr ih]

theorem heightAll_le_iff {ts : List (Tree α)} {limit : Nat} :
    heightAll ts ≤ limit ↔ ∀ t ∈ ts, height t < limit := by
  induction ts with
  | nil => simp [heightAll]
  | cons t ts ih => simp only [heightAll, Nat.max_le, ih, List.forall_mem_cons, Nat.succ_le_iff]

theorem size_le_sizeAll {ts : List (Tree α)} {t : Tree α} (mem : t ∈ ts) :
    size t ≤ sizeAll ts := by
  induction mem with
  | head rest => exact Nat.le_add_right ..
  | tail u mem ih => exact Nat.le_trans ih (Nat.le_add_left ..)

theorem height_lt_size (t : Tree α) : t.height < t.size := by
  induction t with
  | node a ts ih =>
    have below : heightAll ts ≤ sizeAll ts :=
      heightAll_le_iff.mpr fun t mem => Nat.lt_of_lt_of_le (ih t mem) (size_le_sizeAll mem)
    rw [height, size]
    omega

end RiteImage.Tree
