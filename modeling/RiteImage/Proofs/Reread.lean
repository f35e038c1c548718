import RiteImage.Proofs.DebugLayout
import RiteImage.Proofs.TreePlaces

/-! Records that are read again, apart from the tree they came with.
The bytes of a subtree are part of those of the tree, and so are its places. What follows its
places in pre-order begins where its bytes end. So a reader that is sent to the offset of a
record knows nothing of the records around it and needs to know nothing of them. -/
namespace RiteImage

open Reader

namespace Tree

variable {α β : Type} {own : Nat → α → Nat → List UInt8 → Prop} {offset : α → Nat}

def nextOffset (offset : α → Nat) (stop : Nat) : List (List Nat × Tree α) → Nat
  | [] => stop
  | place :: _ => offset place.2.label

theorem nextOffset_append {stop : Nat} {one two : List (List Nat × Tree α)} :
    nextOffset offset stop (one ++ two) = nextOffset offset (nextOffset offset stop two) one := by
  cases one <;> simp [nextOffset]

theorem nextOffset_map {stop : Nat} {places : List (List Nat × Tree α)}
    (f : List Nat → List Nat) :
    nextOffset offset stop (places.map (Prod.map f id)) = nextOffset offset stop places := by
  cases places <;> simp [nextOffset]

/-- From the offset of a subtree a reader yields it, and stops where the first place behind its own
begins, or at `stop` if there is none. -/
def ReadsAlone (t : Tree α) (offset : α → Nat) (r : Reader (Tree α)) (bytes : ByteArray)
    (path : List Nat) (s : Tree α) (stop : Nat) : Prop :=
  ∃ before after, t.places = before ++ s.places.map (Prod.map (path ++ ·) id) ++ after ∧
    (runAt r bytes (offset s.label)).result = .ok s ∧
    (runAt r bytes (offset s.label)).position = nextOffset offset stop after

/-- A tree at a path among some places and in their bytes, `front` bytes behind their start. -/
structure Part (own : Nat → α → Nat → List UInt8 → Prop) (offset : α → Nat) (start : Nat)
    (bytes : List UInt8) (places : List (List Nat × Tree α)) (path : List Nat) (s : Tree α)
    (front segment : List UInt8) (after : List (List Nat × Tree α)) : Prop where
  bytes_eq : ∃ back, bytes = front ++ segment ++ back
  laid : Laid own (start + front.length) s segment
  places_eq : ∃ before, places = before ++ s.places.map (Prod.map (path ++ ·) id) ++ after
  next_eq : nextOffset offset (start + bytes.length) after =
    start + front.length + segment.length

namespace Part

variable {start : Nat} {bytes front segment front' segment' head : List UInt8}
  {places after after' : List (List Nat × Tree α)} {path path' : List Nat} {s t : Tree α}

theorem self (laid : Laid own start t bytes) :
    Part own offset start bytes t.places [] t [] bytes [] where
  bytes_eq := ⟨[], by simp⟩
  laid := laid
  places_eq := by
    have same : t.places.map (Prod.map ([] ++ ·) id) = t.places := List.map_id _
    exact ⟨[], by rw [same, List.nil_append, List.append_nil]⟩
  next_eq := by simp [nextOffset]

theorem behind
    (part : Part own offset (start + head.length) bytes places path s front segment after)
    (before : List (List Nat × Tree α)) :
    Part own offset start (head ++ bytes) (before ++ places) path s (head ++ front) segment
      after where
  bytes_eq := by
    obtain ⟨back, rfl⟩ := part.bytes_eq
    exact ⟨back, by simp⟩
  laid := by simpa [Nat.add_assoc] using part.laid
  places_eq := by
    obtain ⟨others, rfl⟩ := part.places_eq
    exact ⟨before ++ others, by simp⟩
  next_eq := by simpa [Nat.add_assoc] using part.next_eq

theorem trans (outer : Part own offset start bytes places path t front segment after)
    (inner : Part own offset (start + front.length) segment t.places path' s front' segment'
      after') :
    Part own offset start bytes places (path ++ path') s (front ++ front') segment'
      (after'.map (Prod.map (path ++ ·) id) ++ after) where
  bytes_eq := by
    obtain ⟨back, rfl⟩ := outer.bytes_eq
    obtain ⟨back', rfl⟩ := inner.bytes_eq
    exact ⟨back' ++ back, by simp⟩
  laid := by simpa [Nat.add_assoc] using inner.laid
  places_eq := by
    obtain ⟨before, rfl⟩ := outer.places_eq
    obtain ⟨before', whole⟩ := inner.places_eq
    exact ⟨before ++ before'.map (Prod.map (path ++ ·) id), by simp [whole, Prod.map_comp_map]⟩
  next_eq := by
    rw [nextOffset_append, nextOffset_map, outer.next_eq, inner.next_eq]
    simp [Nat.add_assoc]

end Part

section Starts

variable (starts : ∀ start a count segment, own start a count segment → offset a = start)

include starts

theorem nextOffset_placesFrom {ts : List (Tree α)} {i start : Nat} {bytes : List UInt8}
    (laid : Layout.each (Laid own) start ts bytes) :
    nextOffset offset (start + bytes.length) (placesFrom i ts) = start := by
  cases ts with
  | nil =>
    obtain rfl : bytes = [] := laid
    rfl
  | cons t ts =>
    obtain ⟨head, rest, rfl, first, -⟩ := laid
    have here := offset_label starts first
    cases t
    exact here

theorem part_child {ts : List (Tree α)} {i k start : Nat} {bytes : List UInt8} {child : Tree α}
    (found : ts[k]? = some child) (laid : Layout.each (Laid own) start ts bytes) :
    ∃ front segment after,
      Part own offset start bytes (placesFrom i ts) [i + k] child front segment after := by
  induction ts generalizing i k start bytes with
  | nil => cases found
  | cons t ts ih =>
    obtain ⟨head, rest, rfl, first, others⟩ := laid
    cases k with
    | zero =>
      cases found
      have next := nextOffset_placesFrom (i := i + 1) starts others
      exact ⟨[], head, placesFrom (i + 1) ts, ⟨rest, by simp⟩, first,
        ⟨[], by simp [placesFrom]⟩, by simpa [Nat.add_assoc] using next⟩
    | succ k =>
      obtain ⟨front, segment, after, part⟩ := ih (i := i + 1) found others
      rw [Nat.add_assoc, Nat.add_comm 1] at part
      exact ⟨head ++ front, segment, after, part.behind _⟩

theorem part_subtree {path : List Nat} {t s : Tree α} (found : t.subtree? path = some s)
    {start : Nat} {bytes : List UInt8} (laid : Laid own start t bytes) :
    ∃ front segment after, Part own offset start bytes t.places path s front segment after := by
  induction path generalizing t start bytes with
  | nil =>
    cases found
    exact ⟨[], bytes, [], .self laid⟩
  | cons i path ih =>
    cases t with
    | node a ts =>
      obtain ⟨child, at_i, found⟩ := Option.bind_eq_some_iff.mp found
      obtain ⟨head, rest, rfl, -, others⟩ := laid_node.mp laid
      -- The child is a part of the node, and by induction the subtree is a part of the child.
      obtain ⟨front, segment, after, children⟩ := part_child (i := 0) starts at_i others
      have outer := children.behind [([], node a ts)]
      obtain ⟨front', segment', after', inner⟩ := ih found outer.laid
      have part := outer.trans inner
      rw [Nat.zero_add] at part
      exact ⟨_, _, _, part⟩

/-- A reader that accepts the trees so laid needs nothing but the bytes of the part. -/
theorem Part.readsAlone {r : Reader (Tree α)} {holds : Tree α → Prop}
    (accepts : Accepts r fun start t bytes => Laid own start t bytes ∧ holds t)
    {bytes : ByteArray} {start : Nat} {whole front segment : List UInt8} {t s : Tree α}
    {path : List Nat} {after : List (List Nat × Tree α)}
    (part : Part own offset start whole t.places path s front segment after)
    (stands : Stands bytes start whole) (held : holds s) :
    t.ReadsAlone offset r bytes path s (start + whole.length) := by
  obtain ⟨before, places⟩ := part.places_eq
  obtain ⟨back, whole_eq⟩ := part.bytes_eq
  rw [whole_eq, List.append_assoc, Stands.append_iff, Stands.append_iff] at stands
  obtain ⟨-, stands, -⟩ := stands
  have read := accepts.reads_of_stands stands ⟨part.laid, held⟩
  have inside : start + front.length ≤ bytes.size :=
    Nat.le_trans (Nat.le_add_right _ _) stands.le_size
  rw [← part.next_eq] at read
  rw [← offset_label starts part.laid] at read inside
  exact ⟨before, after, places, reads_runAt.mpr ⟨inside, read⟩⟩

end Starts

/-! What a subtree has from its tree. -/

theorem subtree?_append {t : Tree α} {path rest : List Nat} :
    t.subtree? (path ++ rest) = (t.subtree? path).bind fun s => s.subtree? rest := by
  induction path generalizing t with
  | nil => rfl
  | cons i path ih => simp [subtree?, ih, Option.bind_assoc]

theorem Every.subtree {holds : α → Prop} {t s : Tree α} {path : List Nat} (every : Every holds t)
    (found : t.subtree? path = some s) : Every holds s := by
  intro rest u there
  apply every (path ++ rest)
  rwa [subtree?_append, found]

theorem SameShape.subtree {t : Tree α} {u s : Tree β} {path : List Nat} (same : SameShape t u)
    (found : u.subtree? path = some s) : ∃ v, t.subtree? path = some v ∧ SameShape v s := by
  have here := same path
  rw [found] at here
  obtain ⟨v, found', -⟩ := Option.map_eq_some_iff.mp here
  refine ⟨v, found', fun rest => ?_⟩
  have below := same (path ++ rest)
  rwa [subtree?_append, subtree?_append, found, found'] at below

theorem height_subtree_le {t s : Tree α} {path : List Nat} (found : t.subtree? path = some s) :
    s.height ≤ t.height := by
  induction path generalizing t with
  | nil =>
    cases found
    exact Nat.le_refl _
  | cons i path ih =>
    cases t with
    | node a ts =>
      obtain ⟨child, at_i, found⟩ := Option.bind_eq_some_iff.mp found
      have lower := heightAll_le_iff.mp (Nat.le_refl (heightAll ts)) child
        (List.mem_of_getElem? at_i)
      exact Nat.le_trans (ih found) (Nat.le_of_lt lower)

end Tree

theorem Irep.readsAlone {rules : Strictness} {levels start : Nat} {bytes : ByteArray}
    {tree : Tree Irep} {stop : Nat} (inside : start ≤ bytes.size)
    (read : Reads (readTree rules levels) bytes start tree stop) {path : List Nat} {s : Tree Irep}
    (found : tree.subtree? path = some s) :
    tree.ReadsAlone offset (readTree rules levels) bytes path s stop := by
  have accepts := accepts_readTree rules levels
  obtain ⟨segment, stands, ⟨laid, low⟩, rfl⟩ := (accepts _ _ _ _ inside).mp read
  have starts (start : Nat) (record : Irep) (count : Nat) (segment : List UInt8)
      (own : WrittenUnder rules start record count segment) : record.offset = start :=
    own.1.offset_eq
  obtain ⟨front, segment, after, part⟩ := Tree.part_subtree starts found laid
  exact part.readsAlone starts accepts stands
    (Nat.lt_of_le_of_lt (Tree.height_subtree_le found) low)

theorem DebugRecord.readsAlone {α : Type} {rules : Strictness} {filenames : List String}
    {shape : Tree α} {bytes : ByteArray} {start stop : Nat} {tree : Tree DebugRecord}
    (inside : start ≤ bytes.size)
    (read : Reads (readTree rules filenames shape) bytes start tree stop) {path : List Nat}
    {s : Tree DebugRecord} (found : tree.subtree? path = some s) :
    ∃ along, shape.subtree? path = some along ∧
      tree.ReadsAlone offset (readTree rules filenames along) bytes path s stop := by
  obtain ⟨segment, stands, ⟨same, laid, every⟩, rfl⟩ :=
    (accepts_readTree rules filenames shape _ _ _ _ inside).mp read
  obtain ⟨along, found', same⟩ := same.subtree found
  have starts (start : Nat) (record : DebugRecord) (_ : Nat) (segment : List UInt8)
      (own : Written start record segment) : record.offset = start :=
    own.offset_eq
  obtain ⟨front, segment, after, part⟩ := Tree.part_subtree starts found laid
  have accepts := (accepts_readTree rules filenames along).congr fun _ _ _ => and_left_comm
  exact ⟨along, found', part.readsAlone starts accepts stands ⟨same, every.subtree found⟩⟩

/-- Every record of a tree that was read is read again from its own offset, with all that is below
it: an instruction record under the same limit of depth, as if it were a root, and a record of line
tables along what stands at its path in the instruction tree. -/
theorem Tree.reads_again {α : Type} (rules : Strictness) (bytes : ByteArray) (start : Nat) :
    (∀ tree, (runAt (Irep.readAtDepth rules 0) bytes start).result = .ok tree →
      ∀ path s, tree.subtree? path = some s →
        tree.ReadsAlone Irep.offset (Irep.readAtDepth rules 0) bytes path s
          (runAt (Irep.readAtDepth rules 0) bytes start).position) ∧
    ∀ (filenames : List String) (shape : Tree α) (tree : Tree DebugRecord),
      (runAt (DebugRecord.readTree rules filenames shape) bytes start).result = .ok tree →
      ∀ path s, tree.subtree? path = some s → ∃ along, shape.subtree? path = some along ∧
        tree.ReadsAlone DebugRecord.offset (DebugRecord.readTree rules filenames along) bytes path s
          (runAt (DebugRecord.readTree rules filenames shape) bytes start).position := by
  constructor
  · intro tree ok path s found
    obtain ⟨inside, read⟩ := reads_runAt.mp ⟨ok, rfl⟩
    exact Irep.readsAlone inside read found
  · intro filenames shape tree ok path s found
    obtain ⟨inside, read⟩ := reads_runAt.mp ⟨ok, rfl⟩
    exact DebugRecord.readsAlone inside read found

/-- The only child of each nested tree. The instruction records begin at an odd position. -/
theorem Tree.reads_again_nested :
    Irep.nestedTree.ReadsAlone Irep.offset (Irep.readAtDepth .lenient 0) Irep.nestedBytes [0]
      (.node ⟨34, 22, 3, 4, [], [], []⟩ []) 56 ∧
    ∃ along, (Tree.node () [.node () []]).subtree? [0] = some along ∧
      DebugRecord.nestedTree.ReadsAlone DebugRecord.offset
        (DebugRecord.readTree .strict ["a", "b"] along) DebugRecord.nestedBytes [0]
        (.node ⟨19, 23, [⟨2, 1, "b", .map #[⟨2, 7⟩]⟩]⟩ []) 42 :=
  ⟨(reads_again (α := Unit) .lenient Irep.nestedBytes 1).1 Irep.nestedTree rfl [0] _ rfl,
    (reads_again .strict DebugRecord.nestedBytes 0).2 ["a", "b"] (.node () [.node () []])
      DebugRecord.nestedTree rfl [0] _ rfl⟩

end RiteImage
