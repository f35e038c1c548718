import RiteImage.Proofs.Reread

/-! Readers behind other bytes.
Bytes in front of a buffer move every position by their number. A reader then does what
it did, and what it says of positions is moved as well: offsets of records, ends, and the
places that a failure names. Only an alignment could tell the difference, since it counts
from the start of the buffer, so there the bytes must be a multiple of it. -/
namespace RiteImage

variable {α β : Type}

/-! What is said of positions, behind so many more bytes. -/

def Defect.moved (distance : Nat) : Defect → Defect
  | .wrongMagic magic => .wrongMagic magic
  | .notText offset => .notText (distance + offset)
  | .badInteger text offset fault => .badInteger text (distance + offset) fault
  | .badFloat text offset fault => .badFloat text (distance + offset) fault
  | .sizeMismatch part offset declared contained =>
    .sizeMismatch part (distance + offset) declared contained
  | .sectionOverrun offset declared contentEnd =>
    .sectionOverrun (distance + offset) declared (distance + contentEnd)
  | .sectionTooSmall tag offset declared => .sectionTooSmall tag (distance + offset) declared

def Cause.moved (distance : Nat) : Cause → Cause
  | .wrongVersion found => .wrongVersion found
  | .wrongChecksum declared computed => .wrongChecksum declared computed
  | .unknownLineKind tag offset => .unknownLineKind tag (distance + offset)
  | .orphanLines offset => .orphanLines (distance + offset)
  | .truncated offset needed available => .truncated (distance + offset) needed available
  | .filenameOutOfRange index count offset => .filenameOutOfRange index count (distance + offset)
  | .malformed defect => .malformed (defect.moved distance)
  | .tooDeep limit => .tooDeep limit

def Event.moved (distance : Nat) : Event → Event
  | .header compiler version size => .header compiler version size
  | .irep offset opcodes literals symbols children =>
    .irep (distance + offset) opcodes literals symbols children
  | .unknownLiteral tag offset => .unknownLiteral tag (distance + offset)
  | .endMarker offset => .endMarker (distance + offset)
  | .irepSection offset records => .irepSection (distance + offset) records
  | .debugSection offset irepOffset => .debugSection (distance + offset) (distance + irepOffset)
  | .skippedSection tag offset size => .skippedSection tag (distance + offset) size

def Irep.moved (distance : Nat) (record : Irep) : Irep :=
  { record with offset := distance + record.offset }

def DebugRecord.moved (distance : Nat) (record : DebugRecord) : DebugRecord :=
  { record with offset := distance + record.offset }

def Outcome.moved (distance : Nat) (move : α → α) (o : Outcome α) : Outcome α :=
  ⟨(o.result.map move).mapError (Cause.moved distance), distance + o.position,
    o.events.map (Event.moved distance)⟩

namespace Tree

mutual

def map (f : α → β) : Tree α → Tree β
  | node a ts => node (f a) (mapAll f ts)

def mapAll (f : α → β) : List (Tree α) → List (Tree β)
  | [] => []
  | t :: ts => map f t :: mapAll f ts

end

theorem mapAll_eq (f : α → β) (ts : List (Tree α)) : mapAll f ts = ts.map (map f) := by
  induction ts with
  | nil => rfl
  | cons t ts ih => rw [mapAll, ih, List.map_cons]

section Lawful

variable {m : Type → Type} [Monad m] [LawfulMonad m] {γ : Type}

mutual

theorem map_mapM (h : β → γ) (f : α → m β) : (t : Tree α) →
    map h <$> t.mapM f = t.mapM fun a => h <$> f a
  | node a ts => by simp [mapM, ← map_mapAllM h f ts, map]

theorem map_mapAllM (h : β → γ) (f : α → m β) : (ts : List (Tree α)) →
    mapAll h <$> mapAllM f ts = mapAllM (fun a => h <$> f a) ts
  | [] => by simp [mapAllM, mapAll]
  | t :: ts => by simp [mapAllM, ← map_mapM h f t, ← map_mapAllM h f ts, mapAll]

end

end Lawful

end Tree

namespace Reader

variable {before : ByteArray} {move : α → α} {move' : β → β}

/-- Behind some bytes the second reader does what the first one does without them. -/
def Moves (before : ByteArray) (move : α → α) (r s : Reader α) : Prop :=
  ∀ bytes start, s (before ++ bytes) (before.size + start) =
    (r bytes start).moved before.size move

/-- A reader that does not ask where it is. -/
class Movable (before : ByteArray) (r : Reader α) : Prop where
  moves : Moves before id r r

theorem remaining_append (before bytes : ByteArray) (start : Nat) :
    remaining (before ++ bytes) (before.size + start) = remaining bytes start := by
  rw [remaining, remaining, ByteArray.size_append, Nat.add_sub_add_left]

theorem truncated_append (before bytes : ByteArray) (start needed : Nat) :
    (truncated (before ++ bytes) (before.size + start) needed : Outcome α) =
      (truncated bytes start needed).moved before.size move := by
  rw [truncated, remaining_append]
  rfl

theorem moves_pure (a : α) : Moves before move (pure a) (pure (move a)) := fun _ _ => rfl

theorem moves_fail (e : Cause) : Moves before move (fail e) (fail (e.moved before.size)) :=
  fun _ _ => rfl

theorem moves_log (e : Event) : Moves before id (log e) (log (e.moved before.size)) :=
  fun _ _ => rfl

theorem moves_position : Moves before (before.size + ·) position position := fun _ _ => rfl

theorem moves_require (condition : Bool) (e : Cause) :
    Moves before id (require condition e) (require condition (e.moved before.size)) := by
  cases condition with
  | false => exact moves_fail e
  | true => exact moves_pure ()

/-- The second part knows positions only through the value of the first one. -/
theorem Moves.bind {r r' : Reader α} {next next' : α → Reader β} (first : Moves before move r r')
    (rest : ∀ a, Moves before move' (next a) (next' (move a))) :
    Moves before move' (r >>= next) (r' >>= next') := by
  intro bytes start
  have one := first bytes start
  rcases run : r bytes start with ⟨e | a, middle, events⟩
  · rw [run] at one
    rw [bind_of_error one, bind_of_error run]
    rfl
  · rw [run] at one
    rw [bind_of_ok one, bind_of_ok run, rest]
    simp only [Outcome.moved, List.map_append]

theorem moves_kept : Kept (m := Reader) (n := Reader) fun _ r s => Moves before id r s where
  pure := moves_pure
  bind := Moves.bind

theorem moves_iff {r s : Reader α} : Moves before move r s ↔ Moves before id (move <$> r) s := by
  have run (bytes : ByteArray) (start : Nat) : ((move <$> r) bytes start).moved before.size id =
      (r bytes start).moved before.size move := by
    rw [map_eq_pure_bind]
    rcases run : r bytes start with ⟨e | a, stop, events⟩
    · rw [Reader.bind_of_error run]
      rfl
    · rw [Reader.bind_of_ok run]
      simp [Outcome.moved, Pure.pure, Reader.pure, Except.map]
  simp only [Moves, run]

theorem Moves.replicate {r s : Reader α} (entry : Moves before move r s) (count : Nat) :
    Moves before (List.map move) (replicate count r) (replicate count s) := by
  rw [moves_iff, replicate_eq, replicate_eq, map_replicateM]
  exact moves_kept.replicateM (moves_iff.mp entry) count

theorem Moves.mapM {γ : Type} {r s : Reader α} (each : Moves before move r s) (shape : Tree γ) :
    Moves before (Tree.map move) (shape.mapM fun _ => r) (shape.mapM fun _ => s) := by
  rw [moves_iff, Tree.map_mapM]
  exact moves_kept.mapM (fun _ => moves_iff.mp each) shape

instance (a : α) : Movable before (pure a) := ⟨moves_pure a⟩

instance (count : Nat) : Movable before (skip count) where
  moves bytes start := by
    rw [skip, skip, remaining_append]
    split
    · rw [Nat.add_assoc]
      rfl
    · exact truncated_append before bytes start count

instance (count : Nat) : Movable before (take count) where
  moves bytes start := by
    rw [take, take, remaining_append]
    split
    · rw [Nat.add_assoc, ByteArray.extract_append_size_add]
      rfl
    · exact truncated_append before bytes start count

instance (r : Reader α) (next : α → Reader β) [first : Movable before r]
    [rest : ∀ a, Movable before (next a)] : Movable before (r >>= next) :=
  ⟨first.moves.bind fun a => (rest a).moves⟩

instance (f : α → β) (r : Reader α) [Movable before r] : Movable before (f <$> r) :=
  inferInstanceAs (Movable before (r >>= fun a => pure (f a)))

instance (c : Prop) [Decidable c] (r s : Reader α) [Movable before r] [Movable before s] :
    Movable before (if c then r else s) := by
  split <;> assumption

instance (count : Nat) : Movable before (word count) := by unfold word; infer_instance

instance : Movable before u8 := by unfold u8; infer_instance

instance : Movable before u16 := by unfold u16; infer_instance

instance : Movable before u32 := by unfold u32; infer_instance

instance (count : Nat) (r : Reader α) [entry : Movable before r] :
    Movable before (replicate count r) :=
  ⟨by simpa using entry.moves.replicate count⟩

theorem moves_align {alignment : Nat} (positive : 0 < alignment)
    (aligned : alignment ∣ before.size) :
    Moves before id (align alignment positive) (align alignment positive) := by
  refine Moves.bind moves_position fun start => ?_
  have same : padding alignment positive (before.size + start) =
      padding alignment positive start := by
    obtain ⟨multiple, eq⟩ := aligned
    rw [padding, padding, eq, Nat.mul_add_mod]
  rw [same]
  exact Movable.moves

end Reader

open Reader

section Readers

variable {before : ByteArray}

theorem moves_checkSize (rules : Strictness) (part : Part) (start : Nat) (declared : UInt32) :
    Moves before id (checkSize rules part start declared)
      (checkSize rules part (before.size + start) declared) := by
  refine Moves.bind moves_position fun stop => ?_
  rw [Nat.add_sub_add_left]
  exact moves_require _ _

namespace Literal

theorem parseText_moved {parse : Nat → String → Except Defect Literal} {distance offset : Nat}
    (same : ∀ text,
      parse (distance + offset) text = (parse offset text).mapError (·.moved distance))
    (payload : ByteArray) : parseText (distance + offset) payload parse =
      (parseText offset payload parse).mapError (·.moved distance) := by
  unfold parseText
  split
  · exact same _
  · rfl

theorem parseInteger_moved (distance offset : Nat) (text : String) :
    parseInteger (distance + offset) text =
      (parseInteger offset text).mapError (·.moved distance) := by
  unfold parseInteger
  split <;> rfl

theorem parseFloat_moved (distance offset : Nat) (text : String) :
    parseFloat (distance + offset) text = (parseFloat offset text).mapError (·.moved distance) := by
  unfold parseFloat
  split <;> rfl

theorem ofPayload_moved (tag : UInt8) (distance offset : Nat) (payload : ByteArray) :
    ofPayload tag (distance + offset) payload =
      (ofPayload tag offset payload).mapError (·.moved distance) := by
  unfold ofPayload
  split
  · rfl
  · exact parseText_moved (parseInteger_moved distance offset) payload
  · exact parseText_moved (parseFloat_moved distance offset) payload
  · rfl

theorem moves_reportUnknown (tag : UInt8) (offset : Nat) :
    Moves before id (reportUnknown tag offset) (reportUnknown tag (before.size + offset)) := by
  unfold reportUnknown reportUnknownBy
  split
  · exact moves_log _
  · exact moves_pure ()

theorem moves_ofExcept (value : Except Defect Literal) :
    Moves before id (ofExcept value) (ofExcept (value.mapError (·.moved before.size))) := by
  cases value with
  | error defect => exact moves_fail (.malformed defect)
  | ok literal => exact moves_pure literal

instance : Movable before Literal.read where
  moves := by
    refine Movable.moves.bind fun tag => Movable.moves.bind fun length =>
      moves_position.bind fun offset => Movable.moves.bind fun payload =>
      (moves_reportUnknown tag offset).bind fun _ => ?_
    change Moves before id _ (ofExcept (ofPayload tag (before.size + offset) payload))
    rw [ofPayload_moved]
    exact moves_ofExcept _

end Literal

instance (length : UInt16) : Movable before (Symbol.readName length) := by
  unfold Symbol.readName Symbol.readNameBy; infer_instance

instance : Movable before Symbol.read := by unfold Symbol.read Symbol.readBy; infer_instance

instance (entry : Reader α) [Movable before entry] : Movable before (readTable entry) := by
  unfold readTable readTableBy; infer_instance

namespace Irep

theorem moves_read (rules : Strictness) (aligned : 4 ∣ before.size) :
    Moves before (Prod.map (moved before.size) id) (read rules) (read rules) := by
  refine moves_position.bind fun offset => Movable.moves.bind fun recordSize =>
    Movable.moves.bind fun localCount => Movable.moves.bind fun registerCount =>
    Movable.moves.bind fun childCount => Movable.moves.bind fun opcodeCount =>
    (moves_align (by decide) aligned).bind fun _ => Movable.moves.bind fun opcodes =>
    Movable.moves.bind fun pool => Movable.moves.bind fun symbols =>
    (moves_checkSize rules .irep offset recordSize).bind fun _ => (moves_log _).bind fun _ => ?_
  exact moves_pure _

theorem moves_readTree (rules : Strictness) (aligned : 4 ∣ before.size) (levels : Nat) :
    Moves before (Tree.map (moved before.size)) (readTree rules levels)
      (readTree rules levels) := by
  induction levels with
  | zero => exact moves_fail _
  | succ levels ih =>
    refine (moves_read rules aligned).bind fun found =>
      (ih.replicate found.2).bind fun children => ?_
    rw [← Tree.mapAll_eq]
    exact moves_pure (Tree.node found.1 children)

end Irep

namespace FileLines

instance : Movable before readEntry := by unfold readEntry readEntryBy; infer_instance

instance (count : Nat) (kind : LineKind) : Movable before (readLines count kind) := by
  cases kind <;> (unfold readLines readLinesBy; infer_instance)

theorem moves_resolve (filenames : List String) (index : UInt16) (offset : Nat) :
    Moves before id (resolve filenames index offset)
      (resolve filenames index (before.size + offset)) := by
  unfold resolve resolveBy
  split
  · exact moves_pure _
  · exact moves_fail _

theorem moves_encodingOf (tag : UInt8) (offset : Nat) :
    Moves before id (encodingOf tag offset) (encodingOf tag (before.size + offset)) := by
  unfold encodingOf encodingOfBy
  split
  · exact moves_pure _
  · exact moves_fail _

instance : Movable before readEncoding where
  moves := moves_position.bind fun offset => Movable.moves.bind fun tag =>
    moves_encodingOf tag offset

instance (filenames : List String) : Movable before (read filenames) where
  moves := Movable.moves.bind fun _ => moves_position.bind fun offset =>
    Movable.moves.bind fun index => (moves_resolve filenames index offset).bind fun _ =>
    Movable.moves

end FileLines

theorem DebugRecord.moves_read (rules : Strictness) (filenames : List String) :
    Moves before (moved before.size) (read rules filenames) (read rules filenames) := by
  refine moves_position.bind fun offset => Movable.moves.bind fun recordSize =>
    Movable.moves.bind fun fileCount => Movable.moves.bind fun files =>
    (moves_checkSize rules .debugRecord offset recordSize).bind fun _ => ?_
  exact moves_pure _

end Readers

/-- Behind other bytes a tree is read as it was, with every offset, the end and the place of a
failure moved by their number. Instruction records are aligned to four, so for them the number is a
multiple of four. Line tables are not aligned, and know nothing of the instruction records but
their shape, so behind any bytes and along any tree of that shape they are the same. -/
theorem Tree.readers_moved (rules : Strictness) (before bytes : ByteArray) (start : Nat) :
    (4 ∣ before.size → ∀ depth,
      Irep.readAtDepth rules depth (before ++ bytes) (before.size + start) =
        (Irep.readAtDepth rules depth bytes start).moved before.size
          (Tree.map (Irep.moved before.size))) ∧
    ∀ (filenames : List String) (shape : Tree α) (other : Tree β), shape.SameShape other →
      DebugRecord.readTree rules filenames other (before ++ bytes) (before.size + start) =
        (DebugRecord.readTree rules filenames shape bytes start).moved before.size
          (Tree.map (DebugRecord.moved before.size)) := by
  constructor
  · intro aligned depth
    exact Irep.moves_readTree rules aligned (Irep.levelsBelow rules depth) bytes start
  · intro filenames shape other same
    rw [DebugRecord.readTree, DebugRecord.readTreeBy, ← Tree.mapM_eq_of_sameShape same]
    exact (DebugRecord.moves_read rules filenames).mapM shape bytes start

/-- Four bytes before nested records, and one before line tables that name a file too many. -/
theorem Tree.readers_moved_nested :
    4 ∣ (ByteArray.mk #[1, 2, 3, 4]).size ∧
      Reads (Irep.readAtDepth .lenient 0) (⟨#[1, 2, 3, 4]⟩ ++ Irep.nestedBytes) 5
        (.node ⟨5, 9, 1, 2, [7], [.string ⟨#[0x68]⟩], [""]⟩
          [.node ⟨38, 22, 3, 4, [], [], []⟩ []]) 60 ∧
      SameShape (Tree.node () [.node () []]) Irep.nestedTree ∧
      (DebugRecord.readTree .strict ["a"] Irep.nestedTree (⟨#[9]⟩ ++ DebugRecord.nestedBytes)
        1).result = .error (.filenameOutOfRange 1 1 30) := by
  have aligned : 4 ∣ (ByteArray.mk #[1, 2, 3, 4]).size := ⟨1, rfl⟩
  have same : SameShape (Tree.node () [.node () []]) Irep.nestedTree :=
    sameShape_node.mpr (.cons (sameShape_node.mpr .nil) .nil)
  have records :
      Irep.readAtDepth .lenient 0 (⟨#[1, 2, 3, 4]⟩ ++ Irep.nestedBytes) 5 = _ :=
    (@readers_moved Unit Unit .lenient ⟨#[1, 2, 3, 4]⟩ Irep.nestedBytes 1).1 aligned 0
  have lines : DebugRecord.readTree .strict ["a"] Irep.nestedTree
      (⟨#[9]⟩ ++ DebugRecord.nestedBytes) 1 = _ :=
    (readers_moved .strict ⟨#[9]⟩ DebugRecord.nestedBytes 0).2 ["a"] _ _ same
  refine ⟨aligned, ?_, same, ?_⟩
  · rw [Reads, records]
    exact ⟨rfl, rfl⟩
  · rw [lines]
    rfl

end RiteImage
