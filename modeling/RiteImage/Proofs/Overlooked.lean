import RiteImage.Proofs.Extent
import RiteImage.Proofs.Tiling

/-! Positions that are not looked at.
What a part of a buffer says is often settled by some of its bytes, and any others may
stand at the remaining positions. This holds of a fill and of the byte behind a name,
and from there it is carried through tables, records, trees and sections. -/
namespace RiteImage

open Reader

/-- The byte behind the name that stands at a place, if that is not a length alone. -/
def Symbol.Terminates (bytes : ByteArray) (place i : Nat) : Prop :=
  shortAt bytes place ≠ 0xFFFF ∧ i = place + 2 + shortAt bytes place

def Symbol.TerminatesOne (bytes : ByteArray) (start : Nat) (symbols : List String) (i : Nat) :
    Prop :=
  ∃ place ∈ entryPlaces (lengthAt bytes) symbols.length start, Terminates bytes place i

inductive Irep.Ignores (bytes : ByteArray) (record : Irep) (i : Nat) : Prop
  | fill (behind : record.headEnd ≤ i) (before : i < record.opcodesStart)
  | terminator (ends : Symbol.TerminatesOne bytes (record.symbolsStart bytes) record.symbols i)

def Tree.Any {α : Type} (holds : α → Prop) (t : Tree α) : Prop :=
  ∃ path s, t.subtree? path = some s ∧ holds s.label

namespace Section

/-- Positions of a section at which any byte may stand: all of a body that is skipped, those that
a record ignores, and those behind the content. -/
def Ignores (bytes : ByteArray) (i : Nat) : Section → Prop
  | .irep s => s.root.Any (Irep.Ignores bytes · i) ∨
      (s.contentEnd bytes ≤ i ∧ i < s.offset + s.size.toNat)
  | .debug s => s.contentEnd ≤ i ∧ i < s.offset + s.size.toNat
  | .skipped s => s.offset + headerSize ≤ i ∧ i < s.stop

/-- What is not looked at while sections are read: what lies before them, what they ignore, and
all from the last four bytes of the end marker on. -/
inductive Overlooked (bytes : ByteArray) (start : Nat) (sections : List Section) (stop i : Nat) :
    Prop
  | before (lt : i < start)
  | ignored {s : Section} (mem : s ∈ sections) (here : s.Ignores bytes i)
  | behind (le : stop ≤ i + 4)

end Section

/-! Parts of a buffer, whatever stands at ignored positions. -/

/-- From `start` on some bytes are as they must be, whatever stands at ignored positions of them. -/
structure Overlooks (bytes : ByteArray) (start : Nat) (written : List UInt8 → Prop) (length : Nat)
    (ignored : Nat → Prop) : Prop where
  within : ∀ {i}, ignored i → start ≤ i ∧ i < start + length
  elsewhere : ∀ {other : ByteArray}, other.size = bytes.size →
    (∀ i, start ≤ i → i < start + length → ¬ ignored i → other[i]? = bytes[i]?) →
    ∃ segment, segment.length = length ∧ written segment ∧ Stands other start segment

theorem Stands.of_getElem? {bytes other : ByteArray} {start : Nat} {segment : List UInt8}
    (stands : Stands bytes start segment) (size : other.size = bytes.size)
    (same : ∀ i, start ≤ i → i < start + segment.length → other[i]? = bytes[i]?) :
    Stands other start segment := by
  have fits := stands.le_size
  have part : between other start (start + segment.length) = segment :=
    (between_congr same).trans stands.between_eq
  rw [← part]
  exact .of_between (Nat.le_add_right _ _) (size ▸ fits)

namespace Overlooks

variable {bytes : ByteArray} {start m n : Nat} {segment : List UInt8}

theorem nothing (stands : Stands bytes start segment) :
    Overlooks bytes start (· = segment) segment.length fun _ => False where
  within := nofun
  elsewhere size same := ⟨segment, rfl, rfl, stands.of_getElem? size
    fun i le lt => same i le lt id⟩

theorem everything (fits : start + n ≤ bytes.size) :
    Overlooks bytes start (fun segment => segment.length = n) n
      fun i => start ≤ i ∧ i < start + n where
  within := id
  elsewhere {other} size _ := by
    have inside : start + n ≤ other.size := size ▸ fits
    have length : (between other start (start + n)).length = n := by
      rw [length_between inside, Nat.add_sub_cancel_left]
    exact ⟨_, length, length, .of_between (Nat.le_add_right _ _) inside⟩

variable {head rest written : List UInt8 → Prop} {ignored ignoredHead ignoredRest : Nat → Prop}

theorem imp {written' : List UInt8 → Prop} {ignored' : Nat → Prop}
    (h : Overlooks bytes start written n ignored)
    (weaker : ∀ segment, segment.length = n → written segment → written' segment)
    (fewer : ∀ i, ignored' i → ignored i) :
    Overlooks bytes start written' n ignored' where
  within here := h.within (fewer _ here)
  elsewhere size same := by
    obtain ⟨segment, length, here, stands⟩ := h.elsewhere size fun i le lt cared =>
      same i le lt fun here => cared (fewer i here)
    exact ⟨segment, length, weaker segment length here, stands⟩

theorem append (one : Overlooks bytes start head m ignoredHead)
    (two : Overlooks bytes (start + m) rest n ignoredRest) :
    Overlooks bytes start (fun whole => ∃ a b, a.length = m ∧ head a ∧ rest b ∧ whole = a ++ b)
      (m + n) fun i => ignoredHead i ∨ ignoredRest i where
  within {i} here := by
    rcases here with here | here
    · have := one.within here
      omega
    · have := two.within here
      omega
  elsewhere {other} size same := by
    obtain ⟨a, la, wa, sa⟩ := one.elsewhere size fun i le lt cared => by
      refine same i le (by omega) fun here => ?_
      rcases here with here | here
      · exact cared here
      · have := two.within here
        omega
    obtain ⟨b, lb, wb, sb⟩ := two.elsewhere size fun i le lt cared => by
      refine same i (by omega) (by omega) fun here => ?_
      rcases here with here | here
      · have := one.within here
        omega
      · exact cared here
    subst la
    exact ⟨a ++ b, by rw [List.length_append, lb], ⟨a, b, rfl, wa, wb, rfl⟩,
      Stands.append_iff.mpr ⟨sa, sb⟩⟩

theorem each {α : Type} {layout : Layout α} {values : List α}
    {ignored : Nat → α → Nat → Prop} (ignoredAll : Nat → List α → Nat → Prop)
    (written : layout.each start values segment) (stands : Stands bytes start segment)
    (entry : ∀ a ∈ values, ∀ start segment, layout start a segment →
      Stands bytes start segment →
      Overlooks bytes start (layout start a) segment.length (ignored start a))
    (nil : ∀ start i, ¬ ignoredAll start [] i)
    (cons : ∀ start a values segment i, layout start a segment → Stands bytes start segment →
      ignoredAll start (a :: values) i →
        ignored start a i ∨ ignoredAll (start + segment.length) values i) :
    Overlooks bytes start (layout.each start values) segment.length
      (ignoredAll start values) := by
  induction values generalizing start segment with
  | nil =>
    obtain rfl : segment = [] := written
    exact (nothing stands).imp (fun _ _ same => same) (nil start)
  | cons a values ih =>
    obtain ⟨head, rest, rfl, first, others⟩ := written
    obtain ⟨here, behind⟩ := Stands.append_iff.mp stands
    have one := entry a List.mem_cons_self _ _ first here
    have two := ih others behind fun b member => entry b (List.mem_cons_of_mem a member)
    rw [List.length_append]
    refine (one.append two).imp (fun segment _ both => ?_) fun i => cons _ _ _ _ i first here
    obtain ⟨a, b, length, wa, wb, whole⟩ := both
    exact ⟨a, b, whole, wa, length ▸ wb⟩

end Overlooks

variable {bytes : ByteArray} {start count : Nat} {segment : List UInt8} {rules : Strictness}

/-! Names and their tables. -/

theorem Symbol.overlooks {symbol : String} (written : Written symbol segment)
    (stands : Stands bytes start segment) :
    Overlooks bytes start (Written symbol) segment.length (Terminates bytes start) := by
  rcases written with ⟨rfl, rfl⟩ | ⟨name, terminator, short, rfl, rfl⟩
  · refine (Overlooks.nothing stands).imp (fun _ _ same => .inl ⟨rfl, same⟩) fun i here => ?_
    exact here.1 (shortAt_of_stands (by decide) stands)
  · obtain ⟨front, behind⟩ := Stands.append_iff.mp stands
    have length : shortAt bytes start = name.size :=
      shortAt_of_stands (by omega) (Stands.append_iff.mp front).1
    rw [List.length_append]
    refine ((Overlooks.nothing front).append (Overlooks.everything behind.le_size)).imp ?_ ?_
    · intro segment _ both
      obtain ⟨a, b, -, rfl, single, rfl⟩ := both
      obtain ⟨other, rfl⟩ := List.length_eq_one_iff.mp single
      exact .inr ⟨name, other, short, rfl, rfl⟩
    · intro i here
      obtain ⟨-, rfl⟩ := here
      rw [length, List.length_append, length_wordBytes, length_toList, List.length_singleton]
      omega

theorem Symbol.overlooks_table {symbols : List String} {segments : List (List UInt8)}
    (written : List.Forall₂ Written symbols segments)
    (stands : Stands bytes start segments.flatten) :
    Overlooks bytes start
      (fun table => ∃ segments', List.Forall₂ Written symbols segments' ∧
        table = segments'.flatten)
      segments.flatten.length (TerminatesOne bytes start symbols) := by
  have table : Layout.each (fun _ => Written) start symbols segments.flatten :=
    Layout.each_iff_forall₂.mpr ⟨segments, written, rfl⟩
  refine Overlooks.imp (Overlooks.each (TerminatesOne bytes) table stands
    (fun _ _ _ _ => overlooks) ?_ ?_)
    (fun _ _ => Layout.each_iff_forall₂.mp) fun _ => id
  · intro start i none
    obtain ⟨place, mem, -⟩ := none
    cases mem
  · intro start symbol symbols segment i first here some
    obtain ⟨place, mem, ends⟩ := some
    rw [List.length_cons, entryPlaces, List.mem_cons] at mem
    rcases mem with rfl | mem
    · exact .inl ends
    · rw [length_of_written first here]
      exact .inr ⟨place, mem, ends⟩

/-! Records and trees. -/

theorem Irep.overlooks {record : Irep} {childCount : Nat}
    (written : Written start record childCount segment) (stands : Stands bytes start segment) :
    Overlooks bytes start (Written start record childCount) segment.length
      (record.Ignores bytes) := by
  obtain ⟨head, fill, tables, symbols, rfl, parts⟩ := written.parts stands
  obtain rfl := written.offset_eq
  simp only [Stands.append_iff] at stands
  obtain ⟨headStands, fillStands, tablesStand, namesStand⟩ := stands
  have names := Symbol.overlooks_table parts.symbols_written namesStand
  have behindFill := (Overlooks.nothing tablesStand).append names
  have behindHead := (Overlooks.everything fillStands.le_size).append behindFill
  have whole := (Overlooks.nothing headStands).append behindHead
  have place : record.offset + head.length = record.headEnd := by rw [parts.head_length]; rfl
  have place' : record.headEnd + fill.length = record.opcodesStart := by rw [parts.fill_length]; rfl
  rw [place, place', parts.tables_end] at whole
  simp only [List.length_append]
  refine whole.imp ?_ ?_
  · intro segment _ all
    obtain ⟨_, _, -, rfl, ⟨fill', _, -, length, ⟨_, _, -, rfl, ⟨symbols', each, rfl⟩, rfl⟩, rfl⟩,
      rfl⟩ := all
    exact parts.written_with fill' symbols' length each
  · intro i here
    cases here with
    | fill behind before => exact .inr (.inl ⟨behind, before⟩)
    | terminator ends => exact .inr (.inr (.inr ends))

theorem Irep.overlooks_under {record : Irep} {childCount : Nat}
    (written : WrittenUnder rules start record childCount segment)
    (stands : Stands bytes start segment) :
    Overlooks bytes start (WrittenUnder rules start record childCount) segment.length
      (record.Ignores bytes) :=
  (overlooks written.1 stands).imp (fun _ length here => ⟨here, fun enforced =>
    length.trans (written.2 enforced)⟩) fun _ => id

theorem Tree.any_node {α : Type} {holds : α → Prop} {a : α} {ts : List (Tree α)} :
    (node a ts).Any holds ↔ holds a ∨ ∃ t ∈ ts, t.Any holds := by
  have any_iff (t : Tree α) : t.Any holds ↔ ¬ t.Every (¬ holds ·) := by simp [Any, Every]
  simp [any_iff, every_node, imp_iff_not_or]

theorem Tree.overlooks {α : Type} {own : Nat → α → Nat → List UInt8 → Prop}
    {ignored : α → Nat → Prop} {t : Tree α} (laid : Laid own start t segment)
    (stands : Stands bytes start segment)
    (node : ∀ start a count segment, own start a count segment → Stands bytes start segment →
      Overlooks bytes start (own start a count) segment.length (ignored a)) :
    Overlooks bytes start (Laid own start t) segment.length fun i => t.Any (ignored · i) := by
  induction t generalizing start segment with
  | node a ts ih =>
    obtain ⟨head, rest, rfl, first, others⟩ := laid_node.mp laid
    obtain ⟨here, behind⟩ := Stands.append_iff.mp stands
    have children := Overlooks.each (fun _ ts i => ∃ t ∈ ts, t.Any (ignored · i)) others behind
      (fun t member _ _ => ih t member) (by simp) (by simp)
    rw [List.length_append]
    refine ((node _ _ _ _ first here).append children).imp (fun segment _ both => ?_)
      fun i => any_node.mp
    obtain ⟨a', b, length, wa, wb, whole⟩ := both
    exact laid_node.mpr ⟨a', b, whole, wa, length ▸ wb⟩

/-! Sections. -/

theorem IrepSection.Written.overlooks_root {s : IrepSection}
    (written : Written rules start s segment) (stands : Stands bytes start segment) :
    ∃ head root, segment = head ++ root ∧ head.length = 12 ∧
      Overlooks bytes (start + 12) (Tree.Laid (Irep.WrittenUnder rules) (start + 12) s.root)
        root.length (fun i => s.root.Any (Irep.Ignores bytes · i)) ∧
      ∀ root', root'.length = root.length →
        Tree.Laid (Irep.WrittenUnder rules) (start + 12) s.root root' →
        Written rules start s (head ++ root') := by
  obtain ⟨tag, root, rfl, laid⟩ := written.bytes_eq
  have behind := (Stands.append_iff.mp stands).2
  refine ⟨_, root, rfl, rfl, Tree.overlooks laid behind fun _ _ _ _ =>
    Irep.overlooks_under, ?_⟩
  intro root' length laid'
  refine ⟨written.offset_eq, written.debug_eq, written.height_le, fun enforced => ?_, tag, root',
    rfl, laid'⟩
  refine Eq.trans ?_ (written.exactly enforced)
  simp only [List.length_append, length]

theorem IrepSection.Written.overlooks {s : IrepSection} (written : Written rules start s segment)
    (stands : Stands bytes start segment) :
    Overlooks bytes start (Written rules start s) segment.length
      fun i => s.root.Any (Irep.Ignores bytes · i) := by
  obtain ⟨head, root, rfl, length, tree, again⟩ := written.overlooks_root stands
  have front := Overlooks.nothing (Stands.append_iff.mp stands).1
  rw [length] at front
  rw [List.length_append, length]
  refine (front.append tree).imp (fun segment total both => ?_) fun i => .inr
  obtain ⟨a, b, la, rfl, laid, rfl⟩ := both
  exact again b (by rw [List.length_append] at total; omega) laid

namespace Section

variable {before : List Section} {s : Section}

theorem Ignores.within {i : Nat} (contains : Contains rules bytes before s)
    (inside : s.offset ≤ bytes.size) (here : s.Ignores bytes i) :
    s.offset + 8 ≤ i ∧ i < s.offset + s.size.toNat := by
  cases s with
  | irep s =>
    obtain ⟨segment, stands, written, covers⟩ := (contains_irep_iff inside).mp contains
    have ends : s.contentEnd bytes = s.offset + segment.length := written.contentEnd_eq stands
    obtain ⟨head, root, rfl, length, tree, -⟩ := written.overlooks_root stands
    rw [List.length_append] at ends covers
    simp only [offset, size]
    rcases here with inTree | ⟨behind, lt⟩
    · have := tree.within inTree
      omega
    · omega
  | debug s =>
    obtain ⟨t, segment, -, stands, written, covers⟩ := (contains_debug_iff inside).mp contains
    have ends := written.contentEnd_eq
    obtain ⟨tag, rest, rfl⟩ := written.head
    obtain ⟨behind, lt⟩ := here
    rw [List.length_append, List.length_append, Tag.length_bytes, length_wordBytes] at ends
    simp only [offset, size]
    omega
  | skipped s => exact here

theorem contains_elsewhere {other : ByteArray} (contains : Contains rules bytes before s)
    (inside : s.offset ≤ bytes.size) (size : other.size = bytes.size)
    (same : ∀ i, s.offset ≤ i → i < s.offset + s.size.toNat → ¬ s.Ignores bytes i →
      other[i]? = bytes[i]?) :
    Contains rules other before s := by
  have inside' : s.offset ≤ other.size := size ▸ inside
  cases s with
  | irep s =>
    obtain ⟨segment, stands, written, covers⟩ := (contains_irep_iff inside).mp contains
    have ends : s.contentEnd bytes = s.offset + segment.length := written.contentEnd_eq stands
    have same_in (i : Nat) (le : s.offset ≤ i) (lt : i < s.offset + segment.length)
        (cared : ¬ s.root.Any (Irep.Ignores bytes · i)) : other[i]? = bytes[i]? := by
      refine same i le (Nat.lt_of_lt_of_le lt (Nat.add_le_add_left covers _)) fun here => ?_
      rcases here with inTree | ⟨behind, -⟩
      · exact cared inTree
      · omega
    obtain ⟨segment', length, written', stands'⟩ :=
      (written.overlooks stands).elsewhere size same_in
    exact (contains_irep_iff inside').mpr ⟨segment', stands', written', length ▸ covers⟩
  | debug s =>
    obtain ⟨t, segment, nearest, stands, written, covers⟩ := (contains_debug_iff inside).mp contains
    have ends := written.contentEnd_eq
    have stands' : Stands other s.offset segment := by
      refine stands.of_getElem? size fun i le lt => ?_
      refine same i le (Nat.lt_of_lt_of_le lt (Nat.add_le_add_left covers _)) fun here => ?_
      have := here.1
      omega
    exact (contains_debug_iff inside').mpr ⟨t, segment, nearest, stands', written, covers⟩
  | skipped s => exact contains

theorem TilesTo.start_le_of_mem {sections : List Section} {marker : Nat}
    (tiles : TilesTo bytes start sections marker) (mem : s ∈ sections) : start ≤ s.offset := by
  induction sections generalizing start with
  | nil => cases mem
  | cons t rest ih =>
    obtain ⟨⟨here, -⟩, tiles⟩ := tiles
    cases mem with
    | head => exact Nat.le_of_eq here.symm
    | tail _ mem => exact Nat.le_trans (Nat.le_add_right _ _) (ih tiles mem)

theorem TilesTo.placed_of_mem {sections : List Section} {marker : Nat}
    (tiles : TilesTo bytes start sections marker) (mem : s ∈ sections) :
    Placed bytes s.offset s := by
  induction sections generalizing start with
  | nil => cases mem
  | cons t rest ih =>
    obtain ⟨placed, tiles⟩ := tiles
    cases mem with
    | head => exact placed.1 ▸ placed
    | tail _ mem => exact ih tiles mem

theorem TilesTo.eq_of_mem {sections : List Section} {marker i : Nat} {t : Section}
    (tiles : TilesTo bytes start sections marker) (mem : s ∈ sections) (mem' : t ∈ sections)
    (le : s.offset ≤ i) (lt : i < s.offset + s.size.toNat)
    (le' : t.offset ≤ i) (lt' : i < t.offset + t.size.toNat) : s = t := by
  induction sections generalizing start with
  | nil => cases mem
  | cons u rest ih =>
    obtain ⟨⟨rfl, -⟩, tiles⟩ := tiles
    cases mem with
    | head =>
      cases mem' with
      | head => rfl
      | tail _ mem' =>
        have := tiles.start_le_of_mem mem'
        omega
    | tail _ mem =>
      cases mem' with
      | head =>
        have := tiles.start_le_of_mem mem
        omega
      | tail _ mem' => exact ih tiles mem mem'

theorem TilesTo.elsewhere {sections : List Section} {marker : Nat} {other : ByteArray}
    (tiles : TilesTo bytes start sections marker)
    (heads : ∀ s ∈ sections, Stands other s.offset (s.tag.bytes ++ wordBytes 4 s.size.toNat)) :
    TilesTo other start sections marker := by
  induction sections generalizing start with
  | nil => exact tiles
  | cons s rest ih =>
    obtain ⟨⟨rfl, covers, -⟩, tiles⟩ := tiles
    exact ⟨⟨rfl, covers, heads s List.mem_cons_self⟩,
      ih tiles fun t mem => heads t (List.mem_cons_of_mem s mem)⟩

theorem Tiling.elsewhere {sections : List Section} {stop : Nat} {other : ByteArray}
    (tiling : Tiling rules bytes start sections stop) (size : other.size = bytes.size)
    (same : ∀ i, ¬ Overlooked bytes start sections stop i → other[i]? = bytes[i]?) :
    Tiling rules other start sections stop := by
  obtain ⟨⟨marker, tiles, mark, rfl, fits⟩, decoded, linked⟩ := tiling
  have inside (s : Section) (mem : s ∈ sections) : s.offset ≤ bytes.size := by
    have := tiles.stop_le_of_mem mem
    omega
  have ignored_within (s : Section) (mem : s ∈ sections) {i : Nat} (here : s.Ignores bytes i) :
      s.offset + 8 ≤ i ∧ i < s.offset + s.size.toNat := by
    obtain ⟨k, found⟩ := List.getElem?_of_mem mem
    exact Ignores.within (decoded k s found) (inside s mem) here
  -- In the range of a section only what that section ignores is overlooked.
  have same_in (s : Section) (mem : s ∈ sections) (i : Nat) (le : s.offset ≤ i)
      (lt : i < s.offset + s.size.toNat) (cared : ¬ s.Ignores bytes i) :
      other[i]? = bytes[i]? := by
    have start_le := tiles.start_le_of_mem mem
    have stop_le := tiles.stop_le_of_mem mem
    refine same i fun overlooked => ?_
    cases overlooked with
    | before lt => omega
    | @ignored t mem' here =>
      obtain ⟨le', lt'⟩ := ignored_within t mem' here
      obtain rfl := tiles.eq_of_mem mem mem' le lt (Nat.le_of_add_right_le le') lt'
      exact cared here
    | behind le =>
      rw [endMarkerSize] at le
      omega
  refine ⟨⟨marker, tiles.elsewhere fun s mem => ?_, ?_, rfl, size ▸ fits⟩,
    fun k s found => ?_, linked⟩
  · obtain ⟨-, covers, head⟩ := tiles.placed_of_mem mem
    refine head.of_getElem? size fun i le lt => ?_
    rw [List.length_append, Tag.length_bytes, length_wordBytes] at lt
    rw [headerSize] at covers
    refine same_in s mem i le (by omega) fun here => ?_
    have := (ignored_within s mem here).1
    omega
  · refine mark.of_getElem? size fun i le lt => same i fun overlooked => ?_
    rw [Tag.length_bytes] at lt
    have start_le := tiles.le
    cases overlooked with
    | before lt => omega
    | ignored mem here =>
      have := (ignored_within _ mem here).2
      have := tiles.stop_le_of_mem mem
      omega
    | behind le =>
      rw [endMarkerSize] at le
      omega
  · have mem := List.mem_of_getElem? found
    exact contains_elsewhere (decoded k s found) (inside s mem) size (same_in s mem)

/-- Bytes that are not looked at may be any others without a change to the sections that are read
or to where they end. -/
theorem readAll_overlooks (rules : Strictness) {bytes other : ByteArray} {start : Nat}
    {sections : Array Section} (ok : (runAt (readAll rules) bytes start).result = .ok sections)
    (size : other.size = bytes.size)
    (same : ∀ i, ¬ Overlooked bytes start sections.toList
      (runAt (readAll rules) bytes start).position i → other[i]? = bytes[i]?) :
    (runAt (readAll rules) other start).result = .ok sections ∧
      (runAt (readAll rules) other start).position =
        (runAt (readAll rules) bytes start).position := by
  obtain ⟨inside, read⟩ := reads_runAt.mp ⟨ok, rfl⟩
  have tiling := tiling_of_run (reads_readAll_iff.mp read) (reached_nil inside)
  have inside' : start ≤ other.size := size ▸ inside
  exact reads_runAt.mpr ⟨inside', reads_readAll_of_tiling inside' (tiling.elsewhere size same)⟩

/-- From 1 on a tree with a fill and a name, a section that is skipped and an end marker, with one
byte wherever none is looked at. -/
def sparseBytes (free : UInt8) : ByteArray := ⟨#[
  free,
  0x49, 0x52, 0x45, 0x50, 0, 0, 0, 40, 0x30, 0x30, 0x30, 0x30,
  0, 0, 0, 27, 0, 1, 0, 2, 0, 0, 0, 0, 0, 0, free, 0, 0, 0, 0, 0, 0, 0, 1, 0, 1, 0x61, free,
  free,
  0x4C, 0x56, 0x41, 0x52, 0, 0, 0, 9, free,
  0x45, 0x4E, 0x44, 0x00, free, free, free, free, free]⟩

def sparseTree : IrepSection :=
  ⟨1, 40, Tag.ofChars '0' '0' '0' '0', .node ⟨13, 27, 1, 2, [], [], [Utf8.decode ⟨#[0x61]⟩]⟩ [],
    none⟩

def sparseSections : Array Section := #[.irep sparseTree, .skipped ⟨Tag.localNames, 41, 9⟩]

theorem readAll_overlooks_sparse :
    (runAt (readAll .lenient) (sparseBytes 0) 1).result = .ok sparseSections ∧
      (runAt (readAll .lenient) (sparseBytes 0x45) 1).result = .ok sparseSections := by
  have first : Reads (read .lenient #[]) (sparseBytes 0) 1 (some (.irep sparseTree)) 41 :=
    ⟨rfl, rfl⟩
  have second : Reads (read .lenient #[.irep sparseTree]) (sparseBytes 0) 41
      (some (.skipped ⟨Tag.localNames, 41, 9⟩)) 50 := ⟨rfl, rfl⟩
  have last : Reads (read .lenient sparseSections) (sparseBytes 0) 50 none 58 := ⟨rfl, rfl⟩
  obtain ⟨ok, ends⟩ : (runAt (readAll .lenient) (sparseBytes 0) 1).result = .ok sparseSections ∧
      (runAt (readAll .lenient) (sparseBytes 0) 1).position = 58 :=
    reads_runAt.mpr ⟨by decide, reads_readAll_iff.mpr (.step first (.step second (.done last)))⟩
  have size : (sparseBytes 0x45).size = (sparseBytes 0).size := rfl
  have elsewhere : ∀ i < 54, i ∉ [0, 27, 39, 40, 49] →
      (sparseBytes 0x45)[i]? = (sparseBytes 0)[i]? := by decide
  refine ⟨ok, (readAll_overlooks .lenient ok size fun i cared => ?_).1⟩
  rw [ends] at cared
  rcases Nat.lt_or_ge i 54 with lt | ge
  · refine elsewhere i lt fun mem => cared ?_
    have tree : .irep sparseTree ∈ sparseSections.toList := List.mem_cons_self
    simp only [List.mem_cons, List.not_mem_nil, or_false] at mem
    rcases mem with rfl | rfl | rfl | rfl | rfl
    · exact .before (by decide)
    · exact .ignored tree (.inl ⟨[], _, rfl, .fill (by decide) (by decide)⟩)
    · exact .ignored tree (.inl ⟨[], _, rfl, .terminator ⟨36, by decide, by decide, rfl⟩⟩)
    · exact .ignored tree (.inr ⟨by decide, by decide⟩)
    · exact .ignored (List.mem_cons_of_mem _ List.mem_cons_self) ⟨by decide, by decide⟩
  · exact absurd (.behind (by omega)) cared

end Section

end RiteImage
