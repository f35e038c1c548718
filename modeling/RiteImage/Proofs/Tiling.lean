import RiteImage.Image.Basic
import RiteImage.Proofs.SectionLayout

/-! Sections tile a buffer.
Each section begins where the declared size of the one before it ends, and an end
marker follows the last. Line tables know the nearest tree before them, and a tree
knows the last line tables that were read along it. -/
namespace RiteImage

open Reader

namespace Section

variable {rules : Strictness} {bytes : ByteArray} {start stop : Nat}

/-- Sections one after another, up to where the last of them ends. -/
def TilesTo (bytes : ByteArray) : Nat → List Section → Nat → Prop
  | start, [], stop => stop = start
  | start, s :: rest, stop =>
    Placed bytes start s ∧ TilesTo bytes (start + s.size.toNat) rest stop

def Decoded (rules : Strictness) (bytes : ByteArray) (sections : List Section) : Prop :=
  ∀ i s, sections[i]? = some s → Contains rules bytes (sections.take i) s

def IsLinesOf (i : Nat) : Section → Prop
  | .debug s => s.irep = i
  | _ => False

def Linked (sections : List Section) : Prop :=
  ∀ i s, sections[i]? = some (.irep s) → ∀ j, s.debug = some j ↔ LastWhere (IsLinesOf i) sections j

/-- Linked sections from `start` to an end marker that ends at `stop`. -/
structure Tiling (rules : Strictness) (bytes : ByteArray) (start : Nat) (sections : List Section)
    (stop : Nat) : Prop where
  tiles : ∃ marker, TilesTo bytes start sections marker ∧
    Stands bytes marker Tag.endMarker.bytes ∧ stop = marker + endMarkerSize ∧ stop ≤ bytes.size
  decoded : Decoded rules bytes sections
  linked : Linked sections

inductive Run (rules : Strictness) (bytes : ByteArray) :
    Array Section → Nat → Array Section → Nat → Prop
  | done {known start stop} (last : Reads (read rules known) bytes start none stop) :
      Run rules bytes known start known stop
  | step {known start next middle sections stop}
      (first : Reads (read rules known) bytes start (some next) middle)
      (rest : Run rules bytes (extend known next) middle sections stop) :
      Run rules bytes known start sections stop

theorem run_of_readFrom {known sections : Array Section}
    (ok : (readFrom rules bytes start known).result = .ok sections)
    (ends : (readFrom rules bytes start known).position = stop) :
    Run rules bytes known start sections stop := by
  induction start, known using rounds.induct rules bytes with
  | case1 start known last events run =>
    rw [readFrom_of_none run] at ok ends
    cases ok
    cases ends
    exact .done (reads_of_eq run)
  | case2 start known next middle events run ih =>
    rw [readFrom_of_some run] at ok ends
    exact .step (reads_of_eq run) (ih ok ends)
  | case3 start known e last events run =>
    rw [readFrom_of_error run] at ok
    cases ok

theorem readFrom_of_run {known sections : Array Section}
    (run : Run rules bytes known start sections stop) :
    (readFrom rules bytes start known).result = .ok sections ∧
      (readFrom rules bytes start known).position = stop := by
  induction run with
  | done last =>
    obtain ⟨events, eq⟩ := last.eq
    rw [readFrom_of_none eq]
    exact ⟨rfl, rfl⟩
  | step first rest ih =>
    obtain ⟨events, eq⟩ := first.eq
    rw [readFrom_of_some eq]
    exact ih

theorem reads_readAll_iff {sections : Array Section} :
    Reads (readAll rules) bytes start sections stop ↔ Run rules bytes #[] start sections stop :=
  ⟨fun h => run_of_readFrom h.1 h.2, readFrom_of_run⟩

theorem TilesTo.le {sections : List Section} (tiles : TilesTo bytes start sections stop) :
    start ≤ stop := by
  induction sections generalizing start with
  | nil => exact Nat.le_of_eq tiles.symm
  | cons s rest ih => exact Nat.le_trans (Nat.le_add_right _ _) (ih tiles.2)

theorem TilesTo.stop_le_of_mem {sections : List Section} {s : Section}
    (tiles : TilesTo bytes start sections stop) (mem : s ∈ sections) :
    s.offset + s.size.toNat ≤ stop := by
  induction sections generalizing start with
  | nil => cases mem
  | cons t rest ih =>
    obtain ⟨⟨here, -⟩, tiles⟩ := tiles
    cases mem with
    | head => exact here ▸ tiles.le
    | tail _ mem => exact ih tiles mem

theorem Tiling.stop_le_of_mem {sections : List Section} {s : Section}
    (tiling : Tiling rules bytes start sections stop) (mem : s ∈ sections) :
    s.offset + s.size.toNat ≤ bytes.size := by
  obtain ⟨marker, tiles, -, rfl, fits⟩ := tiling.tiles
  have le := tiles.stop_le_of_mem mem
  omega

theorem tilesTo_append {before after : List Section} :
    TilesTo bytes start (before ++ after) stop ↔
      ∃ middle, TilesTo bytes start before middle ∧ TilesTo bytes middle after stop := by
  induction before generalizing start with
  | nil => simp [TilesTo]
  | cons s before ih => simp [TilesTo, ih, and_assoc]

theorem decoded_concat {before : List Section} {s : Section} :
    Decoded rules bytes (before ++ [s]) ↔
      Decoded rules bytes before ∧ Contains rules bytes before s := by
  constructor
  · intro all
    refine ⟨fun i a found => ?_, ?_⟩
    · obtain ⟨inside, -⟩ := List.getElem?_eq_some_iff.mp found
      have here := all i a (concat_eq_some_iff.mpr (.inl found))
      rwa [List.take_append_of_le_length (Nat.le_of_lt inside)] at here
    · simpa using all before.length s List.getElem?_concat_length
  · rintro ⟨all, last⟩ i a found
    rcases concat_eq_some_iff.mp found with old | ⟨rfl, rfl⟩
    · obtain ⟨inside, -⟩ := List.getElem?_eq_some_iff.mp old
      rw [List.take_append_of_le_length (Nat.le_of_lt inside)]
      exact all i a old
    · rwa [List.take_left]

/-! Links do not matter to where sections stand and what they contain. -/

@[simp] theorem offset_unlinked (s : Section) : s.unlinked.offset = s.offset := by cases s <;> rfl

@[simp] theorem size_unlinked (s : Section) : s.unlinked.size = s.size := by cases s <;> rfl

@[simp] theorem tag_unlinked (s : Section) : s.unlinked.tag = s.tag := by cases s <;> rfl

@[simp] theorem kind_unlinked (s : Section) : s.unlinked.kind = s.kind := by cases s <;> rfl

@[simp] theorem unlinked_unlinked (s : Section) : s.unlinked.unlinked = s.unlinked := by
  cases s <;> rfl

@[simp] theorem isLinesOf_unlinked {i : Nat} {s : Section} :
    IsLinesOf i s.unlinked ↔ IsLinesOf i s := by
  cases s <;> rfl

@[simp] theorem unlinked_linkTo (i : Nat) (s : Section) : (linkTo i s).unlinked = s.unlinked := by
  cases s <;> rfl

@[simp] theorem placed_unlinked {s : Section} :
    Placed bytes start s.unlinked ↔ Placed bytes start s := by
  simp [Placed]

theorem tilesTo_unlinked {sections : List Section} :
    TilesTo bytes start (sections.map unlinked) stop ↔ TilesTo bytes start sections stop := by
  induction sections generalizing start with
  | nil => rfl
  | cons s rest ih => simp [TilesTo, ih]

theorem lastWhere_unlinked {holds : Section → Prop}
    (blind : ∀ s : Section, holds s.unlinked ↔ holds s) {sections : List Section} {i : Nat} :
    LastWhere holds (sections.map unlinked) i ↔ LastWhere holds sections i :=
  lastWhere_congr fun k => by simp [List.getElem?_map, blind]

theorem nearestIrep_unlinked {before : List Section} {i : Nat} {t : IrepSection} :
    NearestIrep (before.map unlinked) i t ↔
      t.debug = none ∧ ∃ link, NearestIrep before i { t with debug := link } := by
  have last_iff : LastWhere (fun s => s.kind = .irep) (before.map unlinked) i ↔
      LastWhere (fun s => s.kind = .irep) before i :=
    lastWhere_unlinked fun s => by rw [kind_unlinked]
  simp only [NearestIrep, last_iff, List.getElem?_map, Option.map_eq_some_iff]
  constructor
  · intro h
    obtain ⟨⟨s, found, same⟩, last⟩ := h
    cases s with
    | irep s =>
      cases same
      exact ⟨rfl, s.debug, found, last⟩
    | debug s => cases same
    | skipped s => cases same
  · intro h
    obtain ⟨fresh, link, found, last⟩ := h
    obtain ⟨offset, size, stamp, root, debug⟩ := t
    obtain rfl : debug = none := fresh
    exact ⟨⟨_, found, rfl⟩, last⟩

theorem contains_unlinked {before : List Section} {s : Section} :
    Contains rules bytes (before.map unlinked) s.unlinked ↔ Contains rules bytes before s := by
  cases s with
  | irep s => rfl
  | skipped s => rfl
  | debug s =>
    simp only [unlinked, Contains, nearestIrep_unlinked]
    constructor
    · intro h
      obtain ⟨t, stop, ⟨_, link, nearest⟩, read⟩ := h
      exact ⟨_, stop, nearest, read⟩
    · intro h
      obtain ⟨t, stop, nearest, read⟩ := h
      exact ⟨{ t with debug := none }, stop, ⟨rfl, t.debug, nearest⟩, read⟩

theorem decoded_unlinked {sections : List Section} :
    Decoded rules bytes (sections.map unlinked) ↔ Decoded rules bytes sections := by
  constructor
  · intro all i s found
    have here := all i s.unlinked (by rw [List.getElem?_map, found, Option.map_some])
    rwa [← List.map_take, contains_unlinked] at here
  · intro all i s found
    rw [List.getElem?_map, Option.map_eq_some_iff] at found
    obtain ⟨a, found, rfl⟩ := found
    rw [← List.map_take, contains_unlinked]
    exact all i a found

theorem unlinked_extend {known : Array Section} {next : Section} (fresh : next.unlinked = next) :
    (extend known next).toList.map unlinked = known.toList.map unlinked ++ [next] := by
  cases next with
  | irep s => simp [extend, fresh]
  | skipped s => simp [extend, fresh]
  | debug s =>
    simp only [extend, Array.toList_push, Array.toList_modify, List.map_append, List.map_cons,
      List.map_nil, fresh]
    congr 1
    apply List.ext_getElem?
    intro i
    by_cases at_tree : s.irep = i
    · subst at_tree
      simp [Function.comp_def]
    · simp [at_tree]

/-! Links are told by the sections without them. -/

theorem linked_iff {sections : List Section} :
    Linked sections ↔ ∀ i s, sections[i]? = some (.irep s) →
      ∀ j, s.debug = some j ↔ LastWhere (IsLinesOf i) (sections.map unlinked) j := by
  simp only [Linked, lastWhere_unlinked fun _ => isLinesOf_unlinked]

theorem eq_of_linked {one two : List Section} (same : one.map unlinked = two.map unlinked)
    (linked : Linked one) (linked' : Linked two) : one = two := by
  apply List.ext_getElem?
  intro i
  have here := congrArg (·[i]?) same
  simp only [List.getElem?_map] at here
  rcases found : one[i]? with _ | s
  · rw [found] at here
    exact (Option.map_eq_none_iff.mp here.symm).symm
  obtain ⟨s', found', eq⟩ := Option.map_eq_some_iff.mp (here.symm.trans (congrArg _ found))
  rw [found']
  cases s with
  | irep s =>
    cases s' with
    | irep s' =>
      have link : s.debug = s'.debug := Option.ext fun j =>
        (linked_iff.mp linked i s found j).trans
          (same ▸ (linked_iff.mp linked' i s' found' j).symm)
      obtain ⟨offset, size, stamp, root, debug⟩ := s
      cases eq
      cases link
      rfl
    | debug s' => cases eq
    | skipped s' => cases eq
  | debug s => cases s' <;> cases eq; rfl
  | skipped s => cases s' <;> cases eq; rfl

theorem irep_of_extend {known : Array Section} {next : Section} {i : Nat} {s : IrepSection}
    (found : (extend known next).toList[i]? = some (.irep s)) :
    (known.toList[i]? = some (.irep s) ∧ ¬ IsLinesOf i next) ∨
      (IsLinesOf i next ∧ s.debug = some known.size) ∨
      (i = known.size ∧ .irep s = next) := by
  cases next with
  | irep t =>
    simp only [extend, Array.toList_push, concat_eq_some_iff, Array.length_toList] at found
    rcases found with old | new
    · exact .inl ⟨old, id⟩
    · exact .inr (.inr new)
  | skipped t =>
    simp only [extend, Array.toList_push, concat_eq_some_iff] at found
    rcases found with old | ⟨-, impossible⟩
    · exact .inl ⟨old, id⟩
    · cases impossible
  | debug t =>
    simp only [extend, Array.toList_push, concat_eq_some_iff, Array.toList_modify] at found
    rcases found with old | ⟨-, impossible⟩
    · by_cases lines : t.irep = i
      · rw [lines, List.getElem?_modify_eq] at old
        obtain ⟨a, -, linked⟩ := Option.map_eq_some_iff.mp old
        refine .inr (.inl ⟨lines, ?_⟩)
        cases a with
        | irep a =>
          cases linked
          rfl
        | debug a => cases linked
        | skipped a => cases linked
      · rw [List.getElem?_modify_ne _ _ lines] at old
        exact .inl ⟨old, lines⟩
    · cases impossible

theorem lt_of_isLinesOf {sections : List Section} (decoded : Decoded rules bytes sections)
    {i j : Nat} {s : Section} (found : sections[j]? = some s) (lines : IsLinesOf i s) : i < j := by
  cases s with
  | debug s =>
    obtain rfl : s.irep = i := lines
    obtain ⟨t, _, ⟨there, -⟩, -⟩ := decoded j _ found
    obtain ⟨inside, -⟩ := List.getElem?_eq_some_iff.mp there
    rw [List.length_take] at inside
    omega
  | irep s => cases lines
  | skipped s => cases lines

theorem linked_extend {known : Array Section} {next : Section} (fresh : next.unlinked = next)
    (decoded : Decoded rules bytes known.toList) (linked : Linked known.toList) :
    Linked (extend known next).toList := by
  rw [linked_iff]
  intro i s found j
  rw [unlinked_extend fresh, lastWhere_concat, lastWhere_unlinked fun _ => isLinesOf_unlinked,
    List.length_map, Array.length_toList]
  rcases irep_of_extend found with ⟨old, other⟩ | ⟨lines, link⟩ | ⟨rfl, rfl⟩
  · simp only [other, false_and, false_or, not_false_eq_true, true_and]
    exact linked i s old j
  · simp only [lines, true_and, not_true_eq_false, false_and, or_false, link, Option.some.injEq]
    exact eq_comm
  -- A new tree has no link, and no line tables of it stand before it.
  · have unset : s.debug = none := by
      have same : { s with debug := none } = s := Section.irep.inj fresh
      rw [← same]
    constructor
    · intro set
      cases unset.symm.trans set
    · intro h
      obtain ⟨lines, -⟩ | ⟨-, ⟨a, there, lines⟩, -⟩ := h
      · cases lines
      · have before := lt_of_isLinesOf decoded there lines
        obtain ⟨inside, -⟩ := List.getElem?_eq_some_iff.mp there
        rw [Array.length_toList] at inside
        omega

/-- What is known at a position while sections are read from `start` on. -/
structure Reached (rules : Strictness) (bytes : ByteArray) (start : Nat) (known : List Section)
    (here : Nat) : Prop where
  tiles : TilesTo bytes start known here
  decoded : Decoded rules bytes known
  linked : Linked known
  inside : here ≤ bytes.size

theorem reached_nil (inside : start ≤ bytes.size) : Reached rules bytes start [] start :=
  ⟨rfl, fun _ _ found => (by cases found), fun _ _ found => (by cases found), inside⟩

theorem reached_extend {known : Array Section} {next : Section} {here : Nat}
    (reached : Reached rules bytes start known.toList here)
    (follows : Follows rules bytes known.toList here next stop) :
    Reached rules bytes start (extend known next).toList stop := by
  obtain ⟨tiles, decoded, linked, -⟩ := reached
  obtain ⟨fresh, placed, contains, rfl, fits⟩ := follows
  refine ⟨?_, ?_, linked_extend fresh decoded linked, fits⟩
  · rw [← tilesTo_unlinked, unlinked_extend fresh, tilesTo_append]
    exact ⟨here, tilesTo_unlinked.mpr tiles, placed, rfl⟩
  · rw [← decoded_unlinked, unlinked_extend fresh, decoded_concat]
    refine ⟨decoded_unlinked.mpr decoded, ?_⟩
    rwa [← fresh, contains_unlinked]

/-- A run preserves what is known, so that it ends with sections that tile the buffer. -/
theorem tiling_of_run {known sections : Array Section} {here : Nat}
    (run : Run rules bytes known here sections stop)
    (reached : Reached rules bytes start known.toList here) :
    Tiling rules bytes start sections.toList stop := by
  induction run with
  | done last =>
    obtain ⟨marker, rfl, fits⟩ := (reads_none_iff reached.inside).mp last
    exact ⟨⟨_, reached.tiles, marker, rfl, fits⟩, reached.decoded, reached.linked⟩
  | step first rest ih =>
    exact ih (reached_extend reached ((reads_some_iff reached.inside).mp first))

theorem follows_of_split {sections before rest : List Section} {s : Section} {known : Array Section}
    {here : Nat} (decoded : Decoded rules bytes sections) (split : sections = before ++ s :: rest)
    (same : known.toList.map unlinked = before.map unlinked) (placed : Placed bytes here s)
    (fits : here + s.size.toNat ≤ bytes.size) :
    Follows rules bytes known.toList here s.unlinked (here + s.size.toNat) := by
  have contains := decoded before.length s (by rw [split]; simp)
  rw [split, List.take_left, ← contains_unlinked, ← same] at contains
  refine ⟨unlinked_unlinked s, placed_unlinked.mpr placed, ?_, by rw [size_unlinked], fits⟩
  rwa [← contains_unlinked, unlinked_unlinked]

theorem run_of_rest {sections : List Section} (decoded : Decoded rules bytes sections)
    (linked : Linked sections) {rest before : List Section} {known : Array Section}
    {here marker : Nat} (split : sections = before ++ rest)
    (same : known.toList.map unlinked = before.map unlinked)
    (reached : Reached rules bytes start known.toList here)
    (tiles : TilesTo bytes here rest marker) (mark : Stands bytes marker Tag.endMarker.bytes)
    (fits : marker + endMarkerSize ≤ bytes.size) :
    Run rules bytes known here sections.toArray (marker + endMarkerSize) := by
  induction rest generalizing before known here with
  | nil =>
    obtain rfl : marker = here := tiles
    rw [List.append_nil] at split
    rw [split] at linked
    -- Both lists are linked and agree up to links, and links are told by the rest.
    have all : known = sections.toArray := by
      rw [split, ← eq_of_linked same reached.linked linked]
    rw [← all]
    exact .done ((reads_none_iff reached.inside).mpr ⟨mark, rfl, fits⟩)
  | cons s rest ih =>
    obtain ⟨placed, tiles⟩ := tiles
    have le := tiles.le
    have follows := follows_of_split decoded split same placed (by omega)
    have longer : sections = (before ++ [s]) ++ rest := by simpa using split
    refine .step ((reads_some_iff reached.inside).mpr follows)
      (ih longer ?_ (reached_extend reached follows) tiles)
    rw [unlinked_extend follows.unlinked_eq, same, List.map_append, List.map_singleton]

theorem run_of_tiling {sections : List Section} (inside : start ≤ bytes.size)
    (tiling : Tiling rules bytes start sections stop) :
    Run rules bytes #[] start sections.toArray stop := by
  obtain ⟨⟨marker, tiles, mark, rfl, fits⟩, decoded, linked⟩ := tiling
  exact run_of_rest decoded linked rfl rfl (reached_nil inside) tiles mark fits

theorem reads_readAll_of_tiling {sections : Array Section} (inside : start ≤ bytes.size)
    (tiling : Tiling rules bytes start sections.toList stop) :
    Reads (readAll rules) bytes start sections stop :=
  reads_readAll_iff.mpr (run_of_tiling inside tiling)

/-- The sections that are read from `start` on are exactly those that tile the buffer from there. -/
theorem readAll_iff_tiling (rules : Strictness) (bytes : ByteArray) (start : Nat)
    (sections : Array Section) (stop : Nat) :
    ((runAt (readAll rules) bytes start).result = .ok sections ∧
      (runAt (readAll rules) bytes start).position = stop) ↔
      Tiling rules bytes start sections.toList stop := by
  rw [reads_runAt]
  constructor
  · intro h
    obtain ⟨inside, reads⟩ := h
    exact tiling_of_run (reads_readAll_iff.mp reads) (reached_nil inside)
  · intro tiling
    have inside : start ≤ bytes.size := by
      obtain ⟨marker, tiles, -, rfl, fits⟩ := tiling.tiles
      have le := tiles.le
      omega
    exact ⟨inside, reads_readAll_of_tiling inside tiling⟩

end Section

/-- An image is read where its header is, and its sections behind that. The rules may ask for the
known magic. -/
theorem Image.reads_iff {rules : Strictness} {bytes : ByteArray} {start stop : Nat} {image : Image} :
    Reads (Image.read rules) bytes start image stop ↔
      (rules.enforceMagic = true → image.header.magic = Tag.magic) ∧
        ∃ middle, Reads Header.read bytes start image.header middle ∧
          Reads (Section.readAll rules) bytes middle image.sections stop := by
  have asked (header : Header) : (!rules.enforceMagic || header.hasMagic) = true ↔
      (rules.enforceMagic = true → header.magic = Tag.magic) := by
    simp [Header.hasMagic, Decidable.imp_iff_not_or]
  simp only [read, readBy, reads_bind, reads_require, reads_pure, asked]
  constructor
  · intro h
    obtain ⟨header, _, first, _, _, ⟨magic, rfl⟩, sections, _, rest, rfl, rfl⟩ := h
    exact ⟨magic, _, first, rest⟩
  · intro h
    obtain ⟨magic, middle, first, rest⟩ := h
    exact ⟨image.header, middle, first, (), _, ⟨magic, rfl⟩, image.sections, stop, rest, rfl, rfl⟩

end RiteImage
