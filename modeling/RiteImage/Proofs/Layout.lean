import Mathlib.Data.List.Forall2
import RiteImage.Data.Tree
import RiteImage.Proofs.Reads

/-! Layouts.
A layout says which bytes write a value that stands at a position. A reader accepts
a layout if it succeeds exactly on values so written and stops where they end. The
layout of a composed reader is composed in the same way. -/
namespace RiteImage

/-- Which bytes write a value at a position. -/
abbrev Layout (α : Type) : Type := Nat → α → List UInt8 → Prop

namespace Tag

def bytes (tag : Tag) : List UInt8 := [tag.first, tag.second, tag.third, tag.fourth]

@[simp] theorem length_bytes (tag : Tag) : tag.bytes.length = 4 := rfl

theorem ofBytes_toBytes (tag : Tag) : ofBytes tag.toBytes = tag := rfl

theorem bytes_ofBytes {chunk : ByteArray} (size : chunk.size = 4) :
    (ofBytes chunk).bytes = chunk.data.toList := by
  obtain ⟨⟨bytes⟩⟩ := chunk
  match bytes, size with
  | [_, _, _, _], _ => rfl

end Tag

namespace Layout

variable {α β : Type}

def chain (first : Layout α) (next : α → Layout β) : Layout β := fun start b bytes =>
  ∃ a head rest, bytes = head ++ rest ∧ first start a head ∧ next a (start + head.length) b rest

def each (entry : Layout α) : Layout (List α)
  | _, [], bytes => bytes = []
  | start, a :: values, bytes =>
    ∃ head rest, bytes = head ++ rest ∧ entry start a head ∧
      each entry (start + head.length) values rest

theorem each_iff_forall₂ {written : α → List UInt8 → Prop} {start : Nat} {values : List α}
    {bytes : List UInt8} :
    each (fun _ => written) start values bytes ↔
      ∃ segments, List.Forall₂ written values segments ∧ bytes = segments.flatten := by
  induction values generalizing start bytes with
  | nil => simp [each]
  | cons a values ih =>
    simp only [each, ih, List.forall₂_cons_left_iff]
    constructor
    · intro h
      obtain ⟨head, rest, rfl, first, segments, others, rfl⟩ := h
      exact ⟨head :: segments, ⟨head, segments, first, others, rfl⟩, rfl⟩
    · intro h
      obtain ⟨_, ⟨head, segments, first, others, rfl⟩, rfl⟩ := h
      exact ⟨head, segments.flatten, rfl, first, segments, others, rfl⟩

theorem each_iff_flatMap {encode : α → List UInt8} {start : Nat} {values : List α}
    {bytes : List UInt8} :
    each (fun _ a segment => segment = encode a) start values bytes ↔
      bytes = values.flatMap encode := by
  induction values generalizing start bytes with
  | nil => exact Iff.rfl
  | cons a values ih =>
    simp only [each, ih, List.flatMap_cons]
    constructor
    · intro h
      obtain ⟨head, rest, rfl, rfl, rfl⟩ := h
      rfl
    · rintro rfl
      exact ⟨_, _, rfl, rfl, rfl⟩

theorem each_congr {layout other : Layout α} {values : List α}
    (same : ∀ a ∈ values, ∀ start segment, layout start a segment ↔ other start a segment)
    (start : Nat) (bytes : List UInt8) :
    each layout start values bytes ↔ each other start values bytes := by
  induction values generalizing start bytes with
  | nil => exact Iff.rfl
  | cons a values ih =>
    have others := ih fun b member => same b (List.mem_cons_of_mem a member)
    simp only [each, same a List.mem_cons_self, others]

theorem each_and {layout : Layout α} {holds : α → Prop} {start : Nat} {values : List α}
    {bytes : List UInt8} :
    each (fun start a segment => layout start a segment ∧ holds a) start values bytes ↔
      each layout start values bytes ∧ ∀ a ∈ values, holds a := by
  induction values generalizing start bytes with
  | nil => simp [each]
  | cons a values ih =>
    simp only [each, ih, List.forall_mem_cons]
    constructor
    · intro given
      obtain ⟨head, rest, whole, ⟨first, h⟩, others, hs⟩ := given
      exact ⟨⟨head, rest, whole, first, others⟩, h, hs⟩
    · intro given
      obtain ⟨⟨head, rest, whole, first, others⟩, h, hs⟩ := given
      exact ⟨head, rest, whole, ⟨first, h⟩, others, hs⟩

end Layout

namespace Reader

variable {α β : Type}

/-- The distance to the next multiple is what is missing from the position. -/
theorem padding_eq (alignment : Nat) (positive : 0 < alignment) (start : Nat) :
    (padding alignment positive start : Int) = -(start : Int) % alignment := by
  have small := Nat.le_of_lt (Nat.mod_lt start positive)
  rw [padding, Int.natCast_emod, Int.natCast_sub small, Int.natCast_emod, Int.sub_emod_left,
    Int.neg_emod_eq_sub_emod, Int.sub_emod_emod, Int.neg_emod_eq_sub_emod]

/-- The reader succeeds exactly on what the layout writes, and consumes it. -/
def Accepts (r : Reader α) (layout : Layout α) : Prop :=
  ∀ bytes start a stop, start ≤ bytes.size →
    (Reads r bytes start a stop ↔
      ∃ segment, Stands bytes start segment ∧ layout start a segment ∧
        stop = start + segment.length)

theorem Accepts.congr {r : Reader α} {layout other : Layout α} (h : Accepts r layout)
    (same : ∀ start a segment, layout start a segment ↔ other start a segment) :
    Accepts r other := by
  intro bytes start a stop inside
  simp only [h bytes start a stop inside, same]

theorem Accepts.reads_iff {r : Reader α} {layout : Layout α} (h : Accepts r layout)
    {bytes : ByteArray} {start : Nat} (inside : start ≤ bytes.size) (a : α) (stop : Nat) :
    Reads r bytes start a stop ↔
      start ≤ stop ∧ stop ≤ bytes.size ∧ layout start a (between bytes start stop) := by
  rw [h bytes start a stop inside]
  constructor
  · intro h
    obtain ⟨segment, stands, written, rfl⟩ := h
    rw [stands.between_eq]
    exact ⟨Nat.le_add_right _ _, stands.le_size, written⟩
  · intro h
    obtain ⟨le, stop_le, written⟩ := h
    refine ⟨_, .of_between le stop_le, written, ?_⟩
    rw [length_between stop_le, Nat.add_sub_cancel' le]

theorem Accepts.le_size {r : Reader α} {layout : Layout α} (h : Accepts r layout)
    {bytes : ByteArray} {start stop : Nat} {a : α} (inside : start ≤ bytes.size)
    (read : Reads r bytes start a stop) : stop ≤ bytes.size :=
  ((h.reads_iff inside a stop).mp read).2.1

theorem Accepts.reads_of_stands {r : Reader α} {layout : Layout α} (h : Accepts r layout)
    {bytes : ByteArray} {start : Nat} {a : α} {segment : List UInt8}
    (stands : Stands bytes start segment) (written : layout start a segment) :
    Reads r bytes start a (start + segment.length) :=
  (h bytes start a _ (Nat.le_trans (Nat.le_add_right _ _) stands.le_size)).mpr
    ⟨segment, stands, written, rfl⟩

theorem accepts_still {r : Reader α} {holds : Nat → α → Prop}
    (still : ∀ bytes start a stop, Reads r bytes start a stop ↔ holds start a ∧ stop = start) :
    Accepts r fun start a segment => holds start a ∧ segment = [] := by
  intro bytes start a stop inside
  rw [still]
  constructor
  · intro given
    obtain ⟨h, rfl⟩ := given
    exact ⟨[], .nil inside, ⟨h, rfl⟩, rfl⟩
  · intro given
    obtain ⟨_, _, ⟨h, rfl⟩, rfl⟩ := given
    exact ⟨h, rfl⟩

theorem accepts_pure (a : α) : Accepts (pure a) fun _ b segment => b = a ∧ segment = [] :=
  accepts_still fun _ _ _ _ => reads_pure

theorem accepts_fail (e : Cause) : Accepts (fail e : Reader α) fun _ _ _ => False := by
  intro bytes start a stop _
  simp

theorem accepts_log (e : Event) : Accepts (log e) fun _ _ segment => segment = [] := by
  have still (bytes : ByteArray) (start : Nat) (u : Unit) (stop : Nat) :
      Reads (log e) bytes start u stop ↔ True ∧ stop = start := by
    rw [reads_log, true_and]
  exact (accepts_still still).congr fun _ _ _ => Iff.of_eq (true_and _)

theorem accepts_position :
    Accepts position fun start n segment => n = start ∧ segment = [] :=
  accepts_still fun _ _ _ _ => reads_position

theorem accepts_require (condition : Bool) (e : Cause) :
    Accepts (require condition e) fun _ _ segment => condition = true ∧ segment = [] :=
  accepts_still fun _ _ _ _ => reads_require

theorem accepts_take (count : Nat) :
    Accepts (take count) fun _ chunk segment =>
      chunk.size = count ∧ segment = chunk.data.toList := by
  intro bytes start chunk stop inside
  rw [reads_take]
  constructor
  · intro h
    obtain ⟨fits, rfl, rfl⟩ := h
    have size : (bytes.extract start (start + count)).size = count := by
      rw [ByteArray.size_extract]
      omega
    refine ⟨_, .of_between (Nat.le_add_right start count) (by omega), ⟨size, rfl⟩, ?_⟩
    rw [length_between (by omega), Nat.add_sub_cancel_left]
  · intro h
    obtain ⟨_, stands, ⟨rfl, rfl⟩, rfl⟩ := h
    have fits := stands.le_size
    have same := stands.between_eq
    rw [length_toList] at fits same ⊢
    refine ⟨by omega, ?_, rfl⟩
    exact ByteArray.ext (Array.toList_inj.mp same.symm)

theorem accepts_skip (count : Nat) : Accepts (skip count) fun _ _ segment =>
    segment.length = count := by
  intro bytes start u stop inside
  rw [reads_skip]
  constructor
  · intro h
    obtain ⟨fits, rfl⟩ := h
    have length : (between bytes start (start + count)).length = count := by
      rw [length_between (by omega), Nat.add_sub_cancel_left]
    exact ⟨_, .of_between (Nat.le_add_right start count) (by omega), length, by rw [length]⟩
  · intro h
    obtain ⟨segment, stands, rfl, rfl⟩ := h
    have := stands.le_size
    exact ⟨by omega, rfl⟩

theorem accepts_bind {r : Reader α} {next : α → Reader β} {first : Layout α}
    {rest : α → Layout β} (one : Accepts r first) (two : ∀ a, Accepts (next a) (rest a)) :
    Accepts (r >>= next) (Layout.chain first rest) := by
  intro bytes start b stop inside
  rw [reads_bind]
  constructor
  · intro given
    obtain ⟨a, middle, h, h'⟩ := given
    obtain ⟨head, stands, layout, rfl⟩ := (one bytes start a middle inside).mp h
    obtain ⟨tail, stands', layout', rfl⟩ := (two a bytes _ b stop stands.le_size).mp h'
    exact ⟨head ++ tail, Stands.append_iff.mpr ⟨stands, stands'⟩,
      ⟨a, head, tail, rfl, layout, layout'⟩, by rw [List.length_append, Nat.add_assoc]⟩
  · intro h
    obtain ⟨_, stands, ⟨a, head, tail, rfl, layout, layout'⟩, rfl⟩ := h
    obtain ⟨standsHead, standsTail⟩ := Stands.append_iff.mp stands
    refine ⟨a, start + head.length, ?_, ?_⟩
    · exact (one bytes start a _ inside).mpr ⟨head, standsHead, layout, rfl⟩
    · refine (two a bytes _ b _ standsHead.le_size).mpr ⟨tail, standsTail, layout', ?_⟩
      rw [List.length_append, Nat.add_assoc]

theorem accepts_bind_written {r : Reader α} {next : α → Reader β} {encode : α → List UInt8}
    {rest : α → Layout β} (one : Accepts r fun _ a segment => segment = encode a)
    (two : ∀ a, Accepts (next a) (rest a)) :
    Accepts (r >>= next) fun start b bytes =>
      ∃ a tail, bytes = encode a ++ tail ∧ rest a (start + (encode a).length) b tail := by
  refine Accepts.congr (accepts_bind one two) ?_
  intro start b bytes
  constructor
  · intro h
    obtain ⟨a, _, tail, rfl, rfl, behind⟩ := h
    exact ⟨a, tail, rfl, behind⟩
  · intro h
    obtain ⟨a, tail, rfl, behind⟩ := h
    exact ⟨a, _, tail, rfl, rfl, behind⟩

theorem accepts_bind_position {next : Nat → Reader β} {rest : Nat → Layout β}
    (two : ∀ here, Accepts (next here) (rest here)) :
    Accepts (position >>= next) fun start b bytes => rest start start b bytes := by
  refine Accepts.congr (accepts_bind accepts_position two) ?_
  intro start b bytes
  constructor
  · intro h
    obtain ⟨_, _, _, rfl, ⟨rfl, rfl⟩, behind⟩ := h
    exact behind
  · exact fun behind => ⟨start, [], bytes, rfl, ⟨rfl, rfl⟩, behind⟩

theorem accepts_bind_still {r : Reader α} {next : α → Reader β} {holds : Nat → α → Prop}
    {rest : α → Layout β} (one : Accepts r fun start a segment => holds start a ∧ segment = [])
    (two : ∀ a, Accepts (next a) (rest a)) :
    Accepts (r >>= next) fun start b bytes => ∃ a, holds start a ∧ rest a start b bytes := by
  refine Accepts.congr (accepts_bind one two) ?_
  intro start b bytes
  constructor
  · intro h
    obtain ⟨a, _, _, rfl, ⟨holds, rfl⟩, behind⟩ := h
    exact ⟨a, holds, behind⟩
  · intro h
    obtain ⟨a, holds, behind⟩ := h
    exact ⟨a, [], bytes, rfl, ⟨holds, rfl⟩, behind⟩

theorem accepts_bind_silent {r : Reader Unit} {next : Unit → Reader β} {rest : Layout β}
    (one : Accepts r fun _ _ segment => segment = []) (two : ∀ u, Accepts (next u) rest) :
    Accepts (r >>= next) rest := by
  refine Accepts.congr (accepts_bind one two) ?_
  intro start b bytes
  constructor
  · intro h
    obtain ⟨_, _, _, rfl, rfl, behind⟩ := h
    exact behind
  · exact fun behind => ⟨(), [], bytes, rfl, rfl, behind⟩

theorem accepts_bind_end {r : Reader α} {next : α → Reader β} {first : Layout α}
    {holds : α → Nat → β → Prop} (one : Accepts r first)
    (two : ∀ a, Accepts (next a) fun stop b segment => holds a stop b ∧ segment = []) :
    Accepts (r >>= next) fun start b bytes =>
      ∃ a, first start a bytes ∧ holds a (start + bytes.length) b := by
  refine Accepts.congr (accepts_bind one two) ?_
  intro start b bytes
  constructor
  · intro h
    obtain ⟨a, head, _, rfl, written, holds, rfl⟩ := h
    rw [List.append_nil]
    exact ⟨a, written, holds⟩
  · intro h
    obtain ⟨a, written, holds⟩ := h
    exact ⟨a, bytes, [], (List.append_nil _).symm, written, holds, rfl⟩

theorem accepts_map {r : Reader α} {layout : Layout α} (h : Accepts r layout) (f : α → β) :
    Accepts (f <$> r) fun start b segment => ∃ a, layout start a segment ∧ b = f a := by
  intro bytes start b stop inside
  rw [reads_map]
  constructor
  · intro given
    obtain ⟨a, run, rfl⟩ := given
    obtain ⟨segment, stands, written, rfl⟩ := (h bytes start a stop inside).mp run
    exact ⟨segment, stands, ⟨a, written, rfl⟩, rfl⟩
  · intro given
    obtain ⟨segment, stands, ⟨a, written, rfl⟩, rfl⟩ := given
    exact ⟨a, (h bytes start a _ inside).mpr ⟨segment, stands, written, rfl⟩, rfl⟩

theorem accepts_word (count : Nat) : Accepts (word count) fun _ value segment =>
    value < 256 ^ count ∧ segment = wordBytes count value := by
  refine Accepts.congr (accepts_bind_end (accepts_take count) fun chunk => accepts_pure _) ?_
  intro start value segment
  constructor
  · intro h
    obtain ⟨chunk, ⟨rfl, rfl⟩, rfl⟩ := h
    exact ⟨bigEndian_lt _, (wordBytes_bigEndian _).symm⟩
  · intro h
    obtain ⟨fits, rfl⟩ := h
    have size := length_wordBytes count value
    exact ⟨⟨⟨wordBytes count value⟩⟩, ⟨size, rfl⟩, (bigEndian_wordBytes fits).symm⟩

theorem accepts_ofWord {count : Nat} {ofNat : Nat → α} {toNat : α → Nat}
    (fits : ∀ a, toNat a < 256 ^ count) (ofNat_toNat : ∀ a, ofNat (toNat a) = a)
    (toNat_ofNat : ∀ n, n < 256 ^ count → toNat (ofNat n) = n) :
    Accepts (ofNat <$> word count) fun _ a segment => segment = wordBytes count (toNat a) := by
  refine Accepts.congr (accepts_map (accepts_word count) ofNat) ?_
  intro start a segment
  constructor
  · intro h
    obtain ⟨value, ⟨small, rfl⟩, rfl⟩ := h
    rw [toNat_ofNat value small]
  · intro h
    exact ⟨toNat a, ⟨fits a, h⟩, (ofNat_toNat a).symm⟩

theorem accepts_u8 : Accepts u8 fun _ byte segment => segment = [byte] :=
  (accepts_ofWord UInt8.toNat_lt (fun _ => UInt8.ofNat_toNat)
    fun _ small => UInt8.toNat_ofNat_of_lt' small).congr fun _ byte segment => by
      rw [wordBytes, wordBytes, List.nil_append, UInt8.ofNat_toNat]

theorem accepts_u16 : Accepts u16 fun _ value segment => segment = wordBytes 2 value.toNat :=
  accepts_ofWord UInt16.toNat_lt (fun _ => UInt16.ofNat_toNat)
    fun _ small => UInt16.toNat_ofNat_of_lt' small

theorem accepts_u32 : Accepts u32 fun _ value segment => segment = wordBytes 4 value.toNat :=
  accepts_ofWord UInt32.toNat_lt (fun _ => UInt32.ofNat_toNat)
    fun _ small => UInt32.toNat_ofNat_of_lt' small

theorem accepts_tag : Accepts tag fun _ t segment => segment = t.bytes := by
  refine Accepts.congr (accepts_map (accepts_take 4) Tag.ofBytes) ?_
  intro start t segment
  constructor
  · intro h
    obtain ⟨chunk, ⟨size, rfl⟩, rfl⟩ := h
    rw [Tag.bytes_ofBytes size]
  · intro h
    exact ⟨t.toBytes, ⟨rfl, h⟩, (Tag.ofBytes_toBytes t).symm⟩

theorem accepts_align (alignment : Nat) (positive : 0 < alignment) :
    Accepts (align alignment positive) fun start _ segment =>
      (segment.length : Int) = -(start : Int) % alignment := by
  refine Accepts.congr (accepts_bind_position fun start => accepts_skip _) ?_
  intro start u segment
  rw [← padding_eq alignment positive, Int.natCast_inj]

theorem accepts_replicate {r : Reader α} {layout : Layout α} (h : Accepts r layout)
    (count : Nat) : Accepts (replicate count r) fun start values segment =>
      values.length = count ∧ layout.each start values segment := by
  induction count with
  | zero =>
    rw [replicate_zero]
    refine Accepts.congr (accepts_pure []) ?_
    intro start values segment
    rw [List.length_eq_zero_iff]
    constructor
    · intro h
      obtain ⟨rfl, rfl⟩ := h
      exact ⟨rfl, rfl⟩
    · intro h
      obtain ⟨rfl, written⟩ := h
      exact ⟨rfl, written⟩
  | succ count ih =>
    rw [replicate_succ]
    refine Accepts.congr (accepts_bind h fun a => accepts_bind_end ih fun rest => accepts_pure _) ?_
    intro start values segment
    constructor
    · intro h
      obtain ⟨a, head, tail, rfl, first, others, ⟨length, written⟩, rfl⟩ := h
      exact ⟨congrArg Nat.succ length, head, tail, rfl, first, written⟩
    · intro h
      obtain ⟨length, written⟩ := h
      cases values with
      | nil => cases length
      | cons a others =>
        obtain ⟨head, tail, rfl, first, written⟩ := written
        exact ⟨a, head, tail, rfl, first, others, ⟨Nat.succ.inj length, written⟩, rfl⟩

theorem accepts_replicate_written {r : Reader α} {encode : α → List UInt8}
    (h : Accepts r fun _ a segment => segment = encode a) (count : Nat) :
    Accepts (replicate count r) fun _ values segment =>
      values.length = count ∧ segment = values.flatMap encode :=
  (accepts_replicate h count).congr fun _ _ _ => and_congr_right' Layout.each_iff_flatMap

theorem accepts_counted {γ : Type} {counter : Reader γ} {width : Nat} {ofNat : Nat → γ}
    {toNat : γ → Nat}
    (word : Accepts counter fun _ n segment => segment = wordBytes width (toNat n))
    (fits : ∀ n, toNat n < 256 ^ width)
    (toNat_ofNat : ∀ n, n < 256 ^ width → toNat (ofNat n) = n)
    {r : Reader α} {layout : Layout α} (h : Accepts r layout) :
    Accepts (do let n ← counter; replicate (toNat n) r) fun start values bytes =>
      values.length < 256 ^ width ∧
        ∃ entries, bytes = wordBytes width values.length ++ entries ∧
          layout.each (start + width) values entries := by
  refine Accepts.congr (accepts_bind_written word fun n => accepts_replicate h _) ?_
  intro start values bytes
  simp only [length_wordBytes]
  constructor
  · intro h
    obtain ⟨n, entries, rfl, length, each⟩ := h
    rw [length]
    exact ⟨fits n, entries, rfl, each⟩
  · intro h
    obtain ⟨short, entries, rfl, each⟩ := h
    have length := toNat_ofNat values.length short
    exact ⟨ofNat values.length, entries, by rw [length], length.symm, each⟩

end Reader

end RiteImage
