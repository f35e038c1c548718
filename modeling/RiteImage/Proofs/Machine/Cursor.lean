import Mathlib.Order.Bounds.Basic
import RiteImage.Proofs.Machine.Sections

namespace RiteImage.Cursor

open Reader

inductive Width
  | one
  | two
  | four

namespace Width

def count : Width → Nat
  | one => 1
  | two => 2
  | four => 4

def reader : Width → Reader Nat
  | one => UInt8.toNat <$> u8
  | two => UInt16.toNat <$> u16
  | four => UInt32.toNat <$> u32

def machine : Width → Machine Nat
  | one => UInt8.toNat <$> Machine.u8
  | two => UInt16.toNat <$> Machine.u16
  | four => UInt32.toNat <$> Machine.u32

end Width

inductive Operation
  | seek (target : UInt64)
  | skip (count : UInt64)
  | align (alignment : UInt64) (positive : 0 < alignment.toNat)
  | word (width : Width)
  | take (count : UInt64)
  | tag

inductive Answer
  | moved
  | number (n : Nat)
  | chunk (bytes : ByteArray)
  | tag (found : Tag)

namespace Operation

def reader : Operation → Reader Answer
  | seek target => (fun _ => .moved) <$> Reader.seek target.toNat
  | skip count => (fun _ => .moved) <$> Reader.skip count.toNat
  | align alignment positive => (fun _ => .moved) <$> Reader.align alignment.toNat positive
  | word width => .number <$> width.reader
  | take count => .chunk <$> Reader.take count.toNat
  | tag => .tag <$> Reader.tag

def machine : Operation → Machine Answer
  | seek target => (fun _ => .moved) <$> Machine.seek target
  | skip count => (fun _ => .moved) <$> Machine.skip count
  | align alignment _ => (fun _ => .moved) <$> Machine.align alignment
  | word width => .number <$> width.machine
  | take count => .chunk <$> Machine.take count
  | tag => .tag <$> Machine.tag

def LeadsTo : Operation → Nat → Nat → Prop
  | seek target, _, stop => stop = target.toNat
  | skip count, start, stop => stop = start + count.toNat
  | align alignment _, start, stop => IsLeast {n | start ≤ n ∧ alignment.toNat ∣ n} stop
  | word width, start, stop => stop = start + width.count
  | take count, start, stop => stop = start + count.toNat
  | tag, start, stop => stop = start + 4

/-- What an answer says of the bytes that were passed. -/
def Tells : Operation → Answer → List UInt8 → Prop
  | word _, .number n, passed => n = bigEndian passed
  | take _, .chunk bytes, passed => bytes.data.toList = passed
  | tag, .tag found, passed => found.bytes = passed
  | seek _, .moved, _ => True
  | skip _, .moved, _ => True
  | align _ _, .moved, _ => True
  | _, _, _ => False

/-- An operation on words assigns the position at its end, so a failure leaves it as it was. -/
def step (operation : Operation) (bytes : ByteArray) (here : UInt64) :
    Option (Except Cause Answer × UInt64) :=
  (operation.machine bytes here).map fun
    | .ok (a, there) => (.ok a, there)
    | .error e => (.error e, here)

end Operation

structure Moment where
  operation : Operation
  start : Nat
  result : Except Cause Answer
  position : Nat
  remaining : Nat
  more : Bool

def trace (bytes : ByteArray) : Nat → List Operation → List Moment
  | _, [] => []
  | start, operation :: rest =>
    let outcome := operation.reader bytes start
    ⟨operation, start, outcome.result, outcome.position, remaining bytes outcome.position,
      hasMore bytes outcome.position⟩ :: trace bytes outcome.position rest

/-- A trace on words. `none` means that an operation went wrong on the way. -/
def run (bytes : ByteArray) : UInt64 → List Operation → Option (List Moment)
  | _, [] => some []
  | here, operation :: rest => do
    let (result, there) ← operation.step bytes here
    let moments ← run bytes there rest
    some (⟨operation, here.toNat, result, there.toNat,
      (Word.saturatingSub (Word.size bytes) there).toNat, there < Word.size bytes⟩ :: moments)

/-- The operation got where it leads to, or it stayed. -/
structure Moment.Lawful (bytes : ByteArray) (m : Moment) : Prop where
  start_le : m.start ≤ bytes.size
  position_le : m.position ≤ bytes.size
  remaining : m.remaining = bytes.size - m.position
  more : m.more = true ↔ 0 < m.remaining
  outcome : ∃ target, m.operation.LeadsTo m.start target ∧
    (target ≤ bytes.size → m.position = target ∧
      ∃ a, m.result = .ok a ∧ m.operation.Tells a (between bytes m.start target)) ∧
    (bytes.size < target → m.position = m.start ∧
      m.result = .error (.truncated m.start (target - m.start) (bytes.size - m.start)))

variable {α β : Type} {bytes : ByteArray} {start target : Nat}

/-! Readers that lead to one position. -/

structure Reaches (bytes : ByteArray) (start target : Nat) (tells : α → List UInt8 → Prop)
    (outcome : Outcome α) : Prop where
  arrived : target ≤ bytes.size →
    outcome.position = target ∧ ∃ a, outcome.result = .ok a ∧ tells a (between bytes start target)
  stayed : bytes.size < target → outcome = truncated bytes start (target - start)

section Reaches

variable {tells : α → List UInt8 → Prop} {told : β → List UInt8 → Prop}

theorem Reaches.map {r : Reader α} {f : α → β} (h : Reaches bytes start target tells (r bytes start))
    (weaken : ∀ a passed, tells a passed → told (f a) passed) :
    Reaches bytes start target told ((f <$> r) bytes start) where
  arrived inside := by
    obtain ⟨position, a, ok, tell⟩ := h.arrived inside
    obtain ⟨yields, stop⟩ : Reads (f <$> r) bytes start (f a) target :=
      reads_map.mpr ⟨a, ⟨ok, position⟩, rfl⟩
    exact ⟨stop, f a, yields, weaken a _ tell⟩
  stayed beyond := bind_of_error (h.stayed beyond)

theorem Reaches.position_of_error {outcome : Outcome α} {e : Cause}
    (h : Reaches bytes start target tells outcome) (failed : outcome.result = .error e) :
    outcome.position = start := by
  rcases Nat.lt_or_ge bytes.size target with beyond | inside
  · rw [h.stayed beyond]
    rfl
  · obtain ⟨-, a, ok, -⟩ := h.arrived inside
    cases ok.symm.trans failed

theorem Reaches.position_le {outcome : Outcome α}
    (h : Reaches bytes start target tells outcome) (inside : start ≤ bytes.size) :
    outcome.position ≤ bytes.size := by
  rcases Nat.lt_or_ge bytes.size target with beyond | within
  · rw [h.stayed beyond]
    exact inside
  · rw [(h.arrived within).1]
    exact within

end Reaches

theorem reaches_seek (bytes : ByteArray) (start target : Nat) :
    Reaches bytes start target (fun _ _ => True) (seek target bytes start) where
  arrived inside := by
    obtain ⟨ok, position⟩ : Reads (seek target) bytes start () target :=
      reads_seek.mpr ⟨inside, rfl⟩
    exact ⟨position, (), ok, trivial⟩
  stayed beyond := if_neg (Nat.not_le.mpr beyond)

theorem reaches_skip (inside : start ≤ bytes.size) (count : Nat) :
    Reaches bytes start (start + count) (fun _ _ => True) (skip count bytes start) where
  arrived within := by
    obtain ⟨ok, position⟩ : Reads (skip count) bytes start () (start + count) :=
      reads_skip.mpr ⟨Nat.le_sub_of_add_le' within, rfl⟩
    exact ⟨position, (), ok, trivial⟩
  stayed beyond := by
    rw [Nat.add_sub_cancel_left]
    exact if_neg (not_le_remaining inside beyond)

theorem reaches_take (inside : start ≤ bytes.size) (count : Nat) :
    Reaches bytes start (start + count)
      (fun chunk passed => chunk.data.toList = passed ∧ passed.length = count)
      (take count bytes start) where
  arrived within := by
    obtain ⟨ok, position⟩ : Reads (take count) bytes start _ (start + count) :=
      reads_take.mpr ⟨Nat.le_sub_of_add_le' within, rfl, rfl⟩
    have length : (between bytes start (start + count)).length = count := by
      rw [length_between within, Nat.add_sub_cancel_left]
    exact ⟨position, _, ok, rfl, length⟩
  stayed beyond := by
    rw [Nat.add_sub_cancel_left]
    exact if_neg (not_le_remaining inside beyond)

theorem reaches_word (inside : start ≤ bytes.size) (count : Nat) :
    Reaches bytes start (start + count)
      (fun n passed => n = bigEndian passed ∧ n < 256 ^ count) (word count bytes start) := by
  refine (reaches_take inside count).map fun chunk passed told => ?_
  obtain ⟨rfl, rfl⟩ := told
  exact ⟨rfl, bigEndian_lt _⟩

theorem reaches_width (inside : start ≤ bytes.size) (width : Width) :
    Reaches bytes start (start + width.count) (fun n passed => n = bigEndian passed)
      (width.reader bytes start) := by
  cases width with
  | one =>
    refine ((reaches_word inside 1).map fun n passed told => ?_ :
      Reaches _ _ _ (fun (n : UInt8) passed => n.toNat = bigEndian passed) _).map fun _ _ => id
    rw [← told.1]
    exact UInt8.toNat_ofNat_of_lt' told.2
  | two =>
    refine ((reaches_word inside 2).map fun n passed told => ?_ :
      Reaches _ _ _ (fun (n : UInt16) passed => n.toNat = bigEndian passed) _).map fun _ _ => id
    rw [← told.1]
    exact UInt16.toNat_ofNat_of_lt' told.2
  | four =>
    refine ((reaches_word inside 4).map fun n passed told => ?_ :
      Reaches _ _ _ (fun (n : UInt32) passed => n.toNat = bigEndian passed) _).map fun _ _ => id
    rw [← told.1]
    exact UInt32.toNat_ofNat_of_lt' told.2

theorem reaches_tag (inside : start ≤ bytes.size) :
    Reaches bytes start (start + 4) (fun found passed => found.bytes = passed)
      (Reader.tag bytes start) := by
  refine (reaches_take inside 4).map fun chunk passed told => ?_
  obtain ⟨rfl, size⟩ := told
  exact Tag.bytes_ofBytes size

theorem isLeast_padding (alignment : Nat) (positive : 0 < alignment) (start : Nat) :
    IsLeast {n | start ≤ n ∧ alignment ∣ n} (start + padding alignment positive start) := by
  have exact := padding_eq alignment positive start
  constructor
  · refine ⟨Nat.le_add_right _ _, Int.natCast_dvd_natCast.mp (Int.dvd_of_emod_eq_zero ?_)⟩
    rw [Int.natCast_add, exact, Int.add_emod_emod, Int.add_right_neg, Int.zero_emod]
  · rintro n ⟨le, k, rfl⟩
    -- The distance to any multiple is congruent to the padding.
    have same : padding alignment positive start = (alignment * k - start) % alignment := by
      apply Int.natCast_inj.mp
      rw [exact, Int.natCast_emod, Int.natCast_sub le, Int.natCast_mul, Int.sub_eq_add_neg,
        Int.mul_add_emod_self_left]
    have small := Nat.mod_le (alignment * k - start) alignment
    omega

theorem reaches_align (inside : start ≤ bytes.size) (alignment : Nat) (positive : 0 < alignment) :
    Reaches bytes start (start + padding alignment positive start) (fun _ _ => True)
      (align alignment positive bytes start) := by
  rw [align, Machine.run_position_bind]
  exact reaches_skip inside _

theorem reaches_operation (inside : start ≤ bytes.size) (operation : Operation) :
    ∃ target, operation.LeadsTo start target ∧
      Reaches bytes start target operation.Tells (operation.reader bytes start) := by
  cases operation with
  | seek target => exact ⟨_, rfl, (reaches_seek bytes start _).map fun _ _ => id⟩
  | skip count => exact ⟨_, rfl, (reaches_skip inside _).map fun _ _ => id⟩
  | align alignment positive =>
    exact ⟨_, isLeast_padding _ positive start, (reaches_align inside _ _).map fun _ _ => id⟩
  | word width => exact ⟨_, rfl, (reaches_width inside width).map fun _ _ => id⟩
  | take count => exact ⟨_, rfl, (reaches_take inside _).map fun _ _ => And.left⟩
  | tag => exact ⟨_, rfl, (reaches_tag inside).map fun _ _ => id⟩

theorem lawful_of_trace (inside : start ≤ bytes.size) (operations : List Operation) :
    ∀ m ∈ trace bytes start operations, m.Lawful bytes := by
  induction operations generalizing start with
  | nil => exact fun m mem => nomatch mem
  | cons operation rest ih =>
    obtain ⟨target, leads, reaches⟩ := reaches_operation inside operation
    have within := reaches.position_le inside
    refine List.forall_mem_cons.mpr ⟨⟨inside, within, rfl, ?_, target, leads, ?_, ?_⟩, ih within⟩
    · rw [hasMore, decide_eq_true_iff, remaining, Nat.sub_pos_iff_lt]
    · exact reaches.arrived
    · intro beyond
      rw [reaches.stayed beyond]
      exact ⟨rfl, rfl⟩

/-! The same on words. -/

section Words

variable {here : UInt64} (small : bytes.size < 2 ^ 63)
include small

/-- Operations other than `seek` do not go back, so the machines of the readers are at hand. -/
theorem mirrors_operation (inside : here.toNat ≤ bytes.size) {operation : Operation}
    (forward : ∀ target, operation ≠ .seek target) :
    Machine.Mirrors bytes here (operation.machine bytes here)
      (operation.reader bytes here.toNat) := by
  have simulates : Machine.Simulates 0 operation.machine operation.reader := by
    cases operation with
    | seek target => exact absurd rfl (forward target)
    | skip count => exact (Machine.simulates_skip 0 count).map _
    | align alignment positive => exact (Machine.simulates_align 0 positive).map _
    | word width =>
      cases width with
      | one => exact ((Machine.simulates_u8 0).map _).map _
      | two => exact ((Machine.simulates_u16 0).map _).map _
      | four => exact ((Machine.simulates_u32 0).map _).map _
    | take count => exact (Machine.simulates_take 0 count).map _
    | tag => exact (Machine.simulates_tag 0).map _
  exact simulates bytes here small (Nat.zero_le _) inside

theorem step_seek (target : UInt64) :
    ∃ there, (Operation.seek target).step bytes here =
        some (((Operation.seek target).reader bytes here.toNat).result, there) ∧
      there.toNat = ((Operation.seek target).reader bytes here.toNat).position := by
  rcases Nat.lt_or_ge bytes.size target.toNat with beyond | inside
  · have ran : (Operation.seek target).machine bytes here = _ :=
      Machine.bind_of_error (Machine.seek_of_lt small beyond)
    have read : (Operation.seek target).reader bytes here.toNat = _ :=
      bind_of_error ((reaches_seek bytes here.toNat target.toNat).stayed beyond)
    rw [Operation.step, ran, read]
    exact ⟨here, rfl, rfl⟩
  · have ran : (Operation.seek target).machine bytes here = _ :=
      Machine.bind_of_ok (Machine.seek_of_le small inside)
    obtain ⟨ok, position⟩ :
        Reads (Operation.seek target).reader bytes here.toNat .moved target.toNat :=
      reads_map.mpr ⟨(), reads_seek.mpr ⟨inside, rfl⟩, rfl⟩
    rw [Operation.step, ran, ok, position]
    exact ⟨target, rfl, rfl⟩

theorem step_eq (inside : here.toNat ≤ bytes.size) (operation : Operation) :
    ∃ there, operation.step bytes here =
        some ((operation.reader bytes here.toNat).result, there) ∧
      there.toNat = (operation.reader bytes here.toNat).position := by
  by_cases back : ∃ target, operation = .seek target
  · obtain ⟨target, rfl⟩ := back
    exact step_seek small target
  · obtain ⟨target, -, reaches⟩ := reaches_operation inside operation
    cases mirrors_operation small inside fun target same => back ⟨target, same⟩ with
    | ok a there events ran read le within =>
      rw [Operation.step, ran, read]
      exact ⟨there, rfl, rfl⟩
    | error e stop events ran read =>
      have stay := reaches.position_of_error (by rw [read])
      rw [Operation.step, ran, stay, read]
      exact ⟨here, rfl, rfl⟩

theorem run_eq_trace (inside : here.toNat ≤ bytes.size) (operations : List Operation) :
    run bytes here operations = some (trace bytes here.toNat operations) := by
  induction operations generalizing here with
  | nil => rfl
  | cons operation rest ih =>
    obtain ⟨there, ran, position⟩ := step_eq small inside operation
    obtain ⟨target, -, reaches⟩ := reaches_operation inside operation
    have within : there.toNat ≤ bytes.size := position ▸ reaches.position_le inside
    have left : (Word.saturatingSub (Word.size bytes) there).toNat = remaining bytes there.toNat :=
      Machine.toNat_remaining small
    have more : decide (there < Word.size bytes) = hasMore bytes there.toNat := by
      rw [hasMore, decide_eq_decide, UInt64.lt_iff_toNat_lt, Word.toNat_size small]
    rw [run, ran, trace, ← position]
    change (run bytes there rest).bind _ = _
    rw [ih within, left, more]
    rfl

end Words

theorem map_operation_trace (bytes : ByteArray) (start : Nat) (operations : List Operation) :
    (trace bytes start operations).map Moment.operation = operations := by
  induction operations generalizing start with
  | nil => rfl
  | cons operation rest ih => rw [trace, List.map_cons, ih]

/-- Every sequence of operations from the start of a buffer has lawful moments, one for each of them.
On words it has the same moments, and no operation goes wrong. -/
theorem run_lawful (small : bytes.size < 2 ^ 63) (operations : List Operation) :
    run bytes 0 operations = some (trace bytes 0 operations) ∧
      (trace bytes 0 operations).map Moment.operation = operations ∧
      ∀ m ∈ trace bytes 0 operations, m.Lawful bytes :=
  ⟨run_eq_trace small (Nat.zero_le _) operations, map_operation_trace bytes 0 operations,
    lawful_of_trace (Nat.zero_le _) operations⟩

def shortBytes : ByteArray := ⟨#[0x49, 0x52, 0x45, 0x50, 0, 0, 0x10]⟩

def farOperations : List Operation :=
  [.tag, .word .two, .skip 0xFFFFFFFFFFFFFFFF, .align 0x8000000000000000 (by decide),
    .seek 0xFFFFFFFFFFFFFFFF, .take 0xFFFFFFFFFFFFFFFA, .word .four, .take 1, .take 0, .seek 2]

theorem run_lawful_far : shortBytes.size < 2 ^ 63 ∧
    run shortBytes 0 farOperations = some (trace shortBytes 0 farOperations) ∧
    (trace shortBytes 0 farOperations).map Moment.position = [4, 6, 6, 6, 6, 6, 6, 7, 7, 2] ∧
    ∀ m ∈ trace shortBytes 0 farOperations, m.Lawful shortBytes := by
  have small : shortBytes.size < 2 ^ 63 := by decide
  obtain ⟨ran, -, lawful⟩ := run_lawful small farOperations
  exact ⟨small, ran, by decide, lawful⟩

end RiteImage.Cursor
