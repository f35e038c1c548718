import Mathlib.Logic.Unique
import RiteImage.Header
import RiteImage.Proofs.Segment
import RiteImage.Reader.Laws

/-! Success of readers.
A reader that succeeds yields one value and one end, and a composed reader succeeds
exactly if its parts do, each from where the one before it stopped. -/
namespace RiteImage.Reader

variable {α β : Type} {bytes : ByteArray} {start stop : Nat}

/-- From `start` the reader yields `a` and stops at `stop`. -/
def Reads (r : Reader α) (bytes : ByteArray) (start : Nat) (a : α) (stop : Nat) : Prop :=
  (r bytes start).result = .ok a ∧ (r bytes start).position = stop

theorem Reads.unique {r : Reader α} {a b : α} {stop' : Nat} (one : Reads r bytes start a stop)
    (two : Reads r bytes start b stop') : a = b ∧ stop = stop' :=
  ⟨Except.ok.inj (one.1.symm.trans two.1), one.2.symm.trans two.2⟩

theorem reads_of_eq {r : Reader α} {a : α} {events : List Event}
    (run : r bytes start = ⟨.ok a, stop, events⟩) : Reads r bytes start a stop := by
  rw [Reads, run]
  exact ⟨rfl, rfl⟩

theorem Reads.eq {r : Reader α} {a : α} (h : Reads r bytes start a stop) :
    ∃ events, r bytes start = ⟨.ok a, stop, events⟩ := by
  obtain ⟨ok, rfl⟩ := h
  exact ⟨(r bytes start).events, by rw [← ok]⟩

@[simp] theorem reads_pure {a b : α} :
    Reads (pure a) bytes start b stop ↔ b = a ∧ stop = start := by
  constructor
  · intro h
    obtain ⟨ok, rfl⟩ := h
    exact ⟨(Except.ok.inj ok).symm, rfl⟩
  · intro h
    obtain ⟨rfl, rfl⟩ := h
    exact ⟨rfl, rfl⟩

@[simp] theorem reads_fail {e : Cause} {a : α} : ¬ Reads (fail e) bytes start a stop := by
  intro h
  cases h.1

@[simp] theorem reads_log {e : Event} {u : Unit} :
    Reads (log e) bytes start u stop ↔ stop = start :=
  ⟨fun h => h.2.symm, fun h => ⟨rfl, h.symm⟩⟩

@[simp] theorem reads_buffer {whole : ByteArray} :
    Reads buffer bytes start whole stop ↔ whole = bytes ∧ stop = start :=
  ⟨fun h => ⟨(Except.ok.inj h.1).symm, h.2.symm⟩, fun h => ⟨by rw [h.1]; rfl, h.2.symm⟩⟩

@[simp] theorem reads_position {n : Nat} :
    Reads position bytes start n stop ↔ n = start ∧ stop = start :=
  ⟨fun h => ⟨(Except.ok.inj h.1).symm, h.2.symm⟩, fun h => ⟨by rw [h.1]; rfl, h.2.symm⟩⟩

theorem reads_bind {r : Reader α} {next : α → Reader β} {b : β} :
    Reads (r >>= next) bytes start b stop ↔
      ∃ a middle, Reads r bytes start a middle ∧ Reads (next a) bytes middle b stop := by
  rcases first : r bytes start with ⟨e | a, middle, events⟩
  · constructor
    · intro h
      rw [Reads, bind_of_error first] at h
      cases h.1
    · intro given
      obtain ⟨a, middle', h, _⟩ := given
      rw [Reads, first] at h
      cases h.1
  · rw [Reads, bind_of_ok first]
    constructor
    · exact fun h => ⟨a, middle, reads_of_eq first, h⟩
    · intro given
      obtain ⟨a', middle', h, rest⟩ := given
      obtain ⟨rfl, rfl⟩ := (reads_of_eq first).unique h
      exact rest

theorem result_bind {r : Reader α} {next : α → Reader β} {a : α} {middle : Nat}
    (first : Reads r bytes start a middle) :
    ((r >>= next) bytes start).result = (next a bytes middle).result := by
  obtain ⟨events, run⟩ := first.eq
  rw [bind_of_ok run]

theorem result_bind_of_error {r : Reader α} {next : α → Reader β} {e : Cause}
    (first : (r bytes start).result = .error e) :
    ((r >>= next) bytes start).result = .error e := by
  rcases run : r bytes start with ⟨result, stop, events⟩
  rw [run] at first
  cases first
  rw [bind_of_error run]

theorem reads_map {r : Reader α} {f : α → β} {b : β} :
    Reads (f <$> r) bytes start b stop ↔ ∃ a, Reads r bytes start a stop ∧ b = f a := by
  change Reads (r >>= fun a => pure (f a)) bytes start b stop ↔ _
  rw [reads_bind]
  constructor
  · intro given
    obtain ⟨a, middle, h, rest⟩ := given
    obtain ⟨rfl, rfl⟩ := reads_pure.mp rest
    exact ⟨a, h, rfl⟩
  · intro given
    obtain ⟨a, h, rfl⟩ := given
    exact ⟨a, stop, h, reads_pure.mpr ⟨rfl, rfl⟩⟩

@[simp] theorem reads_require {condition : Bool} {e : Cause} {u : Unit} :
    Reads (require condition e) bytes start u stop ↔ condition = true ∧ stop = start := by
  cases condition with
  | false => simp [require]
  | true => simp [require]

@[simp] theorem reads_skip {count : Nat} {u : Unit} :
    Reads (skip count) bytes start u stop ↔
      count ≤ bytes.size - start ∧ stop = start + count := by
  by_cases fits : count ≤ bytes.size - start
  · simp [Reads, skip, remaining, fits, eq_comm]
  · simp [Reads, skip, remaining, fits, truncated]

@[simp] theorem reads_seek {target : Nat} {u : Unit} :
    Reads (seek target) bytes start u stop ↔ target ≤ bytes.size ∧ stop = target := by
  by_cases fits : target ≤ bytes.size
  · simp [Reads, seek, fits, eq_comm]
  · simp [Reads, seek, fits, truncated]

@[simp] theorem reads_take {count : Nat} {chunk : ByteArray} :
    Reads (take count) bytes start chunk stop ↔
      count ≤ bytes.size - start ∧ chunk = bytes.extract start (start + count) ∧
        stop = start + count := by
  by_cases fits : count ≤ bytes.size - start
  · simp [Reads, take, remaining, fits, eq_comm]
  · simp [Reads, take, remaining, fits, truncated]

theorem not_le_remaining {count : Nat} (inside : start ≤ bytes.size)
    (beyond : bytes.size < start + count) : ¬ count ≤ remaining bytes start := by
  rw [remaining]
  omega

theorem lookahead_of_ok {r : Reader α} {a : α} {events : List Event}
    (run : r bytes start = ⟨.ok a, stop, events⟩) :
    lookahead r bytes start = ⟨.ok a, start, events⟩ := by
  simp only [lookahead, run]

theorem lookahead_of_error {r : Reader α} {e : Cause} {events : List Event}
    (run : r bytes start = ⟨.error e, stop, events⟩) :
    lookahead r bytes start = ⟨.error e, stop, events⟩ := by
  simp only [lookahead, run]

theorem reads_lookahead {r : Reader α} {a : α} :
    Reads (lookahead r) bytes start a stop ↔
      (∃ middle, Reads r bytes start a middle) ∧ stop = start := by
  rcases first : r bytes start with ⟨e | b, middle, events⟩
  · simp [Reads, lookahead, first]
  · simp [Reads, lookahead, first, eq_comm]

/-! What comes before the rest of a reader without a value of its own. -/

section First

variable {next : Unit → Reader β} {b : β}

@[simp] theorem reads_log_bind {e : Event} :
    Reads (log e >>= next) bytes start b stop ↔ Reads (next ()) bytes start b stop := by
  simp [reads_bind, Unique.exists_iff]

@[simp] theorem reads_require_bind {condition : Bool} {e : Cause} :
    Reads (require condition e >>= next) bytes start b stop ↔
      condition = true ∧ Reads (next ()) bytes start b stop := by
  simp [reads_bind, Unique.exists_iff]

@[simp] theorem reads_skip_bind {count : Nat} :
    Reads (skip count >>= next) bytes start b stop ↔
      count ≤ bytes.size - start ∧ Reads (next ()) bytes (start + count) b stop := by
  simp [reads_bind, Unique.exists_iff]

@[simp] theorem reads_seek_bind {target : Nat} :
    Reads (seek target >>= next) bytes start b stop ↔
      target ≤ bytes.size ∧ Reads (next ()) bytes target b stop := by
  simp [reads_bind, Unique.exists_iff]

end First

@[simp] theorem reads_position_bind {next : Nat → Reader β} {b : β} :
    Reads (position >>= next) bytes start b stop ↔ Reads (next start) bytes start b stop := by
  simp [reads_bind]

section Content

variable {declared : UInt16} {size : UInt32} {next : Unit → Reader β}

theorem checkContent_eq (declared : UInt16) (size : UInt32) :
    let computed := Checksum.compute (Header.content bytes size).data.toList 0
    Header.checkContent declared size bytes start =
      require (computed = declared) (.wrongChecksum declared computed) bytes start :=
  bind_of_ok (rfl : buffer bytes start = ⟨.ok bytes, start, []⟩)

theorem checkContent_bind (declared : UInt16) (size : UInt32) (next : Unit → Reader β) :
    let computed := Checksum.compute (Header.content bytes size).data.toList 0
    (Header.checkContent declared size >>= next) bytes start =
      (require (computed = declared) (.wrongChecksum declared computed) >>= next) bytes start := by
  intro computed
  change Reader.bind _ next bytes start = Reader.bind _ next bytes start
  rw [Reader.bind, checkContent_eq, Reader.bind]

@[simp] theorem reads_checkContent_bind {b : β} :
    Reads (Header.checkContent declared size >>= next) bytes start b stop ↔
      Checksum.compute (Header.content bytes size).data.toList 0 = declared ∧
        Reads (next ()) bytes start b stop := by
  simp [Header.checkContent, reads_bind, Unique.exists_iff]

end Content

theorem reads_lookahead_bind {r : Reader α} {next : α → Reader β} {b : β} :
    Reads (lookahead r >>= next) bytes start b stop ↔
      ∃ a, (∃ middle, Reads r bytes start a middle) ∧ Reads (next a) bytes start b stop := by
  simp [reads_bind, reads_lookahead, and_assoc]

theorem reads_runAt {r : Reader α} {a : α} :
    (runAt r bytes start).result = .ok a ∧ (runAt r bytes start).position = stop ↔
      start ≤ bytes.size ∧ Reads r bytes start a stop := by
  change Reads (seek start >>= fun _ => r) bytes 0 a stop ↔ _
  rw [reads_seek_bind]

end RiteImage.Reader
