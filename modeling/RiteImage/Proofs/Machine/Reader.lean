import RiteImage.Proofs.Machine.Word
import RiteImage.Proofs.Reads
import RiteImage.Reader.Primitives

/-! Readers on 64-bit words.
They do what the readers over a buffer do, but the position is a word, and operations on
the way can go wrong. A machine that simulates a reader yields what the reader yields, so
none of its operations goes wrong. Simulation is kept when readers are put together. -/
namespace RiteImage

/-- A run from a position. `none` means that an operation went wrong on the way. -/
def Machine (α : Type) : Type := ByteArray → UInt64 → Option (Except Cause (α × UInt64))

namespace Machine

variable {α β : Type}

protected def pure (a : α) : Machine α := fun _ here => some (.ok (a, here))

protected def bind (m : Machine α) (next : α → Machine β) : Machine β := fun bytes here =>
  match m bytes here with
  | some (.ok (a, there)) => next a bytes there
  | some (.error e) => some (.error e)
  | none => none

instance : Monad Machine where
  pure := Machine.pure
  bind := Machine.bind

def fail (e : Cause) : Machine α := fun _ _ => some (.error e)

def attempt (value : Option α) : Machine α := fun _ here => value.map fun a => .ok (a, here)

def position : Machine UInt64 := fun _ here => some (.ok (here, here))

def buffer : Machine ByteArray := fun bytes here => some (.ok (bytes, here))

def moveTo (there : UInt64) : Machine Unit := fun _ _ => some (.ok ((), there))

def require (condition : Bool) (e : Cause) : Machine Unit :=
  if condition then pure () else fail e

def remaining : Machine UInt64 := do
  let bytes ← buffer
  let here ← position
  pure (Word.saturatingSub (Word.size bytes) here)

def truncated (needed : UInt64) : Machine α := do
  let here ← position
  let available ← remaining
  fail (.truncated here.toNat needed.toNat available.toNat)

def seek (target : UInt64) : Machine Unit := do
  let bytes ← buffer
  let here ← position
  if Word.size bytes < target then truncated (Word.saturatingSub target here) else moveTo target

def skip (count : UInt64) : Machine Unit := do
  let available ← remaining
  if available < count then truncated count
  else
    let here ← position
    let there ← attempt (Word.add here count)
    moveTo there

/-- The slice and the move compute its end, each for itself. -/
def take (count : UInt64) : Machine ByteArray := do
  let available ← remaining
  if available < count then truncated count
  else
    let bytes ← buffer
    let here ← position
    let stop ← attempt (Word.add here count)
    let chunk ← attempt (Word.slice bytes here stop)
    let there ← attempt (Word.add here count)
    moveTo there
    pure chunk

def padding (alignment : UInt64) : Machine UInt64 := do
  let here ← position
  let excess ← attempt (Word.mod here alignment)
  let missing ← attempt (Word.sub alignment excess)
  attempt (Word.mod missing alignment)

def align (alignment : UInt64) : Machine Unit := do
  let count ← padding alignment
  skip count

def word (count : UInt64) : Machine Nat := do
  let chunk ← take count
  pure (bigEndian chunk.data.toList)

def u8 : Machine UInt8 := UInt8.ofNat <$> word 1

def u16 : Machine UInt16 := UInt16.ofNat <$> word 2

def u32 : Machine UInt32 := UInt32.ofNat <$> word 4

def tag : Machine Tag := do
  let chunk ← take 4
  attempt (if chunk.size = 4 then some (Tag.ofBytes chunk) else none)

def checkSize (rules : Strictness) (part : Part) (start : UInt64) (declared : UInt32) :
    Machine Unit :=
  if rules.enforceSizes then do
    let stop ← position
    let consumed ← attempt (Word.sub stop start)
    require (consumed = declared.toUInt64)
      (.malformed (.sizeMismatch part start.toNat declared.toNat consumed.toNat))
  else pure ()

@[reducible] def primitives : Primitives Machine UInt64 where
  position := position
  offset := UInt64.toNat
  fail := fail
  require := require
  log _ := pure ()
  u8 := u8
  u16 := u16
  u32 := u32
  tag := tag
  take length := take length.toUInt64
  skipByte := skip 1
  alignWord := align 4
  replicate := replicateM
  checkSize := checkSize

/-- A run that did not go wrong, with the result of a reader; a success moves forward within the
buffer. -/
inductive Mirrors (bytes : ByteArray) (here : UInt64)
    (run : Option (Except Cause (α × UInt64))) (outcome : Outcome α) : Prop
  | ok (a : α) (there : UInt64) (events : List Event) (ran : run = some (.ok (a, there)))
      (read : outcome = ⟨.ok a, there.toNat, events⟩) (le : here.toNat ≤ there.toNat)
      (inside : there.toNat ≤ bytes.size)
  | error (e : Cause) (stop : Nat) (events : List Event) (ran : run = some (.error e))
      (read : outcome = ⟨.error e, stop, events⟩)

/-- From `low` on the machine does what the reader does, in every buffer of less than `2 ^ 63`
bytes. -/
def Simulates (low : Nat) (m : Machine α) (r : Reader α) : Prop :=
  ∀ bytes here, bytes.size < 2 ^ 63 → low ≤ here.toNat → here.toNat ≤ bytes.size →
    Mirrors bytes here (m bytes here) (r bytes here.toNat)

variable {bytes : ByteArray} {here there : UInt64} {low : Nat}

theorem run_position_bind {next : Nat → Reader β} {start : Nat} :
    (Reader.position >>= next) bytes start = next start bytes start := by
  rw [Reader.bind_of_ok (rfl : Reader.position bytes start = ⟨.ok start, start, []⟩)]
  rfl

theorem bind_of_ok {m : Machine α} {next : α → Machine β} {a : α}
    (ran : m bytes here = some (.ok (a, there))) :
    (m >>= next) bytes here = next a bytes there := by
  change Machine.bind m next bytes here = _
  simp only [Machine.bind, ran]

theorem bind_of_error {m : Machine α} {next : α → Machine β} {e : Cause}
    (ran : m bytes here = some (.error e)) : (m >>= next) bytes here = some (.error e) := by
  change Machine.bind m next bytes here = _
  simp only [Machine.bind, ran]

theorem position_bind {next : UInt64 → Machine β} :
    (position >>= next) bytes here = next here bytes here := rfl

theorem buffer_bind {next : ByteArray → Machine β} :
    (buffer >>= next) bytes here = next bytes bytes here := rfl

theorem moveTo_bind {next : Unit → Machine β} :
    (moveTo there >>= next) bytes here = next () bytes there := rfl

theorem remaining_bind {next : UInt64 → Machine β} :
    (remaining >>= next) bytes here =
      next (Word.saturatingSub (Word.size bytes) here) bytes here := rfl

theorem attempt_bind {value : Option α} {next : α → Machine β} {a : α} (exact : value = some a) :
    (attempt value >>= next) bytes here = next a bytes here := by
  subst exact
  rfl

theorem toNat_remaining (small : bytes.size < 2 ^ 63) :
    (Word.saturatingSub (Word.size bytes) here).toNat = Reader.remaining bytes here.toNat := by
  rw [Word.toNat_saturatingSub, Word.toNat_size small]
  rfl

theorem mirrors_truncated (small : bytes.size < 2 ^ 63) (count : UInt64) :
    Mirrors bytes here (truncated count bytes here : Option (Except Cause (α × UInt64)))
      (Reader.truncated bytes here.toNat count.toNat) := by
  have run : (truncated count bytes here : Option (Except Cause (α × UInt64))) =
      some (.error (.truncated here.toNat count.toNat
        (Word.saturatingSub (Word.size bytes) here).toNat)) := rfl
  rw [toNat_remaining small] at run
  exact .error _ _ _ run rfl

theorem remaining_lt_iff (small : bytes.size < 2 ^ 63) {count : UInt64} :
    Word.saturatingSub (Word.size bytes) here < count ↔
      ¬ count.toNat ≤ Reader.remaining bytes here.toNat := by
  rw [UInt64.lt_iff_toNat_lt, toNat_remaining small, Nat.not_le]

theorem end_of_fits (small : bytes.size < 2 ^ 63) (inside : here.toNat ≤ bytes.size)
    {count : UInt64} (fits : count.toNat ≤ Reader.remaining bytes here.toNat) :
    ∃ there, Word.add here count = some there ∧ there.toNat = here.toNat + count.toNat ∧
      there.toNat ≤ bytes.size := by
  rw [Reader.remaining] at fits
  obtain ⟨there, exact, sum⟩ := Word.add_of_lt (a := here) (b := count) (by omega)
  exact ⟨there, exact, sum, by omega⟩

theorem simulates_skip (low : Nat) (count : UInt64) :
    Simulates low (skip count) (Reader.skip count.toNat) := by
  intro bytes here small _ inside
  rw [skip, remaining_bind]
  by_cases fits : count.toNat ≤ Reader.remaining bytes here.toNat
  · obtain ⟨there, exact, sum, within⟩ := end_of_fits small inside fits
    rw [if_neg (not_not_intro fits ∘ (remaining_lt_iff small).mp), position_bind,
      attempt_bind exact]
    refine .ok () there [] rfl ?_ (by omega) within
    simp only [Reader.skip, fits, if_true, sum]
  · rw [if_pos ((remaining_lt_iff small).mpr fits)]
    simp only [Reader.skip, fits, if_false]
    exact mirrors_truncated small count

theorem simulates_take (low : Nat) (count : UInt64) :
    Simulates low (take count) (Reader.take count.toNat) := by
  intro bytes here small _ inside
  rw [take, remaining_bind]
  by_cases fits : count.toNat ≤ Reader.remaining bytes here.toNat
  · obtain ⟨there, exact, sum, within⟩ := end_of_fits small inside fits
    rw [if_neg (not_not_intro fits ∘ (remaining_lt_iff small).mp), buffer_bind, position_bind,
      attempt_bind exact, attempt_bind (Word.slice_of_le (by omega) within), attempt_bind exact,
      moveTo_bind]
    refine .ok _ there [] rfl ?_ (by omega) within
    simp only [Reader.take, fits, if_true, sum]
  · rw [if_pos ((remaining_lt_iff small).mpr fits)]
    simp only [Reader.take, fits, if_false]
    exact mirrors_truncated small count

theorem simulates_pure (low : Nat) (a : α) : Simulates low (pure a) (pure a) :=
  fun _ here _ _ inside => .ok a here [] rfl rfl (Nat.le_refl _) inside

theorem simulates_fail (low : Nat) (e : Cause) :
    Simulates low (fail e : Machine α) (Reader.fail e) :=
  fun _ here _ _ _ => .error e here.toNat [] rfl rfl

theorem simulates_require (low : Nat) (condition : Bool) (e : Cause) :
    Simulates low (require condition e) (Reader.require condition e) := by
  cases condition with
  | true => exact simulates_pure low ()
  | false => exact simulates_fail low e

theorem Mirrors.mono {run : Option (Except Cause (α × UInt64))} {outcome : Outcome α}
    (h : Mirrors bytes there run outcome) (le : here.toNat ≤ there.toNat) :
    Mirrors bytes here run outcome := by
  cases h with
  | error e stop events ran read => exact .error e stop events ran read
  | ok a stop events ran read le' inside =>
    exact .ok a stop events ran read (Nat.le_trans le le') inside

theorem Mirrors.prepend {run : Option (Except Cause (α × UInt64))} {outcome : Outcome α}
    (h : Mirrors bytes here run outcome) (before : List Event) :
    Mirrors bytes here run ⟨outcome.result, outcome.position, before ++ outcome.events⟩ := by
  cases h with
  | error e stop events ran read => exact .error e stop (before ++ events) ran (by rw [read])
  | ok a stop events ran read le inside =>
    exact .ok a stop (before ++ events) ran (by rw [read]) le inside

/-! What a run tells about the reader that it mirrors. -/

theorem Mirrors.ne_none {run : Option (Except Cause (α × UInt64))} {outcome : Outcome α}
    (h : Mirrors bytes here run outcome) : run ≠ none := by
  cases h with
  | error e stop events ran read => simp [ran]
  | ok a there events ran read le inside => simp [ran]

theorem Mirrors.of_ok {run : Option (Except Cause (α × UInt64))} {outcome : Outcome α} {a : α}
    (h : Mirrors bytes here run outcome) (done : run = some (.ok (a, there))) :
    ∃ events, outcome = ⟨.ok a, there.toNat, events⟩ ∧ here.toNat ≤ there.toNat ∧
      there.toNat ≤ bytes.size := by
  cases h with
  | error e stop events ran read => cases done.symm.trans ran
  | ok a there events ran read le inside =>
    cases done.symm.trans ran
    exact ⟨events, read, le, inside⟩

theorem Mirrors.of_error {run : Option (Except Cause (α × UInt64))} {outcome : Outcome α}
    {e : Cause} (h : Mirrors bytes here run outcome) (failed : run = some (.error e)) :
    ∃ stop events, outcome = ⟨.error e, stop, events⟩ := by
  cases h with
  | error e stop events ran read =>
    cases failed.symm.trans ran
    exact ⟨stop, events, read⟩
  | ok a there events ran read le inside => cases failed.symm.trans ran

/-! And the reader about the run. -/

theorem Mirrors.run_of_ok {run : Option (Except Cause (α × UInt64))} {outcome : Outcome α} {a : α}
    (h : Mirrors bytes here run outcome) (ok : outcome.result = .ok a) :
    ∃ there, run = some (.ok (a, there)) ∧ there.toNat = outcome.position := by
  cases h with
  | error e stop events ran read =>
    rw [read] at ok
    cases ok
  | ok b there events ran read le inside =>
    rw [read] at ok ⊢
    cases ok
    exact ⟨there, ran, rfl⟩

theorem Mirrors.run_of_error {run : Option (Except Cause (α × UInt64))} {outcome : Outcome α}
    {e : Cause} (h : Mirrors bytes here run outcome) (failed : outcome.result = .error e) :
    run = some (.error e) := by
  cases h with
  | error e stop events ran read =>
    rw [read] at failed
    cases failed
    exact ran
  | ok b there events ran read le inside =>
    rw [read] at failed
    cases failed

theorem Mirrors.bind {m : Machine α} {next : α → Machine β} {r : Reader α} {next' : α → Reader β}
    (first : Mirrors bytes here (m bytes here) (r bytes here.toNat))
    (rest : ∀ a there, Reader.Reads r bytes here.toNat a there.toNat → here.toNat ≤ there.toNat →
      there.toNat ≤ bytes.size →
      Mirrors bytes there (next a bytes there) (next' a bytes there.toNat)) :
    Mirrors bytes here ((m >>= next) bytes here) ((r >>= next') bytes here.toNat) := by
  cases first with
  | error e stop events ran read =>
    exact .error e stop events (bind_of_error ran) (Reader.bind_of_error read)
  | ok a there events ran read le inside =>
    rw [bind_of_ok ran, Reader.bind_of_ok read]
    cases rest a there (Reader.reads_of_eq read) le inside with
    | error e stop more ran' read' => exact .error e stop (events ++ more) ran' (by rw [read'])
    | ok b stop more ran' read' le' inside' =>
      exact .ok b stop (events ++ more) ran' (by rw [read']) (Nat.le_trans le le') inside'

theorem Simulates.bind_reach {m : Machine α} {next : α → Machine β} {r : Reader α}
    {next' : α → Reader β} {k : Nat} (first : Simulates low m r)
    (reach : ∀ bytes start a stop, Reader.Reads r bytes start a stop → start + k ≤ stop)
    (rest : ∀ a, Simulates (low + k) (next a) (next' a)) :
    Simulates low (m >>= next) (r >>= next') := by
  intro bytes here small above inside
  refine (first bytes here small above inside).bind fun a there read le inside' => ?_
  have further := reach bytes here.toNat a there.toNat read
  exact rest a bytes there small (by omega) inside'

theorem Simulates.bind {m : Machine α} {next : α → Machine β} {r : Reader α}
    {next' : α → Reader β} (first : Simulates low m r)
    (rest : ∀ a, Simulates low (next a) (next' a)) : Simulates low (m >>= next) (r >>= next') := by
  intro bytes here small above inside
  refine (first bytes here small above inside).bind fun a there _ le inside' => ?_
  exact rest a bytes there small (Nat.le_trans above le) inside'

theorem Simulates.map {m : Machine α} {r : Reader α} (h : Simulates low m r) (f : α → β) :
    Simulates low (f <$> m) (f <$> r) :=
  h.bind fun a => simulates_pure low (f a)

/-- A position that was read is a lower bound of what comes after it. -/
theorem simulates_position_bind {next : UInt64 → Machine β} {next' : Nat → Reader β}
    (rest : ∀ here, low ≤ here.toNat → Simulates here.toNat (next here) (next' here.toNat)) :
    Simulates low (position >>= next) (Reader.position >>= next') := by
  intro bytes here small above inside
  rw [position_bind, run_position_bind]
  exact rest here above bytes here small (Nat.le_refl _) inside

theorem simulates_log (low : Nat) (e : Event) : Simulates low (pure ()) (Reader.log e) :=
  fun _ here _ _ inside => .ok () here [e] rfl rfl (Nat.le_refl _) inside

theorem simulates_log_bind {m : Machine β} {e : Event} {next : Unit → Reader β}
    (rest : Simulates low m (next ())) : Simulates low m (Reader.log e >>= next) :=
  (simulates_log low e).bind fun _ => rest

theorem Simulates.weaken {m : Machine α} {r : Reader α} (h : Simulates low m r) {low' : Nat}
    (le : low ≤ low') : Simulates low' m r :=
  fun bytes here small above inside => h bytes here small (Nat.le_trans le above) inside

theorem Simulates.stop_le {α : Type} {m : Machine α} {r : Reader α} {a : α} {stop : Nat}
    (h : Simulates low m r) (small : bytes.size < 2 ^ 63) (here : UInt64) (above : low ≤ here.toNat)
    (inside : here.toNat ≤ bytes.size) (read : Reader.Reads r bytes here.toNat a stop) :
    stop ≤ bytes.size := by
  cases h bytes here small above inside with
  | error e stop events ran failed =>
    rw [Reader.Reads, failed] at read
    cases read.1
  | ok b there events ran done le within =>
    obtain ⟨-, rfl⟩ := (Reader.reads_of_eq done).unique read
    exact within

theorem simulates_word (low : Nat) (count : UInt64) :
    Simulates low (word count) (Reader.word count.toNat) :=
  (simulates_take low count).bind fun _ => simulates_pure low _

theorem simulates_u8 (low : Nat) : Simulates low u8 Reader.u8 := (simulates_word low 1).map _

theorem simulates_u16 (low : Nat) : Simulates low u16 Reader.u16 := (simulates_word low 2).map _

theorem simulates_u32 (low : Nat) : Simulates low u32 Reader.u32 := (simulates_word low 4).map _

theorem simulates_tag (low : Nat) : Simulates low tag Reader.tag := by
  intro bytes here small above inside
  refine (simulates_take low 4 bytes here small above inside).bind fun chunk there read _ _ => ?_
  obtain ⟨fits, rfl, -⟩ := Reader.reads_take.mp read
  have length : (bytes.extract here.toNat (here.toNat + (4 : UInt64).toNat)).size = 4 := by
    rw [ByteArray.size_extract]
    change 4 ≤ _ at fits
    change min (here.toNat + 4) _ - _ = 4
    omega
  rw [if_pos length]
  exact simulates_pure 0 _ bytes there small (Nat.zero_le _) (by assumption)

/-- The distance to the next multiple is exact: no remainder exceeds the alignment. -/
theorem run_padding (bytes : ByteArray) (here : UInt64) {alignment : UInt64}
    (positive : 0 < alignment.toNat) :
    ∃ count, padding alignment bytes here = some (.ok (count, here)) ∧
      count.toNat = Reader.padding alignment.toNat positive here.toNat := by
  obtain ⟨excess, exact, eq⟩ := Word.mod_of_pos (a := here) positive
  have le : excess.toNat ≤ alignment.toNat := eq ▸ Nat.le_of_lt (Nat.mod_lt _ positive)
  obtain ⟨missing, exact', eq'⟩ := Word.sub_of_le le
  obtain ⟨count, exact'', eq''⟩ := Word.mod_of_pos (a := missing) positive
  refine ⟨count, ?_, by rw [eq'', eq', eq, Reader.padding]⟩
  rw [padding, position_bind, attempt_bind exact, attempt_bind exact', exact'']
  rfl

theorem simulates_align (low : Nat) {alignment : UInt64} (positive : 0 < alignment.toNat) :
    Simulates low (align alignment) (Reader.align alignment.toNat positive) := by
  intro bytes here small above inside
  obtain ⟨count, ran, eq⟩ := run_padding bytes here positive
  rw [align, bind_of_ok ran, Reader.align, run_position_bind, ← eq]
  exact simulates_skip low count bytes here small above inside

theorem simulates_kept (low : Nat) :
    Kept (m := Machine) (n := Reader) fun _ m r => Simulates low m r where
  pure := simulates_pure low
  bind := Simulates.bind

theorem simulates_replicate {m : Machine α} {r : Reader α} (h : Simulates low m r) (count : Nat) :
    Simulates low (replicateM count m) (Reader.replicate count r) := by
  rw [Reader.replicate_eq]
  exact (simulates_kept low).replicateM h count

theorem simulates_checkSize (rules : Strictness) (part : Part) (start : UInt64)
    (declared : UInt32) :
    Simulates start.toNat (checkSize rules part start declared)
      (RiteImage.checkSize rules part start.toNat declared) := by
  intro bytes here small above inside
  rw [checkSize, RiteImage.checkSize, run_position_bind]
  cases enforced : rules.enforceSizes with
  | false => exact simulates_pure 0 () bytes here small (Nat.zero_le _) inside
  | true =>
    obtain ⟨consumed, exact, eq⟩ := Word.sub_of_le above
    have same : consumed = declared.toUInt64 ↔ here.toNat - start.toNat = declared.toNat := by
      rw [← UInt64.toNat_inj, eq, UInt32.toNat_toUInt64]
    rw [if_pos rfl, position_bind, attempt_bind exact, Bool.not_true, Bool.false_or, ← eq]
    simp only [same, eq]
    exact simulates_require 0 _ _ bytes here small (Nat.zero_le _) inside

end Machine

end RiteImage
