import RiteImage.Proofs.Reads
import RiteImage.Reader.Forward

/-! Bytes behind what was read.
A run on a buffer is compared with one on a longer buffer. Either they are the same, or
the first one misses bytes and the second one, if it succeeds, stops behind the first
buffer. This holds of the steps that readers are made of, and it is kept when they are
put together. -/
namespace RiteImage

variable {α β : Type}

def Outcome.Truncated (o : Outcome α) : Prop :=
  ∃ offset needed available, o.result = .error (.truncated offset needed available)

namespace Reader

inductive Agrees (limit : Nat) (one two : Outcome α) : Prop
  | same (eq : two = one) (inside : one.position ≤ limit)
  | cut (truncated : one.Truncated) (beyond : ∀ a, two.result = .ok a → limit < two.position)

/-- What is behind the buffer matters only to a run that asked for it. -/
class Stable (r : Reader α) : Prop extends Forward r where
  agrees : ∀ bytes more start, start ≤ bytes.size →
    Agrees bytes.size (r bytes start) (r (bytes ++ more) start)

theorem Agrees.prepend {limit : Nat} {one two : Outcome α} (h : Agrees limit one two)
    (events : List Event) :
    Agrees limit ⟨one.result, one.position, events ++ one.events⟩
      ⟨two.result, two.position, events ++ two.events⟩ := by
  cases h with
  | same eq inside => exact .same (by rw [eq]) inside
  | cut truncated beyond => exact .cut truncated beyond

theorem run_append_of_ok {r : Reader α} [stable : Stable r] {bytes : ByteArray} {start stop : Nat}
    {a : α} {events : List Event} (run : r bytes start = ⟨.ok a, stop, events⟩)
    (inside : start ≤ bytes.size) (more : ByteArray) :
    r (bytes ++ more) start = ⟨.ok a, stop, events⟩ ∧ stop ≤ bytes.size := by
  have agrees := stable.agrees bytes more start inside
  rw [run] at agrees
  cases agrees with
  | same eq within => exact ⟨eq, within⟩
  | cut truncated beyond =>
    obtain ⟨_, _, _, missing⟩ := truncated
    cases missing

instance (a : α) : Stable (pure a : Reader α) where
  agrees _ _ _ inside := .same rfl inside

instance (e : Cause) : Stable (fail e : Reader α) where
  agrees _ _ _ inside := .same rfl inside

instance (e : Event) : Stable (log e) where
  agrees _ _ _ inside := .same rfl inside

instance : Stable position where
  agrees _ _ _ inside := .same rfl inside

theorem size_append (bytes more : ByteArray) : (bytes ++ more).size = bytes.size + more.size :=
  ByteArray.size_append

theorem extract_append (bytes more : ByteArray) (start : Nat) {stop : Nat}
    (inside : stop ≤ bytes.size) :
    (bytes ++ more).extract start stop = bytes.extract start stop := by
  apply ByteArray.ext
  apply Array.toList_inj.mp
  change between (bytes ++ more) start stop = between bytes start stop
  have within : stop - start ≤ bytes.data.toList.length - start := Nat.sub_le_sub_right inside _
  rw [between_eq, between_eq, ByteArray.data_append, Array.toList_append]
  rw [List.drop_append, List.take_append_of_le_length (by rwa [List.length_drop])]

theorem fits_append {bytes : ByteArray} {start count : Nat} (inside : start ≤ bytes.size)
    (fits : count ≤ remaining bytes start) (more : ByteArray) :
    start + count ≤ bytes.size ∧ count ≤ remaining (bytes ++ more) start := by
  rw [remaining] at fits ⊢
  rw [size_append]
  omega

instance (count : Nat) : Stable (skip count) where
  agrees bytes more start inside := by
    have longer := size_append bytes more
    by_cases fits : count ≤ remaining bytes start
    · obtain ⟨within, fits'⟩ := fits_append inside fits more
      simp only [skip, fits, fits', if_true]
      exact .same rfl within
    · refine .cut ⟨start, count, remaining bytes start, ?_⟩ fun u ok => ?_
      · simp only [skip, fits, if_false, truncated]
      · obtain ⟨-, stop⟩ := reads_skip.mp ⟨ok, rfl⟩
        rw [remaining] at fits
        omega

instance (count : Nat) : Stable (take count) where
  agrees bytes more start inside := by
    have longer := size_append bytes more
    by_cases fits : count ≤ remaining bytes start
    · obtain ⟨within, fits'⟩ := fits_append inside fits more
      simp only [take, fits, fits', if_true, extract_append bytes more start within]
      exact .same rfl within
    · refine .cut ⟨start, count, remaining bytes start, ?_⟩ fun chunk ok => ?_
      · simp only [take, fits, if_false, truncated]
      · obtain ⟨-, -, stop⟩ := reads_take.mp ⟨ok, rfl⟩
        rw [remaining] at fits
        omega

instance (r : Reader α) (next : α → Reader β) [first : Stable r] [rest : ∀ a, Stable (next a)] :
    Stable (r >>= next) where
  agrees bytes more start inside := by
    cases first.agrees bytes more start inside with
    | same eq within =>
      rcases one : r bytes start with ⟨e | a, middle, events⟩
      · rw [one] at eq within
        rw [bind_of_error one, bind_of_error eq]
        exact .same rfl within
      · rw [one] at eq within
        rw [bind_of_ok one, bind_of_ok eq]
        exact ((rest a).agrees bytes more middle within).prepend events
    | cut truncated beyond =>
      obtain ⟨offset, needed, available, missing⟩ := truncated
      refine .cut ⟨offset, needed, available, result_bind_of_error missing⟩ fun b ok => ?_
      obtain ⟨a, middle, ⟨two, rfl⟩, other⟩ := reads_bind.mp ⟨ok, rfl⟩
      have further := (rest a).start_le (bytes ++ more) (r (bytes ++ more) start).position
      rw [other.2] at further
      exact Nat.lt_of_lt_of_le (beyond a two) further

instance (f : α → β) (r : Reader α) [Stable r] : Stable (f <$> r) :=
  inferInstanceAs (Stable (r >>= fun a => pure (f a)))

instance (c : Prop) [Decidable c] (r s : Reader α) [Stable r] [Stable s] :
    Stable (if c then r else s) := by
  split <;> assumption

instance (condition : Bool) (e : Cause) : Stable (require condition e) := by
  unfold require; infer_instance

instance (alignment : Nat) (positive : 0 < alignment) : Stable (align alignment positive) := by
  unfold align; infer_instance

instance (count : Nat) : Stable (word count) := by unfold word; infer_instance

instance : Stable u8 := by unfold u8; infer_instance

instance : Stable u16 := by unfold u16; infer_instance

instance : Stable u32 := by unfold u32; infer_instance

instance : Stable tag := by unfold tag; infer_instance

theorem kept_stable : Kept (m := Reader) (n := Reader) fun _ r _ => Stable r where
  pure _ := inferInstance
  bind first rest := by
    have := first
    have := rest
    infer_instance

instance (count : Nat) (r : Reader α) [stable : Stable r] : Stable (replicate count r) := by
  rw [replicate_eq]
  exact kept_stable.replicateM (y := r) stable count

/-- To look ahead is harmless if success means to go over all that was looked at. -/
theorem stable_lookahead_bind (r : Reader α) (next : α → Reader β) [first : Stable r]
    [rest : ∀ a, Stable (next a)]
    (covers : ∀ bytes start a middle b stop, Reads r bytes start a middle →
      Reads (next a) bytes start b stop → middle ≤ stop) :
    Stable (lookahead r >>= next) where
  agrees bytes more start inside := by
    cases first.agrees bytes more start inside with
    | same eq within =>
      rcases one : r bytes start with ⟨e | a, middle, events⟩
      · rw [one] at eq within
        rw [bind_of_error (lookahead_of_error one), bind_of_error (lookahead_of_error eq)]
        exact .same rfl within
      · rw [one] at eq
        rw [bind_of_ok (lookahead_of_ok one), bind_of_ok (lookahead_of_ok eq)]
        exact ((rest a).agrees bytes more start inside).prepend events
    | cut truncated beyond =>
      rcases one : r bytes start with ⟨e | a, middle, events⟩
      · obtain ⟨offset, needed, available, missing⟩ := truncated
        rw [one] at missing
        cases missing
        rw [bind_of_error (lookahead_of_error one)]
        refine .cut ⟨offset, needed, available, rfl⟩ fun b ok => ?_
        obtain ⟨a, ⟨middle, two⟩, other⟩ := reads_lookahead_bind.mp ⟨ok, rfl⟩
        have far := beyond a two.1
        rw [two.2] at far
        exact Nat.lt_of_lt_of_le far (covers _ _ _ _ _ _ two other)
      · obtain ⟨_, _, _, missing⟩ := truncated
        rw [one] at missing
        cases missing

/-! A reader that is run from a position. -/

theorem runAt_of_le (r : Reader α) {bytes : ByteArray} {start : Nat} (inside : start ≤ bytes.size) :
    runAt r bytes start = r bytes start := by
  have move : seek start bytes 0 = ⟨.ok (), start, []⟩ := by simp only [seek, inside, if_true]
  exact bind_of_ok move

theorem truncated_runAt (r : Reader α) {bytes : ByteArray} {start : Nat}
    (outside : bytes.size < start) : (runAt r bytes start).Truncated := by
  have move : (seek start bytes 0).result = .error (.truncated 0 start bytes.size) := by
    simp only [seek, Nat.not_le.mpr outside, if_false]
    rfl
  exact ⟨0, start, bytes.size, result_bind_of_error move⟩

/-- Bytes behind a buffer help only a run that lacks bytes. A run that succeeds and stops at `p`
lacks them on the first `count` bytes if `count < p`, and otherwise it is the same there. -/
def CutsCleanly (run : ByteArray → Nat → Outcome α) : Prop :=
  ∀ bytes start,
    (¬ (run bytes start).Truncated → ∀ more, run (bytes ++ more) start = run bytes start) ∧
    ∀ a, (run bytes start).result = .ok a → ∀ count,
      (count < (run bytes start).position → (run (bytes.extract 0 count) start).Truncated) ∧
      ((run bytes start).position ≤ count → run (bytes.extract 0 count) start = run bytes start)

theorem extract_append_extract (bytes : ByteArray) (count : Nat) :
    bytes.extract 0 count ++ bytes.extract count bytes.size = bytes := by
  apply ByteArray.ext
  apply Array.toList_inj.mp
  rw [ByteArray.data_append, Array.toList_append]
  change between bytes 0 count ++ between bytes count bytes.size = _
  rw [between_eq, between_eq, List.drop_zero, Nat.sub_zero]
  have all : (bytes.data.toList.drop count).length ≤ bytes.size - count :=
    Nat.le_of_eq List.length_drop
  rw [List.take_of_length_le all, List.take_append_drop]

theorem cutsCleanly_runAt (r : Reader α) [stable : Stable r] : CutsCleanly (runAt r) := by
  intro bytes start
  constructor
  · intro complete more
    have inside : start ≤ bytes.size := Nat.le_of_not_lt fun outside =>
      complete (truncated_runAt r outside)
    have inside' : start ≤ (bytes ++ more).size := by
      rw [size_append]
      omega
    rw [runAt_of_le r inside] at complete ⊢
    rw [runAt_of_le r inside']
    cases stable.agrees bytes more start inside with
    | same eq _ => exact eq
    | cut truncated _ => exact absurd truncated complete
  · intro a ok count
    have inside := (reads_runAt.mp ⟨ok, rfl⟩).1
    rw [runAt_of_le r inside] at ok ⊢
    rcases run : r bytes start with ⟨_, stop, events⟩
    rw [run] at ok
    cases ok
    have before := stable.start_le bytes start
    have within := (run_append_of_ok run inside ⟨#[]⟩).2
    have size : (bytes.extract 0 count).size = min count bytes.size := by
      rw [ByteArray.size_extract, Nat.sub_zero]
    rw [run] at before
    change start ≤ stop at before
    change (count < stop → _) ∧ (stop ≤ count → _)
    rcases Nat.lt_or_ge count start with outside | reached
    · exact ⟨fun _ => truncated_runAt r (by omega), fun reached => by omega⟩
    have inside' : start ≤ (bytes.extract 0 count).size := by omega
    have agrees := stable.agrees _ (bytes.extract count bytes.size) start inside'
    rw [extract_append_extract bytes count, run, size] at agrees
    rw [runAt_of_le r inside']
    cases agrees with
    | same eq short =>
      rw [← eq] at short
      change stop ≤ _ at short
      exact ⟨fun lt => by omega, fun _ => eq.symm⟩
    | cut truncated beyond =>
      have far := beyond a rfl
      change _ < stop at far
      exact ⟨fun _ => truncated, fun le => by omega⟩

/-! What a success goes over at least. -/

section Length

variable {bytes : ByteArray} {start stop : Nat}

theorem le_of_reads {r : Reader α} [forward : Forward r] {a : α}
    (read : Reads r bytes start a stop) : start ≤ stop :=
  read.2 ▸ forward.start_le bytes start

theorem stop_of_reads_tag {found : Tag} (read : Reads tag bytes start found stop) :
    stop = start + 4 := by
  obtain ⟨chunk, read, -⟩ := reads_map.mp read
  exact (reads_take.mp read).2.2

theorem stop_of_reads_word {count n : Nat} (read : Reads (word count) bytes start n stop) :
    stop = start + count := by
  obtain ⟨chunk, _, read, rest⟩ := reads_bind.mp read
  obtain ⟨-, rfl⟩ := reads_pure.mp rest
  exact (reads_take.mp read).2.2

theorem stop_of_reads_u16 {n : UInt16} (read : Reads u16 bytes start n stop) :
    stop = start + 2 := by
  obtain ⟨_, read, -⟩ := reads_map.mp read
  exact stop_of_reads_word read

theorem stop_of_reads_u32 {n : UInt32} (read : Reads u32 bytes start n stop) :
    stop = start + 4 := by
  obtain ⟨_, read, -⟩ := reads_map.mp read
  exact stop_of_reads_word read

theorem four_le_of_reads_tagged {next : Tag → Reader α} [∀ found, Forward (next found)] {a : α}
    (read : Reads (tag >>= next) bytes start a stop) : start + 4 ≤ stop := by
  obtain ⟨found, _, head, rest⟩ := reads_bind.mp read
  exact stop_of_reads_tag head ▸ le_of_reads rest

/-- Where a header was read its fields were, one behind the other. -/
theorem fields_of_reads_header {header : Header}
    (read : Reads Header.read bytes start header stop) :
    header.version = Tag.version ∧
      Checksum.compute (Header.content bytes header.size).data.toList 0 = header.checksum ∧
      Reads tag bytes start header.magic (start + 4) ∧
      Reads tag bytes (start + 4) header.version (start + 8) ∧
      Reads u16 bytes (start + 8) header.checksum (start + 10) ∧
      Reads u32 bytes (start + 10) header.size (start + 14) ∧
      Reads tag bytes (start + 14) header.compilerName (start + 18) ∧
      Reads tag bytes (start + 18) header.compilerVersion stop := by
  obtain ⟨magic, _, one, read⟩ := reads_bind.mp read
  obtain rfl := stop_of_reads_tag one
  obtain ⟨version, _, two, read⟩ := reads_bind.mp read
  obtain rfl := stop_of_reads_tag two
  obtain ⟨known, read⟩ := reads_require_bind.mp read
  obtain ⟨checksum, _, three, read⟩ := reads_bind.mp read
  obtain rfl := stop_of_reads_u16 three
  obtain ⟨size, _, four, read⟩ := reads_bind.mp read
  obtain rfl := stop_of_reads_u32 four
  obtain ⟨computed, read⟩ := reads_checkContent_bind.mp read
  obtain ⟨name, _, five, read⟩ := reads_bind.mp read
  obtain rfl := stop_of_reads_tag five
  obtain ⟨compiler, _, six, read⟩ := reads_bind.mp read
  obtain ⟨_, _, logged, last⟩ := reads_bind.mp read
  obtain rfl := reads_log.mp logged
  obtain ⟨rfl, rfl⟩ := reads_pure.mp last
  exact ⟨of_decide_eq_true known, computed, one, two, three, four, five, six⟩

theorem stop_of_reads_header {header : Header}
    (read : Reads Header.read bytes start header stop) : stop = start + Header.byteCount := by
  obtain ⟨-, -, -, -, -, -, -, last⟩ := fields_of_reads_header read
  exact stop_of_reads_tag last

theorem le_size_of_reads_header {header : Header}
    (read : Reads Header.read bytes start header stop) : stop ≤ bytes.size := by
  obtain ⟨-, -, -, -, -, -, -, last⟩ := fields_of_reads_header read
  obtain ⟨chunk, taken, -⟩ := reads_map.mp last
  obtain ⟨fits, -, rfl⟩ := reads_take.mp taken
  omega

end Length

end Reader

end RiteImage
