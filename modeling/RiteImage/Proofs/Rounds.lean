import RiteImage.Proofs.Consumption
import RiteImage.Proofs.Extension
import RiteImage.Proofs.Failure

/-! Rounds of loops.
Counts in a buffer may be as large as their width allows, and they say how often a reader
is repeated and how often it calls itself. A metered reader does what a reader does and
counts how often a step of it is begun, whether that succeeds or not. Every success pays
for its step with bytes, so bytes run out before the steps do. -/
namespace RiteImage

open Reader

variable {α β : Type}

/-- A reader that counts some of its steps, those that fail included. -/
def Metered (α : Type) : Type := ByteArray → Nat → Outcome α × Nat

namespace Metered

def erase (m : Metered α) : Reader α := fun bytes start => (m bytes start).1

def steps (m : Metered α) (bytes : ByteArray) (start : Nat) : Nat := (m bytes start).2

def once (r : Reader α) : Metered α := fun bytes start => (r bytes start, 1)

protected def bind (m : Metered α) (next : α → Metered β) : Metered β := fun bytes start =>
  match m bytes start with
  | (⟨.ok a, middle, before⟩, steps) =>
    match next a bytes middle with
    | (⟨result, stop, after⟩, more) => (⟨result, stop, before ++ after⟩, steps + more)
  | (⟨.error e, stop, events⟩, steps) => (⟨.error e, stop, events⟩, steps)

instance : Monad Metered where
  pure a bytes start := ((pure a : Reader _) bytes start, 0)
  bind := Metered.bind

def readTree (rules : Strictness) : Nat → Metered (Tree Irep)
  | 0 => once (Reader.fail (.tooDeep rules.depthLimit))
  | levels + 1 => Irep.nodeBy replicateM (once (Irep.read rules)) (readTree rules levels)

def readFrom (rules : Strictness) (bytes : ByteArray) (start : Nat) (known : Array Section) :
    Outcome (Array Section) × Nat :=
  Section.rounds rules bytes (fun o => (o, 1))
    (fun events rest => (rest.1.after events, rest.2 + 1)) start known

@[simp] theorem erase_once (r : Reader α) : (once r).erase = r := rfl

@[simp] theorem erase_pure (a : α) : (pure a : Metered α).erase = pure a := rfl

section Bind

variable {m : Metered α} {next : α → Metered β} {bytes : ByteArray} {start stop : Nat}

theorem bind_of_ok {a : α} {events : List Event}
    (first : m.erase bytes start = ⟨.ok a, stop, events⟩) :
    (m >>= next) bytes start =
      (⟨((next a).erase bytes stop).result, ((next a).erase bytes stop).position,
        events ++ ((next a).erase bytes stop).events⟩,
        m.steps bytes start + (next a).steps bytes stop) := by
  rcases run : m bytes start with ⟨outcome, steps⟩
  rw [erase, run] at first
  cases first
  change Metered.bind m next bytes start = _
  simp only [Metered.bind, run, Metered.steps, erase]

theorem bind_of_error {e : Cause} {events : List Event}
    (first : m.erase bytes start = ⟨.error e, stop, events⟩) :
    (m >>= next) bytes start = (⟨.error e, stop, events⟩, m.steps bytes start) := by
  rcases run : m bytes start with ⟨outcome, steps⟩
  rw [erase, run] at first
  cases first
  change Metered.bind m next bytes start = _
  simp only [Metered.bind, run, Metered.steps]

end Bind

@[simp] theorem erase_bind (m : Metered α) (next : α → Metered β) :
    (m >>= next).erase = m.erase >>= fun a => (next a).erase := by
  funext bytes start
  rcases first : m.erase bytes start with ⟨e | a, stop, events⟩
  · rw [erase, bind_of_error first, Reader.bind_of_error first]
  · rw [erase, bind_of_ok first, Reader.bind_of_ok first]

theorem erases_kept : Kept (m := Metered) (n := Reader) fun _ m r => m.erase = r where
  pure _ := rfl
  bind first rest := by simp [first, rest]

theorem erase_replicateM (count : Nat) (m : Metered α) :
    (replicateM count m).erase = Reader.replicate count m.erase := by
  rw [Reader.replicate_eq]
  exact erases_kept.replicateM rfl count

theorem erase_readTree (rules : Strictness) (levels : Nat) :
    (readTree rules levels).erase = Irep.readTree rules levels := by
  induction levels with
  | zero => rfl
  | succ levels ih =>
    simp only [readTree, Irep.readTree, Irep.nodeBy, erase_bind, erase_once, erase_pure,
      erase_replicateM, ih]

theorem erase_readFrom (rules : Strictness) (bytes : ByteArray) (start : Nat)
    (known : Array Section) :
    (readFrom rules bytes start known).1 = Section.readFrom rules bytes start known := by
  induction start, known using Section.rounds.induct rules bytes with
  | case1 start known stop events run =>
    rw [readFrom, Section.rounds_of_none run, Section.readFrom_of_none run]
  | case2 start known next middle events run ih =>
    rw [readFrom, Section.rounds_of_some run, Section.readFrom_of_some run, ← ih]
    rfl
  | case3 start known e stop events run =>
    rw [readFrom, Section.rounds_of_error run, Section.readFrom_of_error run]

/-- Steps are paid for with `width` bytes each. Only the last one of a failure may not be. -/
structure Pays (width : Nat) (m : Metered α) : Prop where
  of_ok : ∀ bytes start a stop, Reads m.erase bytes start a stop →
    width * m.steps bytes start + remaining bytes stop ≤ remaining bytes start
  always : ∀ bytes start, width * m.steps bytes start ≤ remaining bytes start + width

variable {width : Nat}

theorem pays_pure (a : α) : Pays width (pure a : Metered α) where
  of_ok bytes start b stop read := by
    simpa [steps, pure] using takes_zero (pure a) bytes start b stop read
  always bytes start := by simp [steps, pure]

theorem pays_once {r : Reader α} (takes : Takes width r) : Pays width (once r) where
  of_ok bytes start a stop read := by
    simpa [steps, once] using takes bytes start a stop read
  always bytes start := by simp [steps, once]

theorem Pays.bind {m : Metered α} {next : α → Metered β} (first : Pays width m)
    (rest : ∀ a, Pays width (next a)) : Pays width (m >>= next) := by
  constructor
  · intro bytes start b stop read
    rw [erase_bind] at read
    obtain ⟨a, middle, one, two⟩ := reads_bind.mp read
    obtain ⟨events, run⟩ := one.eq
    have paid := first.of_ok bytes start a middle one
    have paid' := (rest a).of_ok bytes middle b stop two
    rw [steps, bind_of_ok run, Nat.mul_add]
    omega
  · intro bytes start
    rcases run : m.erase bytes start with ⟨e | a, middle, events⟩
    · rw [steps, bind_of_error run]
      exact first.always bytes start
    · have paid := first.of_ok bytes start a middle (reads_of_eq run)
      have begun := (rest a).always bytes middle
      rw [steps, bind_of_ok run, Nat.mul_add]
      omega

theorem pays_kept : Kept (m := Metered) (n := Metered) fun _ m _ => Pays width m where
  pure := pays_pure
  bind := Pays.bind

/-- A record that is begun too deep is the last one, so it need not pay. -/
theorem pays_readTree (rules : Strictness) (levels : Nat) : Pays 22 (readTree rules levels) := by
  induction levels with
  | zero => exact pays_once (takes_fail _)
  | succ levels ih =>
    exact (pays_once (Irep.takes_read rules)).bind fun found =>
      (pays_kept.replicateM (y := readTree rules levels) ih found.2).bind fun children => pays_pure _

theorem rounds_readFrom (rules : Strictness) (bytes : ByteArray) (start : Nat)
    (known : Array Section) :
    Section.headerSize * (readFrom rules bytes start known).2 ≤
      remaining bytes start + Section.headerSize := by
  induction start, known using Section.rounds.induct rules bytes with
  | case1 start known stop events run =>
    rw [readFrom, Section.rounds_of_none run]
    omega
  | case2 start known next middle events run ih =>
    have fewer := Section.takes_read rules known bytes start _ middle (reads_of_eq run)
    rw [readFrom] at ih
    rw [readFrom, Section.rounds_of_some run, Nat.mul_succ]
    omega
  | case3 start known e stop events run =>
    rw [readFrom, Section.rounds_of_error run]
    omega

theorem le_of_mul_le {width steps free : Nat} (positive : 0 < width)
    (paid : width * steps ≤ free + width) : steps ≤ free / width + 1 := by
  rw [Nat.mul_comm] at paid
  rw [← Nat.add_div_right _ positive]
  exact (Nat.le_div_iff_mul_le positive).mpr paid

theorem Pays.steps_le {m : Metered α} (pays : Pays width m) (positive : 0 < width)
    (bytes : ByteArray) (start : Nat) :
    m.steps bytes start ≤ (bytes.size - start) / width + 1 :=
  le_of_mul_le positive (pays.always bytes start)

/-- A loop over entries, whatever its count. A round that does not fail goes on by `width` bytes,
so the bytes from the start on bound how many are begun. -/
structure Ends (width : Nat) (entry : Reader α) : Prop where
  further : ∀ bytes start a stop, Reads entry bytes start a stop → start + width ≤ stop
  erased : ∀ count, (replicateM count (once entry)).erase = Reader.replicate count entry
  rounds_le : ∀ count bytes start,
    (replicateM count (once entry)).steps bytes start ≤ (bytes.size - start) / width + 1
  rounds_le_bytes : ∀ count bytes start,
    (replicateM count (once entry)).steps bytes start ≤ bytes.size - start + 1

theorem ends_of_takes {entry : Reader α} (takes : Takes width entry) (positive : 0 < width) :
    Ends width entry := by
  have rounds (count : Nat) := (pays_kept.replicateM (y := once entry) (pays_once takes) count).steps_le positive
  constructor
  · intro bytes start a stop read
    exact (takes.add_le positive read).1
  · exact fun count => erase_replicateM count (once entry)
  · exact rounds
  · intro count bytes start
    exact Nat.le_trans (rounds count bytes start) (Nat.succ_le_succ (Nat.div_le_self _ _))

/-- Four bytes are two rounds over words, even if the count is the greatest that there is. -/
example : (replicateM (2 ^ 32 - 1) (once u32)).steps ⟨#[0, 0, 0, 7]⟩ 0 = 2 := rfl

end Metered

namespace Section

variable {rules : Strictness} {bytes : ByteArray} {known : Array Section} {start : Nat}

theorem result_read_of_small {tag : Tag} {size : UInt32}
    (skipped : tag ∉ [Tag.endMarker, Tag.irep, Tag.debug])
    (head : Stands bytes start (tag.bytes ++ wordBytes 4 size.toNat))
    (small : size.toNat < headerSize) :
    (read rules known bytes start).result =
      .error (.malformed (.sectionTooSmall tag start size.toNat)) := by
  simp only [List.mem_cons, List.not_mem_nil, or_false, not_or] at skipped
  obtain ⟨not_end, not_irep, not_debug⟩ := skipped
  obtain ⟨mark, word⟩ := Stands.append_iff.mp head
  have first : Reads (lookahead Reader.tag) bytes start tag start :=
    reads_lookahead.mpr ⟨⟨_, accepts_tag.reads_of_stands mark rfl⟩, rfl⟩
  have fits : 4 ≤ bytes.size - start := by
    have := mark.le_size
    rw [Tag.length_bytes] at this
    omega
  have second : Reads (lookahead (do skip 4; u32)) bytes start size start :=
    reads_lookahead.mpr
      ⟨⟨_, reads_skip_bind.mpr ⟨fits, accepts_u32.reads_of_stands word rfl⟩⟩, rfl⟩
  have refused : decide (headerSize ≤ size.toNat) = false :=
    decide_eq_false (Nat.not_le.mpr small)
  rw [read, result_bind (reads_position.mpr ⟨rfl, rfl⟩), result_bind first, readTagged,
    if_neg not_end, if_neg not_irep, if_neg not_debug, readSkipped, result_bind second]
  exact error_require_bind_iff.mpr (.inl ⟨refused, rfl⟩)

theorem further_of_reads {next : Section} {stop : Nat}
    (read : Reads (read rules known) bytes start (some next) stop) :
    start + headerSize ≤ stop ∧ stop = next.offset + next.size.toNat ∧
      Contains rules bytes known.toList next := by
  obtain ⟨further, inside⟩ := (takes_read rules known).add_le (by decide) read
  obtain ⟨-, ⟨offset, -⟩, contains, stop_eq, -⟩ := (reads_some_iff inside).mp read
  exact ⟨further, offset.symm ▸ stop_eq, contains⟩

end Section

/-- Every loop ends for want of bytes if for nothing else, on any bytes and under any rules. A round
over sections that goes on has left the head and the decoded content of its section behind, and a
skipped section that is too small is refused. So a section is eight bytes or more, a record 22, and
an entry of a table what the shortest one is, and only the last step of a run may be without. -/
theorem Metered.loops_end (rules : Strictness) (bytes : ByteArray) (start : Nat) :
    (∀ known,
      (∀ next stop, Reads (Section.read rules known) bytes start (some next) stop →
        start + 8 ≤ stop ∧ stop = next.offset + next.size.toNat ∧
          Section.Contains rules bytes known.toList next) ∧
      (∀ (tag : Tag) (size : UInt32), tag ∉ [Tag.endMarker, Tag.irep, Tag.debug] →
        Stands bytes start (tag.bytes ++ wordBytes 4 size.toNat) → size.toNat < 8 →
          (Section.read rules known bytes start).result =
            .error (.malformed (.sectionTooSmall tag start size.toNat))) ∧
      (readFrom rules bytes start known).1 = Section.readFrom rules bytes start known ∧
      (readFrom rules bytes start known).2 ≤ (bytes.size - start) / 8 + 1) ∧
    (∀ depth,
      (readTree rules (Irep.levelsBelow rules depth)).erase = Irep.readAtDepth rules depth ∧
      (readTree rules (Irep.levelsBelow rules depth)).steps bytes start ≤
        (bytes.size - start) / 22 + 1) ∧
    Ends 4 u32 ∧ Ends 3 Literal.read ∧ Ends 2 Symbol.read ∧ Ends 2 DebugSection.readName ∧
    Ends 2 u16 ∧ Ends 6 FileLines.readEntry ∧
    ∀ filenames, Ends 11 (FileLines.read filenames) := by
  refine ⟨fun known => ⟨fun next stop read => Section.further_of_reads read, ?_,
    erase_readFrom rules bytes start known, ?_⟩, fun depth => ⟨erase_readTree rules _, ?_⟩,
    ends_of_takes takes_u32 (by decide), ends_of_takes Literal.takes_read (by decide),
    ends_of_takes Symbol.takes_read (by decide),
    ends_of_takes DebugSection.takes_readName (by decide), ends_of_takes takes_u16 (by decide),
    ends_of_takes FileLines.takes_readEntry (by decide), fun filenames =>
    ends_of_takes (FileLines.takes_read filenames) (by decide)⟩
  · intro tag size skipped head small
    exact Section.result_read_of_small skipped head small
  · exact le_of_mul_le (by decide) (rounds_readFrom rules bytes start known)
  · exact (pays_readTree rules _).steps_le (by decide) bytes start

def brokenBytes : ByteArray := ⟨#[
  0x4C, 0x56, 0x41, 0x52, 0, 0, 0, 9, 0xEE,
  0x4C, 0x56, 0x41, 0x52, 0, 0, 0, 7]⟩

/-- A section that is skipped and one that is too small, and nested records after one byte. -/
theorem Metered.loops_end_broken :
    Reads (Section.read .lenient #[]) brokenBytes 0
      (some (.skipped ⟨Tag.localNames, 0, 9⟩)) 9 ∧ 0 + 8 ≤ 9 ∧
    (Section.read .lenient #[] brokenBytes 9).result =
      .error (.malformed (.sectionTooSmall Tag.localNames 9 7)) ∧
    (readTree .lenient (Irep.levelsBelow .lenient 0)).steps Irep.nestedBytes 1 = 2 ∧
    2 ≤ (Irep.nestedBytes.size - 1) / 22 + 1 := by
  have first : Reads (Section.read .lenient #[]) brokenBytes 0
      (some (.skipped ⟨Tag.localNames, 0, 9⟩)) 9 := ⟨rfl, rfl⟩
  have head : Stands brokenBytes 9 (Tag.localNames.bytes ++ wordBytes 4 (7 : UInt32).toNat) :=
    ⟨brokenBytes.data.toList.take 9, [], rfl, rfl⟩
  have steps : (readTree .lenient (Irep.levelsBelow .lenient 0)).steps Irep.nestedBytes 1 = 2 := rfl
  have records := ((loops_end .lenient Irep.nestedBytes 1).2.1 0).2
  rw [steps] at records
  exact ⟨first, (((loops_end .lenient brokenBytes 0).1 #[]).1 _ _ first).1,
    ((loops_end .lenient brokenBytes 9).1 #[]).2.1 Tag.localNames 7 (by decide) head (by decide),
    steps, records⟩

end RiteImage
