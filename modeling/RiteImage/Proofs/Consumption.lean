import RiteImage.Image.Section
import RiteImage.Proofs.Stable

namespace RiteImage

variable {α β : Type}

namespace Reader

variable {m n : Nat}

/-- A success leaves at least `width` bytes fewer behind it than there were before. -/
def Takes (width : Nat) (r : Reader α) : Prop :=
  ∀ bytes start a stop, Reads r bytes start a stop →
    width + remaining bytes stop ≤ remaining bytes start

theorem Takes.add_le {r : Reader α} (takes : Takes n r) (positive : 0 < n) {bytes : ByteArray}
    {start stop : Nat} {a : α} (read : Reads r bytes start a stop) :
    start + n ≤ stop ∧ start ≤ bytes.size := by
  have fewer := takes bytes start a stop read
  simp only [remaining] at fewer
  omega

theorem takes_zero (r : Reader α) [Forward r] : Takes 0 r := by
  intro bytes start a stop read
  have further := le_of_reads read
  simp only [remaining]
  omega

theorem takes_take (count : Nat) : Takes count (take count) := by
  intro bytes start chunk stop read
  obtain ⟨fits, -, rfl⟩ := reads_take.mp read
  simp only [remaining]
  omega

theorem takes_skip (count : Nat) : Takes count (skip count) := by
  intro bytes start u stop read
  obtain ⟨fits, rfl⟩ := reads_skip.mp read
  simp only [remaining]
  omega

theorem takes_fail (e : Cause) : Takes n (fail e : Reader α) :=
  fun _ _ _ _ read => absurd read reads_fail

theorem Takes.mono {r : Reader α} (takes : Takes n r) (le : m ≤ n) : Takes m r :=
  fun bytes start a stop read =>
    Nat.le_trans (Nat.add_le_add_right le _) (takes bytes start a stop read)

theorem Takes.bind {r : Reader α} {next : α → Reader β} (first : Takes m r)
    (rest : ∀ a, Takes n (next a)) : Takes (m + n) (r >>= next) := by
  intro bytes start b stop read
  obtain ⟨a, middle, one, two⟩ := reads_bind.mp read
  have fewer := first bytes start a middle one
  have fewer' := rest a bytes middle b stop two
  omega

theorem Takes.head {r : Reader α} {next : α → Reader β} [∀ a, Forward (next a)]
    (first : Takes n r) : Takes n (r >>= next) :=
  first.bind fun _ => takes_zero _

theorem takes_behind (r : Reader α) {next : α → Reader β} [Forward r]
    (rest : ∀ a, Takes n (next a)) : Takes n (r >>= next) := by
  simpa using (takes_zero r).bind rest

theorem Takes.map {r : Reader α} (takes : Takes n r) (f : α → β) : Takes n (f <$> r) := by
  change Takes n (r >>= fun a => pure (f a))
  exact takes.head

theorem takes_require {condition : Bool} {e : Cause} {next : Unit → Reader β}
    (rest : condition = true → Takes n (next ())) : Takes n (require condition e >>= next) := by
  intro bytes start b stop read
  obtain ⟨holds, read⟩ := reads_require_bind.mp read
  exact rest holds bytes start b stop read

theorem takes_word (count : Nat) : Takes count (word count) := (takes_take count).head

theorem takes_u8 : Takes 1 u8 := (takes_word 1).map _

theorem takes_u16 : Takes 2 u16 := (takes_word 2).map _

theorem takes_u32 : Takes 4 u32 := (takes_word 4).map _

theorem takes_tag : Takes 4 tag := (takes_take 4).map _

end Reader

open Reader

theorem Literal.takes_read : Takes 3 Literal.read :=
  takes_u8.bind fun _ => takes_u16.head

theorem Symbol.takes_read : Takes 2 Symbol.read := takes_u16.head

theorem DebugSection.takes_readName : Takes 2 DebugSection.readName := takes_u16.head

theorem FileLines.takes_readEntry : Takes 6 FileLines.readEntry :=
  takes_u32.bind fun _ => takes_u16.head

theorem FileLines.takes_readEncoding : Takes 1 FileLines.readEncoding :=
  takes_behind position fun _ => takes_u8.head

theorem FileLines.takes_read (filenames : List String) : Takes 11 (FileLines.read filenames) :=
  takes_u32.bind fun _ => takes_behind position fun _ => takes_u16.bind fun _ =>
    takes_behind (resolve filenames _ _) fun _ => takes_u32.bind fun _ =>
    takes_readEncoding.head

theorem takes_readTable (entry : Reader α) [Forward entry] : Takes 4 (readTable entry) :=
  takes_u32.head

theorem Irep.takes_read (rules : Strictness) : Takes 22 (Irep.read rules) :=
  takes_behind position fun _ => takes_u32.bind fun _ => takes_u16.bind fun _ =>
    takes_u16.bind fun _ => takes_u16.bind fun _ => takes_u32.bind fun _ =>
    takes_behind (align 4) fun _ => takes_behind (replicate _ u32) fun _ =>
    (takes_readTable Literal.read).bind fun _ => (takes_readTable Symbol.read).head

namespace Section

theorem takes_readEnd (start : Nat) : Takes headerSize (readEnd start) :=
  (takes_skip 4).bind fun _ => (takes_skip 4).head

/-- The tag and the size are part of the content, and the jump from its end is no way back. -/
theorem takes_readIrep (rules : Strictness) (start : Nat) :
    Takes headerSize (readIrep rules start) := by
  have content : Takes headerSize (IrepSection.read rules) :=
    takes_behind position fun _ => takes_tag.bind fun _ => takes_u32.head
  exact content.head

theorem takes_readDebug (rules : Strictness) (known : Array Section) (start : Nat) :
    Takes headerSize (readDebug rules known start) := by
  unfold readDebug
  split
  · rename_i index s _
    have content : Takes headerSize (DebugSection.readFor rules index s.root) :=
      takes_behind position fun _ => takes_tag.bind fun _ => takes_u32.head
    exact content.head
  · exact takes_behind position fun _ => takes_fail _

theorem takes_readSkipped (tag : Tag) (start : Nat) : Takes headerSize (readSkipped tag start) :=
  takes_behind _ fun size => takes_require fun covers => takes_behind (Reader.log _) fun _ =>
    ((takes_skip size.toNat).mono (of_decide_eq_true covers)).head

theorem takes_readTagged (rules : Strictness) (known : Array Section) (tag : Tag) (start : Nat) :
    Takes headerSize (readTagged rules known tag start) := by
  unfold readTagged
  split
  · exact takes_readEnd start
  split
  · exact takes_readIrep rules start
  split
  · exact takes_readDebug rules known start
  · exact takes_readSkipped tag start

theorem takes_read (rules : Strictness) (known : Array Section) :
    Takes headerSize (read rules known) :=
  takes_behind position fun start => takes_behind (lookahead Reader.tag) fun tag =>
    takes_readTagged rules known tag start

end Section

end RiteImage
