import RiteImage.Proofs.Stable
import RiteImage.Proofs.Tiling

/-! Images that are cut off or have bytes behind them.
Every reader of an image is stable, the loop over sections included: a section looks
ahead at its tag and its size, but it is left behind both. So bytes behind what was read
make no difference, and bytes are missing wherever the buffer ends before that. -/
namespace RiteImage

variable {α β : Type}

open Reader

instance (rules : Strictness) (part : Part) (start : Nat) (declared : UInt32) :
    Stable (checkSize rules part start declared) := by
  unfold checkSize; infer_instance

instance (tag : UInt8) (offset : Nat) : Stable (Literal.reportUnknown tag offset) := by
  unfold Literal.reportUnknown Literal.reportUnknownBy; infer_instance

instance (value : Except Defect Literal) : Stable (Literal.ofExcept value) := by
  cases value <;> (unfold Literal.ofExcept Literal.ofExceptBy; infer_instance)

instance : Stable Literal.read := by unfold Literal.read Literal.readBy; infer_instance

instance (length : UInt16) : Stable (Symbol.readName length) := by
  unfold Symbol.readName Symbol.readNameBy; infer_instance

instance : Stable Symbol.read := by unfold Symbol.read Symbol.readBy; infer_instance

instance (entry : Reader α) [Stable entry] : Stable (readTable entry) := by
  unfold readTable readTableBy; infer_instance

instance (rules : Strictness) : Stable (Irep.read rules) := by unfold Irep.read Irep.readBy; infer_instance

instance (rules : Strictness) (levels : Nat) : Stable (Irep.readTree rules levels) := by
  induction levels with
  | zero => unfold Irep.readTree; infer_instance
  | succ levels ih => unfold Irep.readTree Irep.nodeBy; infer_instance

instance (rules : Strictness) (depth : Nat) : Stable (Irep.readAtDepth rules depth) := by
  unfold Irep.readAtDepth; infer_instance

instance (rules : Strictness) : Stable (IrepSection.read rules) := by
  unfold IrepSection.read IrepSection.readBy; infer_instance

instance : Stable FileLines.readEntry := by unfold FileLines.readEntry FileLines.readEntryBy; infer_instance

instance (count : Nat) (encoding : LineKind) : Stable (FileLines.readLines count encoding) := by
  cases encoding <;> (unfold FileLines.readLines FileLines.readLinesBy; infer_instance)

instance (filenames : List String) (index : UInt16) (offset : Nat) :
    Stable (FileLines.resolve filenames index offset) := by
  unfold FileLines.resolve FileLines.resolveBy
  split <;> infer_instance

instance (tag : UInt8) (offset : Nat) : Stable (FileLines.encodingOf tag offset) := by
  unfold FileLines.encodingOf FileLines.encodingOfBy
  split <;> infer_instance

instance : Stable FileLines.readEncoding := by unfold FileLines.readEncoding FileLines.readEncodingBy; infer_instance

instance (filenames : List String) : Stable (FileLines.read filenames) := by
  unfold FileLines.read FileLines.readBy; infer_instance

instance (rules : Strictness) (filenames : List String) :
    Stable (DebugRecord.read rules filenames) := by
  unfold DebugRecord.read DebugRecord.readBy; infer_instance

instance (rules : Strictness) (filenames : List String) (shape : Tree α) :
    Stable (DebugRecord.readTree rules filenames shape) :=
  kept_stable.mapM (g := fun _ => DebugRecord.read rules filenames) (fun _ => inferInstance) shape

instance : Stable DebugSection.readName := by unfold DebugSection.readName DebugSection.readNameBy; infer_instance

instance : Stable DebugSection.readNames := by unfold DebugSection.readNames DebugSection.readNamesBy; infer_instance

instance (rules : Strictness) (irep : Nat) (shape : Tree α) :
    Stable (DebugSection.readFor rules irep shape) := by
  unfold DebugSection.readFor DebugSection.readForBy; infer_instance

instance : Stable (DebugSection.refuse : Reader α) := by
  unfold DebugSection.refuse DebugSection.refuseBy; infer_instance

namespace Section

variable {rules : Strictness} {known : Array Section} {bytes : ByteArray} {begin start stop : Nat}

instance (size : UInt32) (report : Event) : Stable (skipRest begin size report) := by
  unfold skipRest; infer_instance

instance : Stable (readEnd begin) := by unfold readEnd; infer_instance

instance : Stable (readIrep rules begin) := by unfold readIrep; infer_instance

instance : Stable (readDebug rules known begin) := by
  unfold readDebug
  split
  · unfold readLinesOf; infer_instance
  · infer_instance

theorem stop_of_reads_size {size : UInt32}
    (read : Reads (do skip 4; u32) bytes start size stop) : stop = start + headerSize := by
  obtain ⟨-, word⟩ := reads_skip_bind.mp read
  exact stop_of_reads_u32 word

theorem headerSize_le_of_reads_readSkipped {tag : Tag} {o : Option Section}
    (read : Reads (readSkipped tag begin) bytes start o stop) : start + headerSize ≤ stop := by
  obtain ⟨size, -, rest⟩ := reads_lookahead_bind.mp read
  obtain ⟨covers, rest⟩ := reads_require_bind.mp rest
  obtain ⟨-, rest⟩ := reads_skip_bind.mp (reads_log_bind.mp rest)
  obtain ⟨-, rfl⟩ := reads_pure.mp rest
  exact Nat.add_le_add_left (of_decide_eq_true covers) start

/-- The size is looked at ahead of a jump that covers it. -/
instance (tag : Tag) : Stable (readSkipped tag begin) := by
  unfold readSkipped
  refine stable_lookahead_bind _ _ fun bytes start size middle o stop head rest => ?_
  have whole : Reads (readSkipped tag begin) bytes start o stop :=
    reads_lookahead_bind.mpr ⟨size, ⟨middle, head⟩, rest⟩
  rw [stop_of_reads_size head]
  exact headerSize_le_of_reads_readSkipped whole

instance (tag : Tag) : Stable (readTagged rules known tag begin) := by
  unfold readTagged; infer_instance

theorem four_le_of_reads_readTagged {tag : Tag} {o : Option Section}
    (read : Reads (readTagged rules known tag begin) bytes start o stop) : start + 4 ≤ stop := by
  unfold readTagged at read
  split at read
  · obtain ⟨-, rest⟩ := reads_skip_bind.mp read
    exact le_of_reads rest
  split at read
  · obtain ⟨s, middle, content, rest⟩ := reads_bind.mp read
    have := four_le_of_reads_tagged (reads_position_bind.mp content)
    have := le_of_reads rest
    omega
  split at read
  · unfold readDebug at read
    split at read
    · obtain ⟨s, middle, content, rest⟩ := reads_bind.mp read
      have := four_le_of_reads_tagged (reads_position_bind.mp content)
      have := le_of_reads rest
      omega
    · exact absurd (reads_position_bind.mp read) reads_fail
  · have := headerSize_le_of_reads_readSkipped read
    rw [headerSize] at this
    omega

instance : Stable (read rules known) := by
  unfold read
  have (begin : Nat) := stable_lookahead_bind Reader.tag (readTagged rules known · begin)
    fun bytes start tag middle o stop head rest => by
      rw [stop_of_reads_tag head]
      exact four_le_of_reads_readTagged rest
  infer_instance

theorem start_le_readFrom (rules : Strictness) (bytes : ByteArray) (start : Nat)
    (known : Array Section) : start ≤ (readFrom rules bytes start known).position := by
  have further (known : Array Section) (start : Nat) {o stop events}
      (run : read rules known bytes start = ⟨o, stop, events⟩) : start ≤ stop := by
    have forward : Forward (read rules known) := inferInstance
    have le := forward.start_le bytes start
    rwa [run] at le
  induction start, known using rounds.induct rules bytes with
  | case1 start known stop events run =>
    rw [readFrom_of_none run]
    exact further known start run
  | case2 start known next middle events run ih =>
    rw [readFrom_of_some run]
    exact Nat.le_trans (further known start run) ih
  | case3 start known e stop events run =>
    rw [readFrom_of_error run]
    exact further known start run

theorem le_of_run {sections : Array Section} (run : Run rules bytes known start sections stop) :
    start ≤ stop :=
  (readFrom_of_run run).2 ▸ start_le_readFrom rules bytes start known

theorem agrees_readFrom (rules : Strictness) (bytes more : ByteArray) (start : Nat)
    (known : Array Section) (inside : start ≤ bytes.size) :
    Agrees bytes.size (readFrom rules bytes start known)
      (readFrom rules (bytes ++ more) start known) := by
  induction start, known using rounds.induct rules bytes with
  | case1 start known stop events run =>
    obtain ⟨same, within⟩ := run_append_of_ok run inside more
    rw [readFrom_of_none run, readFrom_of_none same]
    exact .same rfl within
  | case2 start known next middle events run ih =>
    obtain ⟨same, within⟩ := run_append_of_ok run inside more
    rw [readFrom_of_some run, readFrom_of_some same]
    exact (ih within).prepend events
  | case3 start known e stop events run =>
    have agrees := (inferInstance : Stable (read rules known)).agrees bytes more start inside
    rw [run] at agrees
    rw [readFrom_of_error run]
    cases agrees with
    | same eq within =>
      rw [readFrom_of_error eq]
      exact .same rfl within
    | cut truncated beyond =>
      obtain ⟨offset, needed, available, missing⟩ := truncated
      refine .cut ⟨offset, needed, available, by cases missing; rfl⟩ fun sections ok => ?_
      cases run_of_readFrom ok rfl with
      | done last => exact last.2 ▸ beyond _ last.1
      | step first rest =>
        exact Nat.lt_of_lt_of_le (first.2 ▸ beyond _ first.1) (le_of_run rest)

instance : Stable (readAll rules) where
  start_le bytes start := start_le_readFrom rules bytes start #[]
  agrees bytes more start inside := agrees_readFrom rules bytes more start #[] inside

end Section

namespace Reader

/-- Trees, line tables and sections lack bytes only before their end, which is that of the end
marker for sections. -/
theorem cutsCleanly_readers (rules : Strictness) (depth : Nat) (filenames : List String)
    (shape : Tree α) :
    CutsCleanly (runAt (Irep.readAtDepth rules depth)) ∧
      CutsCleanly (runAt (DebugRecord.readTree rules filenames shape)) ∧
      CutsCleanly (runAt (Section.readAll rules)) ∧
      ∀ bytes start sections stop,
        (runAt (Section.readAll rules) bytes start).result = .ok sections →
        (runAt (Section.readAll rules) bytes start).position = stop →
        ∃ marker, Stands bytes marker Tag.endMarker.bytes ∧
          stop = marker + Section.endMarkerSize := by
  refine ⟨cutsCleanly_runAt _, cutsCleanly_runAt _, cutsCleanly_runAt _, ?_⟩
  intro bytes start sections stop ok ends
  obtain ⟨inside, read⟩ := reads_runAt.mp ⟨ok, ends⟩
  obtain ⟨⟨marker, -, stands, rfl, -⟩, -, -⟩ :=
    Section.tiling_of_run (Section.reads_readAll_iff.mp read) (Section.reached_nil inside)
  exact ⟨marker, stands, rfl⟩

end Reader

end RiteImage
