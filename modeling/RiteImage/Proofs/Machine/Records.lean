import RiteImage.Code.Irep
import RiteImage.Lines.Debug
import RiteImage.Proofs.Machine.Reader

namespace RiteImage.Machine

variable {α β : Type}

/-- The depth of the children is computed for each of them. -/
def readTree (rules : Strictness) (depth : UInt64) : Machine (Tree Irep) :=
  if _deep : rules.depthLimit < depth.toNat then fail (.tooDeep rules.depthLimit)
  else Irep.nodeBy replicateM (Irep.readBy primitives rules) (do
    let below ← attempt (Word.add depth 1).attach
    readTree rules below.val)
termination_by rules.depthLimit + 1 - depth.toNat
decreasing_by
  have sum := Word.toNat_of_add below.property
  change below.val.toNat = depth.toNat + 1 at sum
  omega

variable {low : Nat}

theorem simulates_take_length (low : Nat) (length : UInt16) :
    Simulates low (take length.toUInt64) (Reader.take length.toNat) :=
  simulates_take low length.toUInt64

theorem simulates_report (low : Nat) (tag : UInt8) (offset : Nat) :
    Simulates low (Literal.reportUnknownBy primitives tag offset)
      (Literal.reportUnknown tag offset) := by
  unfold Literal.reportUnknown Literal.reportUnknownBy
  split
  · exact simulates_log low _
  · exact simulates_pure low ()

theorem simulates_ofExcept (low : Nat) (value : Except Defect Literal) :
    Simulates low (Literal.ofExceptBy primitives value) (Literal.ofExcept value) := by
  cases value with
  | ok literal => exact simulates_pure low literal
  | error defect => exact simulates_fail low _

theorem simulates_literal (low : Nat) : Simulates low (Literal.readBy primitives) Literal.read :=
  (simulates_u8 low).bind fun _ =>
    (simulates_u16 low).bind fun length =>
      simulates_position_bind fun _ _ =>
        (simulates_take_length _ length).bind fun _ =>
          (simulates_report _ _ _).bind fun _ => simulates_ofExcept _ _

theorem simulates_symbol (low : Nat) : Simulates low (Symbol.readBy primitives) Symbol.read := by
  refine (simulates_u16 low).bind fun length => ?_
  split
  · exact simulates_pure low ""
  · exact (simulates_take_length low length).bind fun name =>
      (simulates_skip low 1).bind fun _ => simulates_pure low _

theorem simulates_table {entry : Machine α} {entry' : Reader α} (h : Simulates low entry entry') :
    Simulates low (readTableBy primitives entry) (readTable entry') :=
  (simulates_u32 low).bind fun count => simulates_replicate h count.toNat

theorem simulates_irep (low : Nat) (rules : Strictness) :
    Simulates low (Irep.readBy primitives rules) (Irep.read rules) := by
  refine simulates_position_bind fun offset _ => ?_
  refine (simulates_u32 _).bind fun recordSize => ?_
  refine (simulates_u16 _).bind fun localCount => ?_
  refine (simulates_u16 _).bind fun registerCount => ?_
  refine (simulates_u16 _).bind fun childCount => ?_
  refine (simulates_u32 _).bind fun opcodeCount => ?_
  refine (simulates_align _ (by decide : 0 < (4 : UInt64).toNat)).bind fun _ => ?_
  refine (simulates_replicate (simulates_u32 _) _).bind fun opcodes => ?_
  refine (simulates_table (simulates_literal _)).bind fun pool => ?_
  refine (simulates_table (simulates_symbol _)).bind fun symbols => ?_
  refine (simulates_checkSize rules .irep offset recordSize).bind fun _ => ?_
  exact (simulates_log _ _).bind fun _ => simulates_pure _ _

instance : Reader.Advancing Reader.u32 :=
  have := Reader.advancing_take 4 (by decide)
  have : Reader.Advancing (Reader.word 4) := Reader.advancing_bind (Reader.take 4) _
  Reader.advancing_bind (Reader.word 4) fun n => pure (UInt32.ofNat n)

theorem lt_of_reads_irep {rules : Strictness} {bytes : ByteArray} {start stop : Nat}
    {found : Irep × Nat} (read : Reader.Reads (Irep.read rules) bytes start found stop) :
    start + 1 ≤ stop := by
  have advancing : Reader.Advancing (Irep.read rules) := by
    unfold Irep.read Irep.readBy
    exact Reader.advancing_bind_rest _ _ fun _ => Reader.advancing_bind _ _
  exact read.2 ▸ (advancing.lt_of_ok bytes start found read.1).1

theorem attach_of_eq_some {o : Option α} {a : α} (exact : o = some a) :
    o.attach = some ⟨a, exact⟩ := by
  subst exact
  rfl

/-- The depth of a tree is no greater than its position, so that it can be counted. -/
theorem simulates_readTree (rules : Strictness) (levels : Nat) (depth : UInt64)
    (left : rules.depthLimit + 1 - depth.toNat = levels) :
    Simulates depth.toNat (readTree rules depth) (Irep.readTree rules levels) := by
  induction levels generalizing depth with
  | zero =>
    rw [readTree, dif_pos (by omega)]
    exact simulates_fail _ _
  | succ levels ih =>
    rw [readTree, dif_neg (by omega), Irep.readTree]
    refine (simulates_irep _ rules).bind_reach (fun _ _ _ _ => lt_of_reads_irep) fun found => ?_
    refine (simulates_replicate ?_ found.2).bind fun children => simulates_pure _ _
    intro bytes here small above inside
    have fits : depth.toNat + (1 : UInt64).toNat < 2 ^ 64 := by
      change depth.toNat + 1 < _
      omega
    obtain ⟨next, exact, sum⟩ := Word.add_of_lt fits
    change next.toNat = depth.toNat + 1 at sum
    rw [attempt_bind (attach_of_eq_some exact)]
    exact ih next (by omega) bytes here small (by omega) inside

theorem simulates_entry (low : Nat) :
    Simulates low (FileLines.readEntryBy primitives) FileLines.readEntry :=
  (simulates_u32 low).bind fun _ => (simulates_u16 low).bind fun _ => simulates_pure low _

theorem simulates_lines (low count : Nat) (encoding : LineKind) :
    Simulates low (FileLines.readLinesBy primitives count encoding)
      (FileLines.readLines count encoding) := by
  cases encoding with
  | array =>
    exact (simulates_replicate (simulates_u16 low) count).bind fun _ => simulates_pure low _
  | map =>
    exact (simulates_replicate (simulates_entry low) count).bind fun _ => simulates_pure low _

theorem simulates_resolve (low : Nat) (filenames : List String) (index : UInt16) (offset : Nat) :
    Simulates low (FileLines.resolveBy primitives filenames index offset)
      (FileLines.resolve filenames index offset) := by
  unfold FileLines.resolve FileLines.resolveBy
  cases filenames[index.toNat]? with
  | none => exact simulates_fail low _
  | some filename => exact simulates_pure low filename

theorem simulates_encodingOf (low : Nat) (tag : UInt8) (offset : Nat) :
    Simulates low (FileLines.encodingOfBy primitives tag offset)
      (FileLines.encodingOf tag offset) := by
  unfold FileLines.encodingOf FileLines.encodingOfBy
  cases LineKind.ofTag? tag with
  | none => exact simulates_fail low _
  | some encoding => exact simulates_pure low encoding

theorem simulates_file (low : Nat) (filenames : List String) :
    Simulates low (FileLines.readBy primitives filenames) (FileLines.read filenames) := by
  refine (simulates_u32 low).bind fun start => ?_
  refine simulates_position_bind fun offset _ => ?_
  refine (simulates_u16 _).bind fun index => ?_
  refine (simulates_resolve _ filenames index _).bind fun filename => ?_
  refine (simulates_u32 _).bind fun count => ?_
  have encoding (low : Nat) :
      Simulates low (FileLines.readEncodingBy primitives) FileLines.readEncoding :=
    simulates_position_bind fun offset _ =>
      (simulates_u8 _).bind fun tag => simulates_encodingOf _ tag _
  refine (encoding _).bind fun encoding => ?_
  exact (simulates_lines _ count.toNat encoding).bind fun lines => simulates_pure _ _

theorem simulates_record (low : Nat) (rules : Strictness) (filenames : List String) :
    Simulates low (DebugRecord.readBy primitives rules filenames)
      (DebugRecord.read rules filenames) := by
  refine simulates_position_bind fun offset _ => ?_
  refine (simulates_u32 _).bind fun recordSize => ?_
  refine (simulates_u16 _).bind fun fileCount => ?_
  refine (simulates_replicate (simulates_file _ filenames) _).bind fun files => ?_
  refine (simulates_checkSize rules .debugRecord offset recordSize).bind fun _ => ?_
  exact simulates_pure _ _

end RiteImage.Machine
