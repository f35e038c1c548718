import RiteImage.Image.Source
import RiteImage.Proofs.Extension
import RiteImage.Proofs.Failure
import RiteImage.Proofs.ImageLayout

/-! What a failure says about the bytes.
Every cause names a place, a number or a rule, and all of it is found in the buffer where
the cause says. A place is noted before or after the bytes there are read, and some readers
look ahead and come back, so each reader has to keep that what it blames is true. -/
namespace RiteImage

open Reader

def DebugSection.Counts (bytes : ByteArray) (count : Nat) : Prop :=
  ∃ place, Stands bytes place Tag.debug.bytes ∧ Stands bytes (place + 8) (wordBytes 2 count)

namespace Cause

/-- What a cause says about a buffer and about rules is so. -/
def TrueOf (rules : Strictness) (bytes : ByteArray) : Cause → Prop
  | .truncated offset needed available =>
    offset ≤ bytes.size ∧ offset + available = bytes.size ∧ available < needed
  | .wrongVersion found => Stands bytes 4 found.bytes ∧ found ≠ Tag.version
  | .wrongChecksum declared computed =>
    Stands bytes 8 (wordBytes 2 declared.toNat) ∧ computed ≠ declared ∧
      ∃ size : UInt32, Stands bytes 10 (wordBytes 4 size.toNat) ∧
        computed = Checksum.compute (between bytes 10 (min (10 + size.toNat) bytes.size)) 0
  | .unknownLineKind tag offset => Stands bytes offset [tag] ∧ 2 ≤ tag
  | .filenameOutOfRange index count offset =>
    Stands bytes offset (wordBytes 2 index.toNat) ∧ count ≤ index.toNat ∧
      DebugSection.Counts bytes count
  | .orphanLines offset => Stands bytes offset Tag.debug.bytes ∧
      ∃ sections, Section.TilesTo bytes Header.byteCount sections offset ∧
        ∀ s ∈ sections, s.tag ≠ Tag.irep
  | .malformed _ => True
  | .tooDeep limit => limit = rules.depthLimit

/-- The same, if a dictionary of this size is declared. -/
def TrueGiven (rules : Strictness) (count : Nat) (bytes : ByteArray) (e : Cause) : Prop :=
  DebugSection.Counts bytes count → e.TrueOf rules bytes

theorem Lacks.trueOf {rules : Strictness} {bytes : ByteArray} {e : Cause} (lacks : e.Lacks bytes) :
    e.TrueOf rules bytes := by
  obtain ⟨offset, needed, available, rfl, inside⟩ := lacks
  exact inside

end Cause

variable {α β : Type} {rules : Strictness} {bytes : ByteArray} {start : Nat} {e : Cause}

theorem Reader.Blames.trueOf {r : Reader α} [blames : Blames (Cause.TrueOf rules) r]
    (inside : start ≤ bytes.size) (failed : (r bytes start).result = .error e) :
    e.TrueOf rules bytes :=
  (blames.of_error inside failed).elim Cause.Lacks.trueOf id

theorem Reader.trueOf_bind {r : Reader α} {next : α → Reader β} {layout : Layout α}
    [Blames (Cause.TrueOf rules) r] (accepts : Accepts r layout) (inside : start ≤ bytes.size)
    (failed : ((r >>= next) bytes start).result = .error e)
    (behind : ∀ a segment, Stands bytes start segment → layout start a segment →
      (next a bytes (start + segment.length)).result = .error e → e.TrueOf rules bytes) :
    e.TrueOf rules bytes := by
  obtain part | ⟨a, middle, read, failed⟩ := error_bind_iff.mp failed
  · exact Blames.trueOf inside part
  · obtain ⟨segment, stands, written, rfl⟩ := (accepts _ _ _ _ inside).mp read
    exact behind a segment stands written failed

instance (count : Nat) (r : Reader α) [blames : Blames (Cause.TrueOf rules) r] :
    Blames (Cause.TrueGiven rules count) r where
  le_size := blames.le_size
  of_error inside failed := .inr fun _ => blames.trueOf inside failed

/-! Records. -/

instance (condition : Bool) (defect : Defect) :
    Blames (Cause.TrueOf rules) (require condition (.malformed defect)) :=
  blames_require fun _ => trivial

instance (rules' : Strictness) (part : Part) (start : Nat) (declared : UInt32) :
    Blames (Cause.TrueOf rules) (checkSize rules' part start declared) := by
  unfold checkSize; infer_instance

instance (tag : UInt8) (offset : Nat) :
    Blames (Cause.TrueOf rules) (Literal.reportUnknown tag offset) := by
  unfold Literal.reportUnknown Literal.reportUnknownBy; infer_instance

instance (value : Except Defect Literal) :
    Blames (Cause.TrueOf rules) (Literal.ofExcept value) := by
  cases value with
  | error defect => exact blames_fail fun _ => trivial
  | ok literal => exact (inferInstance : Blames (Cause.TrueOf rules) (pure literal))

instance : Blames (Cause.TrueOf rules) Literal.read := by unfold Literal.read Literal.readBy; infer_instance

instance (length : UInt16) : Blames (Cause.TrueOf rules) (Symbol.readName length) := by
  unfold Symbol.readName Symbol.readNameBy; infer_instance

instance : Blames (Cause.TrueOf rules) Symbol.read := by unfold Symbol.read Symbol.readBy; infer_instance

instance (entry : Reader α) [Blames (Cause.TrueOf rules) entry] :
    Blames (Cause.TrueOf rules) (readTable entry) := by
  unfold readTable readTableBy; infer_instance

instance : Blames (Cause.TrueOf rules) (Irep.read rules) := by unfold Irep.read Irep.readBy; infer_instance

instance (levels : Nat) : Blames (Cause.TrueOf rules) (Irep.readTree rules levels) := by
  induction levels with
  | zero => exact blames_fail fun _ => rfl
  | succ levels ih => unfold Irep.readTree Irep.nodeBy; infer_instance

instance : Blames (Cause.TrueOf rules) (IrepSection.read rules) := by
  unfold IrepSection.read IrepSection.readBy Irep.readAtDepth; infer_instance

instance : Blames (Cause.TrueOf rules) FileLines.readEntry := by
  unfold FileLines.readEntry FileLines.readEntryBy; infer_instance

instance (count : Nat) (kind : LineKind) :
    Blames (Cause.TrueOf rules) (FileLines.readLines count kind) := by
  cases kind <;> (unfold FileLines.readLines FileLines.readLinesBy; infer_instance)

theorem LineKind.two_le_of_ofTag? {tag : UInt8} (unknown : ofTag? tag = none) : 2 ≤ tag := by
  unfold ofTag? at unknown
  split at unknown
  · cases unknown
  · cases unknown
  · rename_i not_array not_map
    rw [UInt8.le_iff_toNat_le]
    rw [← UInt8.toNat_inj] at not_array not_map
    change tag.toNat ≠ 0 at not_array
    change tag.toNat ≠ 1 at not_map
    change 2 ≤ tag.toNat
    omega

namespace FileLines

theorem trueOf_of_readEncoding (inside : start ≤ bytes.size)
    (failed : (readEncoding bytes start).result = .error e) : e.TrueOf rules bytes := by
  rw [readEncoding, readEncodingBy, result_bind (reads_position.mpr ⟨rfl, rfl⟩)] at failed
  apply trueOf_bind accepts_u8 inside failed
  rintro tag _ stands rfl failed
  rcases unknown : LineKind.ofTag? tag with _ | kind
  · rw [encodingOfBy, unknown] at failed
    cases failed
    exact ⟨stands, LineKind.two_le_of_ofTag? unknown⟩
  · rw [encodingOfBy, unknown] at failed
    cases failed

instance : Blames (Cause.TrueOf rules) readEncoding where
  le_size := accepts_readEncoding.le_size
  of_error inside failed := .inr (trueOf_of_readEncoding inside failed)

theorem trueGiven_of_read {filenames : List String} (inside : start ≤ bytes.size)
    (failed : (read filenames bytes start).result = .error e) :
    e.TrueGiven rules filenames.length bytes := by
  intro counts
  apply trueOf_bind accepts_u32 inside failed
  rintro first _ stands rfl failed
  rw [result_bind (reads_position.mpr ⟨rfl, rfl⟩)] at failed
  apply trueOf_bind accepts_u16 stands.le_size failed
  rintro index _ stands rfl failed
  rcases missing : filenames[index.toNat]? with _ | filename
  · rw [resolveBy, missing] at failed
    cases failed
    exact ⟨stands, List.getElem?_eq_none_iff.mp missing, counts⟩
  · rw [resolveBy, missing] at failed
    exact Blames.trueOf stands.le_size failed

instance (filenames : List String) :
    Blames (Cause.TrueGiven rules filenames.length) (read filenames) where
  le_size := (accepts_read filenames).le_size
  of_error inside failed := .inr (trueGiven_of_read inside failed)

end FileLines

instance (filenames : List String) :
    Blames (Cause.TrueGiven rules filenames.length) (DebugRecord.read rules filenames) := by
  unfold DebugRecord.read DebugRecord.readBy; infer_instance

instance (filenames : List String) (shape : Tree α) :
    Blames (Cause.TrueGiven rules filenames.length)
      (DebugRecord.readTree rules filenames shape) :=
  kept_blames.mapM (g := fun _ => DebugRecord.read rules filenames) (fun _ => inferInstance) shape

instance : Blames (Cause.TrueOf rules) DebugSection.readName := by
  unfold DebugSection.readName DebugSection.readNameBy; infer_instance

instance : Blames (Cause.TrueOf rules) DebugSection.readNames := by
  unfold DebugSection.readNames DebugSection.readNamesBy; infer_instance

/-! Sections. -/

theorem DebugSection.trueOf_of_readFor {irep : Nat} {shape : Tree α}
    (mark : Stands bytes start Tag.debug.bytes)
    (failed : (readFor rules irep shape bytes start).result = .error e) :
    e.TrueOf rules bytes := by
  have inside : start ≤ bytes.size := Nat.le_trans (Nat.le_add_right _ _) mark.le_size
  rw [readFor, readForBy, result_bind (reads_position.mpr ⟨rfl, rfl⟩)] at failed
  apply trueOf_bind accepts_tag inside failed
  rintro tag _ stands rfl failed
  apply trueOf_bind accepts_u32 stands.le_size failed
  rintro size _ stands rfl failed
  apply trueOf_bind accepts_readNames stands.le_size failed
  rintro filenames _ stands ⟨-, names, -, rfl⟩ failed
  -- The records know the dictionary as a list; that its size stands in the buffer is known here.
  have counts : Counts bytes filenames.length := ⟨start, mark, (Stands.append_iff.mp stands).1⟩
  have blames : Blames (Cause.TrueGiven rules filenames.length)
      (DebugRecord.readTree rules filenames shape) := inferInstance
  obtain part | ⟨root, behind, read, failed⟩ := error_bind_iff.mp failed
  · obtain lacks | told := blames.of_error stands.le_size part
    · exact lacks.trueOf
    · exact told counts
  · exact Blames.trueOf (blames.le_size stands.le_size read) failed

namespace Section

variable {known : Array Section}

instance (size : UInt32) (report : Event) :
    Blames (Cause.TrueOf rules) (skipRest start size report) := by
  unfold skipRest; infer_instance

instance : Blames (Cause.TrueOf rules) (readEnd start) := by unfold readEnd; infer_instance

instance : Blames (Cause.TrueOf rules) (readIrep rules start) := by
  unfold readIrep; infer_instance

instance (tag : Tag) : Blames (Cause.TrueOf rules) (readSkipped tag start) := by
  unfold readSkipped; infer_instance

theorem kind_ne_of_nearestIrep {count : Nat} (missing : nearestIrep known count = none) :
    ∀ s ∈ known.toList.take count, s.kind ≠ .irep := by
  induction count with
  | zero => simp
  | succ count ih =>
    intro s mem is_irep
    rw [List.take_add_one, Array.getElem?_toList, List.mem_append, Option.mem_toList] at mem
    rw [nearestIrep] at missing
    split at missing
    · cases missing
    · rename_i other
      rcases mem with old | here
      · exact ih missing s old is_irep
      · cases s with
        | irep s => exact other s here
        | debug s => cases is_irep
        | skipped s => cases is_irep

theorem Contains.tag_ne {before : List Section} {s : Section}
    (contains : Contains rules bytes before s) (other : s.kind ≠ .irep) : s.tag ≠ Tag.irep := by
  cases s with
  | irep s => exact absurd rfl other
  | debug s => exact (by decide : Tag.debug ≠ Tag.irep)
  | skipped s => exact contains.2.1

theorem trueOf_of_readDebug
    (reached : Reached rules bytes Header.byteCount known.toList start)
    (mark : Stands bytes start Tag.debug.bytes)
    (failed : (readDebug rules known start bytes start).result = .error e) :
    e.TrueOf rules bytes := by
  rcases nearest : nearestIrep known known.size with _ | ⟨index, s⟩
  · rw [readDebug, nearest] at failed
    cases failed
    have none := kind_ne_of_nearestIrep nearest
    rw [List.take_of_length_le (Nat.le_of_eq Array.length_toList)] at none
    refine ⟨mark, known.toList, reached.tiles, fun s mem => ?_⟩
    obtain ⟨i, found⟩ := List.getElem?_of_mem mem
    exact (reached.decoded i s found).tag_ne (none s mem)
  · rw [readDebug, nearest] at failed
    obtain part | ⟨found, middle, read, failed⟩ := error_bind_iff.mp failed
    · exact DebugSection.trueOf_of_readFor mark part
    · have inside := (DebugSection.accepts_readFor rules index s.root).le_size reached.inside read
      exact Blames.trueOf inside failed

theorem trueOf_of_read (reached : Reached rules bytes Header.byteCount known.toList start)
    (failed : (read rules known bytes start).result = .error e) : e.TrueOf rules bytes := by
  rw [read, result_bind (reads_position.mpr ⟨rfl, rfl⟩)] at failed
  obtain part | ⟨tag, _, read, failed⟩ := error_bind_iff.mp failed
  · exact Blames.trueOf reached.inside part
  obtain ⟨⟨_, read⟩, rfl⟩ := reads_lookahead.mp read
  obtain ⟨_, mark, rfl, -⟩ := (accepts_tag _ _ _ _ reached.inside).mp read
  unfold readTagged at failed
  split at failed
  · exact Blames.trueOf reached.inside failed
  split at failed
  · exact Blames.trueOf reached.inside failed
  split at failed
  · rename_i is_debug
    exact trueOf_of_readDebug reached (is_debug ▸ mark) failed
  · exact Blames.trueOf reached.inside failed

/-- What is known grows section by section, and a failure is judged by what is known then. -/
theorem trueOf_of_readFrom (reached : Reached rules bytes Header.byteCount known.toList start)
    (failed : (readFrom rules bytes start known).result = .error e) : e.TrueOf rules bytes := by
  induction start, known using rounds.induct rules bytes with
  | case1 start known stop events run =>
    rw [readFrom_of_none run] at failed
    cases failed
  | case2 start known next middle events run ih =>
    rw [readFrom_of_some run] at failed
    have follows := (reads_some_iff reached.inside).mp (reads_of_eq run)
    exact ih (reached_extend reached follows) failed
  | case3 start known _ stop events run =>
    rw [readFrom_of_error run] at failed
    cases failed
    exact trueOf_of_read reached (by rw [run])

end Section

/-! Images. -/

theorem Header.trueOf_of_read (failed : (Header.read bytes 0).result = .error e) :
    e.TrueOf rules bytes := by
  simp only [Header.read, Header.readBy, Header.readNamesBy] at failed
  apply trueOf_bind accepts_tag (Nat.zero_le _) failed
  rintro magic _ one rfl failed
  apply trueOf_bind accepts_tag one.le_size failed
  rintro version _ two rfl failed
  obtain ⟨unknown, rfl⟩ | ⟨-, failed⟩ := error_require_bind_iff.mp failed
  · exact ⟨two, of_decide_eq_false unknown⟩
  apply trueOf_bind accepts_u16 two.le_size failed
  rintro declared _ three rfl failed
  apply trueOf_bind accepts_u32 three.le_size failed
  rintro size _ four rfl failed
  rw [checkContent_bind] at failed
  obtain ⟨wrong, rfl⟩ | ⟨-, failed⟩ := error_require_bind_iff.mp failed
  · exact ⟨three, of_decide_eq_false wrong, size, four, rfl⟩
  exact Blames.trueOf four.le_size failed

namespace Image

theorem trueOf_of_decode (failed : (decode rules bytes).result = .error e) :
    e.TrueOf rules bytes := by
  rw [decode, read] at failed
  obtain part | ⟨header, start, head, failed⟩ := error_bind_iff.mp failed
  · exact Header.trueOf_of_read part
  have inside := le_size_of_reads_header head
  obtain ⟨-, rfl⟩ | ⟨-, failed⟩ := error_require_bind_iff.mp failed
  · trivial
  obtain rfl := stop_of_reads_header head
  obtain part | ⟨_, _, -, last⟩ := error_bind_iff.mp failed
  · exact Section.trueOf_of_readFrom (Section.reached_nil inside) part
  · cases last

/-- Whatever the rules are, a failure is a true diagnosis. To load an opened source fails with the
same cause, and never for the source itself. -/
theorem decode_diagnosis (failed : (decode rules bytes).result = .error e) :
    e.TrueOf rules bytes ∧ ∀ source : Source, source.bytes = bytes →
      (Loading.ofSource rules (.ok source)).result = .error (.decode e) := by
  refine ⟨trueOf_of_decode failed, fun source same => ?_⟩
  subst same
  rcases run : decode rules source.bytes with ⟨_, stop, events⟩
  rw [run] at failed
  cases failed
  simp only [Loading.ofSource, run]

/-- Line tables behind a section that is skipped, and no instruction tree before them. -/
def orphanBytes : ByteArray := ⟨#[
  0x52, 0x49, 0x54, 0x45, 0x30, 0x30, 0x30, 0x33, 0xE8, 0x32, 0, 0, 0, 12,
  0x4D, 0x41, 0x54, 0x5A, 0x30, 0x30, 0x30, 0x30,
  0x4C, 0x56, 0x41, 0x52, 0, 0, 0, 8,
  0x44, 0x42, 0x47, 0x00]⟩

def orphanHeader : Header :=
  ⟨Tag.magic, Tag.version, 0xE832, 12, Tag.ofChars 'M' 'A' 'T' 'Z', Tag.ofChars '0' '0' '0' '0'⟩

theorem decode_diagnosis_orphan : (decode .lenient orphanBytes).result = .error (.orphanLines 30) ∧
    Stands orphanBytes 30 Tag.debug.bytes ∧
    ∃ sections, Section.TilesTo orphanBytes 22 sections 30 ∧ ∀ s ∈ sections, s.tag ≠ Tag.irep := by
  have head : Reads Header.read orphanBytes 0 orphanHeader 22 :=
    ⟨by decide +kernel, by decide +kernel⟩
  have names : Section.read .lenient #[] orphanBytes 22 =
      ⟨.ok (some (.skipped ⟨Tag.localNames, 22, 8⟩)), 30,
        [.skippedSection Tag.localNames 22 8]⟩ := rfl
  have lines : Section.read .lenient #[.skipped ⟨Tag.localNames, 22, 8⟩] orphanBytes 30 =
      ⟨.error (.orphanLines 30), 30, []⟩ := rfl
  have failed : (decode .lenient orphanBytes).result = .error (.orphanLines 30) := by
    rw [decode, read, readBy, result_bind head,
      result_bind (reads_require.mpr ⟨by decide, rfl⟩ : Reads _ _ _ () _)]
    apply result_bind_of_error
    rw [Section.readAll, Section.readFrom_of_some names]
    exact congrArg Outcome.result (Section.readFrom_of_error lines)
  exact ⟨failed, (decode_diagnosis failed).1⟩

end Image

end RiteImage
