import RiteImage.Lines.Debug
import RiteImage.Proofs.IrepLayout
import RiteImage.Proofs.TreeShape

namespace RiteImage

open Reader

def LineKind.tag : LineKind → UInt8
  | .array => 0
  | .map => 1

theorem LineKind.ofTag?_eq_some_iff {tag : UInt8} {kind : LineKind} :
    ofTag? tag = some kind ↔ tag = kind.tag := by
  constructor
  · intro found
    unfold ofTag? at found
    split at found <;> cases found <;> rfl
  · rintro rfl
    cases kind <;> rfl

def LineTable.bytes : LineTable → List UInt8
  | .array lines => lines.toList.flatMap fun line => wordBytes 2 line.toNat
  | .map entries => entries.toList.flatMap fun entry =>
    wordBytes 4 entry.offset.toNat ++ wordBytes 2 entry.line.toNat

def FileLines.bytes (file : FileLines) : List UInt8 :=
  wordBytes 4 file.start.toNat ++ wordBytes 2 file.filenameIndex.toNat ++
  wordBytes 4 file.lines.size ++ [file.lines.encoding.tag] ++ file.lines.bytes

namespace DebugRecord

def bytes (record : DebugRecord) : List UInt8 :=
  wordBytes 4 record.recordSize.toNat ++ wordBytes 2 record.files.length ++
  record.files.flatMap FileLines.bytes

/-- A record that stands at `offset` and whose numbers of entries can be written. -/
structure Written (offset : Nat) (record : DebugRecord) (bytes : List UInt8) : Prop where
  offset_eq : record.offset = offset
  files_lt : record.files.length < 2 ^ 16
  lines_lt : ∀ file ∈ record.files, file.lines.size < 2 ^ 32
  bytes_eq : bytes = record.bytes

def Named (filenames : List String) (record : DebugRecord) : Prop :=
  ∀ file ∈ record.files, filenames[file.filenameIndex.toNat]? = some file.filename

def Exact (record : DebugRecord) : Prop := record.recordSize.toNat = record.bytes.length

end DebugRecord

namespace FileLines

theorem accepts_readEntry : Accepts readEntry fun _ entry segment =>
    segment = wordBytes 4 entry.offset.toNat ++ wordBytes 2 entry.line.toNat := by
  refine Accepts.congr (accepts_bind_written accepts_u32 fun offset =>
    accepts_bind_end accepts_u16 fun line => accepts_pure _) ?_
  intro start entry segment
  constructor
  · intro h
    obtain ⟨offset, _, rfl, line, rfl, rfl⟩ := h
    rfl
  · intro h
    exact ⟨entry.offset, _, h, entry.line, rfl, rfl⟩

theorem accepts_readLines (count : Nat) (kind : LineKind) :
    Accepts (readLines count kind) fun _ table segment =>
      table.encoding = kind ∧ table.size = count ∧ segment = table.bytes := by
  cases kind with
  | array =>
    refine Accepts.congr (accepts_bind_end (accepts_replicate_written accepts_u16 count)
      fun lines => accepts_pure _) ?_
    intro start table segment
    constructor
    · intro h
      obtain ⟨lines, ⟨length, rfl⟩, rfl⟩ := h
      exact ⟨rfl, length, rfl⟩
    · intro h
      obtain ⟨kind, size, rfl⟩ := h
      cases table with
      | array lines => exact ⟨lines.toList, ⟨size, rfl⟩, rfl⟩
      | map entries => cases kind
  | map =>
    refine Accepts.congr (accepts_bind_end (accepts_replicate_written accepts_readEntry count)
      fun entries => accepts_pure _) ?_
    intro start table segment
    constructor
    · intro h
      obtain ⟨entries, ⟨length, rfl⟩, rfl⟩ := h
      exact ⟨rfl, length, rfl⟩
    · intro h
      obtain ⟨kind, size, rfl⟩ := h
      cases table with
      | array lines => cases kind
      | map entries => exact ⟨entries.toList, ⟨size, rfl⟩, rfl⟩

theorem accepts_resolve (filenames : List String) (index : UInt16) (offset : Nat) :
    Accepts (resolve filenames index offset) fun _ filename segment =>
      filenames[index.toNat]? = some filename ∧ segment = [] := by
  unfold resolve resolveBy
  split
  · rename_i filename found
    exact (accepts_pure filename).congr fun _ _ _ => by simp [found, eq_comm]
  · rename_i missing
    exact (accepts_fail _).congr fun _ _ _ => by simp [missing]

theorem accepts_encodingOf (tag : UInt8) (offset : Nat) :
    Accepts (encodingOf tag offset) fun _ kind segment => tag = kind.tag ∧ segment = [] := by
  unfold encodingOf encodingOfBy
  simp only [← LineKind.ofTag?_eq_some_iff]
  split
  · rename_i kind found
    exact (accepts_pure kind).congr fun _ _ _ => by simp [found, eq_comm]
  · rename_i unknown
    exact (accepts_fail _).congr fun _ _ _ => by simp [unknown]

theorem accepts_readEncoding : Accepts readEncoding fun _ kind segment =>
    segment = [kind.tag] := by
  refine Accepts.congr (accepts_bind_position fun offset => accepts_bind_written accepts_u8
    fun tag => accepts_encodingOf tag offset) ?_
  intro start kind segment
  constructor
  · intro h
    obtain ⟨_, _, rfl, rfl, rfl⟩ := h
    rfl
  · intro h
    exact ⟨kind.tag, [], h, rfl, rfl⟩

theorem accepts_read (filenames : List String) : Accepts (read filenames) fun _ file segment =>
    segment = file.bytes ∧ file.lines.size < 2 ^ 32 ∧
      filenames[file.filenameIndex.toNat]? = some file.filename := by
  refine Accepts.congr (accepts_bind_written accepts_u32 fun first =>
    accepts_bind_position fun offset => accepts_bind_written accepts_u16 fun index =>
    accepts_bind_still (accepts_resolve filenames index offset) fun filename =>
    accepts_bind_written accepts_u32 fun count => accepts_bind_written accepts_readEncoding
    fun kind => accepts_bind_end (accepts_readLines _ kind) fun lines => accepts_pure _) ?_
  intro start file segment
  constructor
  · intro h
    obtain ⟨first, _, rfl, index, _, rfl, filename, named, count, _, rfl, kind, _, rfl, lines,
      ⟨rfl, size, rfl⟩, rfl⟩ := h
    have short : lines.size < 2 ^ 32 := size ▸ count.toNat_lt
    refine ⟨?_, short, named⟩
    simp only [FileLines.bytes, size, List.append_assoc]
  · intro h
    obtain ⟨rfl, short, named⟩ := h
    obtain ⟨first, index, filename, lines⟩ := file
    have count : (UInt32.ofNat lines.size).toNat = lines.size := UInt32.toNat_ofNat_of_lt' short
    simp only [FileLines.bytes, List.append_assoc]
    exact ⟨first, _, rfl, index, _, rfl, filename, named, UInt32.ofNat lines.size, _, by rw [count],
      lines.encoding, _, rfl, lines, ⟨rfl, count.symm, rfl⟩, rfl⟩

end FileLines

namespace DebugRecord

theorem accepts_read (rules : Strictness) (filenames : List String) :
    Accepts (read rules filenames) fun offset record segment =>
      Written offset record segment ∧ Named filenames record ∧
        (rules.enforceSizes = true → Exact record) := by
  refine Accepts.congr (accepts_bind_position fun offset => accepts_bind_written accepts_u32
    fun recordSize => accepts_bind_written accepts_u16 fun count =>
    accepts_bind_end (accepts_replicate (FileLines.accepts_read filenames) _) fun files =>
    accepts_finish rules .debugRecord offset recordSize (accepts_pure _)) ?_
  intro start record segment
  simp only [Layout.each_and, Layout.each_iff_flatMap, length_wordBytes]
  constructor
  · intro h
    obtain ⟨recordSize, _, rfl, count, _, rfl, files, ⟨length, rfl, each_ok⟩, exactly, rfl⟩ := h
    have files_lt : files.length < 2 ^ 16 := length ▸ count.toNat_lt
    have same : wordBytes 4 recordSize.toNat ++ (wordBytes 2 count.toNat ++
        files.flatMap FileLines.bytes) = bytes ⟨start, recordSize, files⟩ := by
      rw [bytes, length, List.append_assoc]
    refine ⟨⟨rfl, files_lt, fun file member => (each_ok file member).1, same⟩,
      fun file member => (each_ok file member).2, fun enforced => ?_⟩
    refine (exactly enforced).symm.trans ?_
    rw [← same]
    simp only [List.length_append, length_wordBytes]
    omega
  · intro h
    obtain ⟨⟨placed, filesLt, linesLt, rfl⟩, named, exactly⟩ := h
    obtain ⟨offset, recordSize, files⟩ := record
    obtain rfl : offset = start := placed
    have count : (UInt16.ofNat files.length).toNat = files.length :=
      UInt16.toNat_ofNat_of_lt' filesLt
    refine ⟨recordSize, _, List.append_assoc _ _ _, UInt16.ofNat files.length, _, by rw [count],
      files, ⟨count.symm, rfl, fun file member => ⟨linesLt file member, named file member⟩⟩,
      fun enforced => ?_, rfl⟩
    refine Eq.trans ?_ (exactly enforced).symm
    simp only [bytes, List.length_append, length_wordBytes]
    omega

theorem accepts_readTree {α : Type} (rules : Strictness) (filenames : List String)
    (shape : Tree α) : Accepts (readTree rules filenames shape) fun start tree segment =>
      shape.SameShape tree ∧
        Tree.Laid (fun start record _ => Written start record) start tree segment ∧
        tree.Every (fun record => Named filenames record ∧
          (rules.enforceSizes = true → Exact record)) :=
  (Tree.accepts_mapM (accepts_read rules filenames) shape).congr fun _ _ _ =>
    and_congr_right' Tree.laid_and

/-- What is read has the shape of the given tree, refers to filenames of the dictionary and stands
in the buffer in pre-order; under strict rules its sizes are exact. Any tree of the same shape
leads to the same outcome. -/
theorem reads_iff_sameShape {α β : Type} (rules : Strictness) (filenames : List String)
    (shape : Tree α) (bytes : ByteArray) (start : Nat) (inside : start ≤ bytes.size) :
    (∀ tree next, Reads (readTree rules filenames shape) bytes start tree next ↔
      shape.SameShape tree ∧ tree.Every (Named filenames) ∧ start ≤ next ∧ next ≤ bytes.size ∧
        Tree.Laid (fun start record _ => Written start record) start tree
          (between bytes start next) ∧
        (rules.enforceSizes = true → tree.Every Exact)) ∧
    ∀ other : Tree β, shape.SameShape other →
      readTree rules filenames shape bytes start = readTree rules filenames other bytes start := by
  constructor
  · intro tree next
    rw [(accepts_readTree rules filenames shape).reads_iff inside]
    constructor
    · intro h
      obtain ⟨le, le_size, same, laid, every⟩ := h
      exact ⟨same, fun path s found => (every path s found).1, le, le_size, laid,
        fun enforced path s found => (every path s found).2 enforced⟩
    · intro h
      obtain ⟨same, named, le, le_size, laid, exactly⟩ := h
      exact ⟨le, le_size, same, laid, fun path s found =>
        ⟨named path s found, fun enforced => exactly enforced path s found⟩⟩
  · intro other same
    rw [readTree, readTree, readTreeBy, readTreeBy, Tree.mapM_eq_of_sameShape same]

def nestedBytes : ByteArray := ⟨#[
  0, 0, 0, 19, 0, 1, 0, 0, 0, 0, 0, 0, 0, 0, 0, 1, 0, 0, 5,
  0, 0, 0, 23, 0, 1, 0, 0, 0, 2, 0, 1, 0, 0, 0, 1, 1, 0, 0, 0, 2, 0, 7]⟩

def nestedTree : Tree DebugRecord :=
  .node ⟨0, 19, [⟨0, 0, "a", .array #[5]⟩]⟩ [.node ⟨19, 23, [⟨2, 1, "b", .map #[⟨2, 7⟩]⟩]⟩ []]

theorem reads_iff_sameShape_nested : 0 ≤ nestedBytes.size ∧
    nestedTree.Every (Named ["a", "b"]) ∧ nestedTree.Every Exact ∧
    Tree.Laid (fun start record _ => Written start record) 0 nestedTree
      (between nestedBytes 0 42) := by
  have read : Reads (readTree .strict ["a", "b"] (Tree.node () [.node () []])) nestedBytes 0
    nestedTree 42 := ⟨rfl, rfl⟩
  have laid := (reads_iff_sameShape (β := Unit) .strict ["a", "b"] (Tree.node () [.node () []])
    nestedBytes 0 (Nat.zero_le _)).1 nestedTree 42
  obtain ⟨-, named, -, -, stands, exactly⟩ := laid.mp read
  exact ⟨Nat.zero_le _, named, exactly rfl, stands⟩

end DebugRecord

end RiteImage
