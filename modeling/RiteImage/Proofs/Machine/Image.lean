import RiteImage.Image.Basic
import RiteImage.Proofs.ImageWalk
import RiteImage.Proofs.Machine.Sections
import RiteImage.Proofs.RoundTrip

/-! Images on 64-bit words.
An image is decoded without an operation that goes wrong, and none goes wrong when the
image is asked for the bytes of a skipped section, for the records of a tree along with
their lines, or for the line of an instruction. -/
namespace RiteImage.Machine

/-- Where the content ends before its size says so, it is checked as far as it goes. -/
def checkContent (declared : UInt16) (size : UInt32) : Machine Unit := do
  let bytes ← buffer
  let contentEnd := min (Word.saturatingAdd 10 size.toUInt64) (Word.size bytes)
  let content ← attempt (Word.slice bytes 10 contentEnd)
  let computed := Checksum.compute content.data.toList 0
  require (computed = declared) (.wrongChecksum declared computed)

def readHeader : Machine Header := Header.readBy primitives checkContent

def readAll (rules : Strictness) : Machine (Array Section) := fun bytes here =>
  readSections rules bytes here #[] none

/-- The sections have a position of their own, which starts at zero and is moved to the first of
them. -/
def readApart (rules : Strictness) : Machine (Array Section) := do
  let start ← position
  moveTo 0
  seek start
  readAll rules

def readImage (rules : Strictness) : Machine Image :=
  Image.readBy primitives rules readHeader (readApart rules)

def decode (rules : Strictness) (bytes : ByteArray) : Option (Except Cause Image) :=
  (readImage rules bytes 0).map fun run => run.map Prod.fst

def range (s : SkippedSection) : Option (UInt64 × UInt64) := do
  let first := UInt64.ofNat s.offset
  let stop ← Word.add first s.size.toUInt64
  some (first, stop)

section Walk

variable {α β : Type}

mutual

def walkFrom (depth : UInt64) :
    Tree α → Option (Tree β) → Option (List (Nat × Tree α × Option (Tree β)))
  | .node a ts, other => do
    let below ← walkAll depth ts ((other.map Tree.children).getD [])
    some ((depth.toNat, .node a ts, other) :: below)

def walkAll (depth : UInt64) :
    List (Tree α) → List (Tree β) → Option (List (Nat × Tree α × Option (Tree β)))
  | [], _ => some []
  | t :: ts, others => do
    let below ← Word.add depth 1
    let first ← walkFrom below t others.head?
    let rest ← walkAll depth ts others.tail
    some (first ++ rest)

end

end Walk

def walk (image : Image) (s : IrepSection) : Option (List Visit) := do
  let pairs ← walkFrom 0 s.root ((image.linesOf s).map DebugSection.root)
  some (pairs.map fun (depth, tree, debug) => ⟨depth, tree, debug⟩)

/-- The entry before the border is taken without a look at the size of the table. -/
def lineAt (table : LineTable) (start pc : UInt32) : Option (Option UInt16) :=
  if pc < start then some none
  else match table with
    | .array lines => some lines[pc.toNat - start.toNat]?
    | .map entries =>
      match border (fun entry => entry.offset ≤ pc) entries with
      | 0 => some none
      | after + 1 => entries[after]?.map fun entry => some entry.line

def locate (record : DebugRecord) (pc : UInt32) : Option (Option Location) :=
  match record.files.reverse.find? fun file => file.start ≤ pc with
  | none => some none
  | some file => (lineAt file.lines file.start pc).map fun line =>
      line.map fun line => ⟨file.filename, line⟩

/-- What can be asked of an image that was decoded from a buffer has an answer without an operation
that goes wrong. Sections are looked up with a check, and no link leads to a missing one. -/
structure Safe (bytes : ByteArray) (image : Image) : Prop where
  range : ∀ s, .skipped s ∈ image.sections → ∃ first stop, range s = some (first, stop) ∧
    first.toNat = s.offset ∧ stop.toNat = s.stop ∧ s.offset ≤ s.stop ∧ s.stop ≤ bytes.size
  walk : ∀ s, .irep s ∈ image.sections → walk image s = some (image.visits s)
  linesOf : ∀ s, .irep s ∈ image.sections → (image.linesOf s).isSome = s.debug.isSome
  treeOf : ∀ s, .debug s ∈ image.sections → (image.treeOf s).isSome = true
  locate : ∀ record pc, locate record pc = some (record.locate pc)

variable {rules : Strictness} {bytes : ByteArray} {low : Nat}

theorem slice_content (small : bytes.size < 2 ^ 63) (long : 10 ≤ bytes.size) (size : UInt32) :
    Word.slice bytes 10 (min (Word.saturatingAdd 10 size.toUInt64) (Word.size bytes)) =
      some (Header.content bytes size) := by
  have ten : (10 : UInt64).toNat = 10 := rfl
  have declared_end := Word.toNat_saturatingAdd_declared (by decide : (10 : UInt64).toNat < _) size
  have content_end : (min (Word.saturatingAdd 10 size.toUInt64) (Word.size bytes)).toNat =
      min (10 + size.toNat) bytes.size := by
    rw [UInt64.toNat_min, declared_end, ten, Word.toNat_size small]
  rw [Word.slice_of_le, content_end]
  · rfl
  · omega
  · omega

theorem simulates_checkContent (reached : 10 ≤ low) (declared : UInt16) (size : UInt32) :
    Simulates low (checkContent declared size) (Header.checkContent declared size) := by
  intro bytes here small above inside
  rw [checkContent, buffer_bind, attempt_bind (slice_content small (by omega) size),
    Header.checkContent,
    Reader.bind_of_ok (rfl : Reader.buffer bytes here.toNat = ⟨.ok bytes, here.toNat, []⟩)]
  exact (simulates_require 0 _ _ bytes here small (Nat.zero_le _) inside).prepend []

theorem simulates_readHeader (low : Nat) : Simulates low readHeader Header.read := by
  have tag_reach (bytes : ByteArray) (start : Nat) (found : Tag) (stop : Nat)
      (read : Reader.Reads Reader.tag bytes start found stop) : start + 4 ≤ stop :=
    Nat.le_of_eq (Reader.stop_of_reads_tag read).symm
  have word_reach (bytes : ByteArray) (start : Nat) (n : UInt32) (stop : Nat)
      (read : Reader.Reads Reader.u32 bytes start n stop) : start + 4 ≤ stop :=
    Nat.le_of_eq (Reader.stop_of_reads_u32 read).symm
  refine (simulates_tag low).bind_reach tag_reach fun magic => ?_
  refine (simulates_tag _).bind_reach tag_reach fun version => ?_
  refine (simulates_require _ _ _).bind fun _ => ?_
  refine (simulates_u16 _).bind fun declared => ?_
  refine (simulates_u32 _).bind_reach word_reach fun size => ?_
  refine (simulates_checkContent (by omega) declared size).bind fun _ => ?_
  refine (simulates_tag _).bind fun compilerName => ?_
  refine (simulates_tag _).bind fun compilerVersion => ?_
  exact (simulates_log _ _).bind fun _ => simulates_pure _ _

theorem mirrors_readApart (rules : Strictness) (small : bytes.size < 2 ^ 63)
    (inside : here.toNat ≤ bytes.size) :
    Mirrors bytes here (readApart rules bytes here) (Section.readAll rules bytes here.toNat) := by
  rw [readApart, position_bind, moveTo_bind, seek_bind small inside]
  exact mirrors_readSections rules small #[] none noted_empty inside

theorem mirrors_readImage (rules : Strictness) (small : bytes.size < 2 ^ 63) :
    Mirrors bytes 0 (readImage rules bytes 0) (Image.read rules bytes 0) := by
  have first := simulates_readHeader 0 bytes 0 small (Nat.le_refl _) (Nat.zero_le _)
  refine Mirrors.bind first fun header there _ _ inside => ?_
  have checked := simulates_require 0 (!rules.enforceMagic || header.hasMagic)
    (.malformed (.wrongMagic header.magic)) bytes there small (Nat.zero_le _) inside
  refine checked.bind fun _ there _ _ inside => ?_
  refine (mirrors_readApart rules small inside).bind fun sections stop _ _ within => ?_
  exact simulates_pure 0 _ bytes stop small (Nat.zero_le _) within

theorem decode_eq (rules : Strictness) (small : bytes.size < 2 ^ 63) :
    decode rules bytes = some (Image.decode rules bytes).result := by
  rw [decode, Image.decode]
  cases mirrors_readImage rules small with
  | error e stop events ran read =>
    rw [ran, read]
    rfl
  | ok image stop events ran read le inside =>
    rw [ran, read]
    rfl

theorem lineAt_eq (table : LineTable) (start pc : UInt32) :
    lineAt table start pc = some (table.lineAt start pc) := by
  unfold lineAt LineTable.lineAt
  split
  · rfl
  cases table with
  | array lines => rfl
  | map entries =>
    have le := border_le (fun entry => entry.offset ≤ pc) entries
    cases found : border (fun entry => entry.offset ≤ pc) entries with
    | zero => simp only [found]
    | succ after =>
      rw [found] at le
      simp only [found, Array.getElem?_eq_getElem (Nat.lt_of_succ_le le), Option.map_some]

theorem locate_eq (record : DebugRecord) (pc : UInt32) :
    locate record pc = some (record.locate pc) := by
  rw [locate, DebugRecord.locate]
  cases record.files.reverse.find? fun file => file.start ≤ pc with
  | none => rfl
  | some file =>
    have answer : lineAt file.lines file.start pc = some (file.lineAt pc) := lineAt_eq ..
    change (lineAt file.lines file.start pc).map _ = some (Option.bind (file.lineAt pc) _)
    rw [answer]
    cases file.lineAt pc with
    | none => rfl
    | some line => rfl

mutual

theorem walkFrom_eq {α β : Type} (depth : UInt64) : (t : Tree α) → (other : Option (Tree β)) →
    depth.toNat + t.height < 2 ^ 64 → walkFrom depth t other = some (t.pairing depth.toNat other)
  | .node a ts, other, small => by
    rw [Tree.height] at small
    rw [walkFrom, walkAll_eq depth ts _ small, Tree.pairing]
    rfl

theorem walkAll_eq {α β : Type} (depth : UInt64) : (ts : List (Tree α)) →
    (others : List (Tree β)) → depth.toNat + Tree.heightAll ts < 2 ^ 64 →
    walkAll depth ts others = some (Tree.pairingAll (depth.toNat + 1) ts others)
  | [], others, _ => by rw [walkAll, Tree.pairingAll]
  | t :: ts, others, small => by
    rw [Tree.heightAll] at small
    have one : (1 : UInt64).toNat = 1 := rfl
    obtain ⟨below, exact, sum⟩ := Word.add_of_lt (a := depth) (b := 1) (by omega)
    rw [one] at sum
    have first := walkFrom_eq below t others.head? (by omega)
    have rest := walkAll_eq depth ts others.tail (by omega)
    rw [walkAll, exact, rest, Tree.pairingAll, ← sum]
    change (walkFrom below t others.head?).bind _ = _
    rw [first]
    rfl

end

/-! What is known of the sections of an image that was decoded. -/

section Tiled

variable {start stop : Nat} {image : Image}
variable (tiling : Section.Tiling rules bytes start image.sections.toList stop)
include tiling

theorem size_le_of_mem {s : IrepSection} (mem : .irep s ∈ image.sections) :
    s.root.size ≤ bytes.size := by
  have mem := Array.mem_toList_iff.mpr mem
  obtain ⟨i, found⟩ := List.getElem?_of_mem mem
  obtain ⟨contentEnd, read, le⟩ := tiling.decoded i _ found
  have few := size_le_of_reads_section read
  exact Nat.le_trans few (Nat.le_trans le (tiling.stop_le_of_mem mem))

theorem isSome_linesOf {s : IrepSection} (mem : .irep s ∈ image.sections) :
    (image.linesOf s).isSome = s.debug.isSome := by
  obtain ⟨i, found⟩ := List.getElem?_of_mem (Array.mem_toList_iff.mpr mem)
  cases link : s.debug with
  | none => simp [Image.linesOf, link]
  | some j =>
    obtain ⟨d, there, -⟩ := Section.lines_of_linked tiling.linked found link
    rw [Image.linesOf_eq_some_iff.mpr ⟨j, link, there⟩]
    rfl

theorem isSome_treeOf {s : DebugSection} (mem : .debug s ∈ image.sections) :
    (image.treeOf s).isSome = true := by
  obtain ⟨t, there, -⟩ := tiling.lines_of_mem (Array.mem_toList_iff.mpr mem)
  rw [Image.treeOf_of_getElem? there]
  rfl

theorem range_eq (small : bytes.size < 2 ^ 63) {s : SkippedSection}
    (mem : .skipped s ∈ image.sections) : ∃ first stop, range s = some (first, stop) ∧
      first.toNat = s.offset ∧ stop.toNat = s.stop ∧ s.offset ≤ s.stop ∧ s.stop ≤ bytes.size := by
  have inside : s.stop ≤ bytes.size := tiling.stop_le_of_mem (Array.mem_toList_iff.mpr mem)
  have le : s.offset ≤ s.stop := Nat.le_add_right ..
  have word : s.offset < UInt64.size := Nat.lt_trans (by omega) (by decide : 2 ^ 63 < UInt64.size)
  have first : (UInt64.ofNat s.offset).toNat = s.offset := UInt64.toNat_ofNat_of_lt' word
  have sum : (UInt64.ofNat s.offset).toNat + s.size.toUInt64.toNat = s.stop := by
    rw [first, UInt32.toNat_toUInt64, SkippedSection.stop]
  have fits : (UInt64.ofNat s.offset).toNat + s.size.toUInt64.toNat < 2 ^ 64 := by omega
  obtain ⟨stop, exact, eq⟩ := Word.add_of_lt fits
  refine ⟨UInt64.ofNat s.offset, stop, ?_, first, eq.trans sum, le, inside⟩
  rw [range, exact]
  rfl

end Tiled

theorem walk_eq {image : Image} {s : IrepSection} (small : s.root.size < 2 ^ 63) :
    walk image s = some (image.visits s) := by
  have deep := Tree.height_lt_size s.root
  have zero : (0 : UInt64).toNat = 0 := rfl
  have pairs := walkFrom_eq 0 s.root ((image.linesOf s).map DebugSection.root) (by omega)
  rw [walk, pairs, zero]
  rfl

/-- For every buffer that is not too long and under all rules, decoding yields its result without
an operation that goes wrong, and what is decoded can be asked safely. -/
theorem decode_safe (rules : Strictness) (bytes : ByteArray) (small : bytes.size < 2 ^ 63) :
    decode rules bytes = some (Image.decode rules bytes).result ∧
      ∀ image, (Image.decode rules bytes).result = .ok image → Safe bytes image := by
  refine ⟨decode_eq rules small, fun image ok => ?_⟩
  obtain ⟨-, tiling⟩ := Image.tiling_of_ok ok
  constructor
  · exact fun s mem => range_eq tiling small mem
  · exact fun s mem => walk_eq (Nat.lt_of_le_of_lt (size_le_of_mem tiling mem) small)
  · exact fun s mem => isSome_linesOf tiling mem
  · exact fun s mem => isSome_treeOf tiling mem
  · exact locate_eq

section Nested

open ImageDraft (nestedDraft)

theorem reads_sections_nested : ∃ sections stop, sections.size = 4 ∧
    Reader.Reads (Section.readAll .lenient) nestedDraft.bytes 22 sections stop := by
  have small : nestedDraft.bytes.size < 2 ^ 63 := by decide +kernel
  have inside : (22 : UInt64).toNat ≤ nestedDraft.bytes.size := by decide +kernel
  have run : (readSections .lenient nestedDraft.bytes 22 #[] none).map
      (fun outcome => outcome.toOption.map fun found => found.1.size) = some (some 4) := by
    decide +kernel
  cases mirrors_readSections .lenient small #[] none noted_empty inside with
  | error e stop events ran read =>
    rw [ran] at run
    cases run
  | ok sections stop events ran read le within =>
    rw [ran] at run
    exact ⟨sections, stop.toNat, Option.some.inj (Option.some.inj run), Reader.reads_of_eq read⟩

/-- An image with a tree, a section that is skipped and two sets of lines of the tree. -/
theorem decode_safe_nested : nestedDraft.bytes.size < 2 ^ 63 ∧
    ∃ image, (Image.decode .lenient nestedDraft.bytes).result = .ok image ∧
      image.sections.size = 4 ∧ decode .lenient nestedDraft.bytes = some (.ok image) ∧
      Safe nestedDraft.bytes image := by
  have small : nestedDraft.bytes.size < 2 ^ 63 := by decide +kernel
  have short : nestedDraft.content.length < 2 ^ 32 := by decide +kernel
  obtain ⟨sections, stop, four, read⟩ := reads_sections_nested
  have ok : Reader.Reads (Image.read .lenient) nestedDraft.bytes 0
      ⟨nestedDraft.header, sections⟩ stop :=
    Image.reads_iff.mpr ⟨nofun, 22, ImageDraft.reads_header short, read⟩
  obtain ⟨same, safe⟩ := decode_safe .lenient nestedDraft.bytes small
  exact ⟨small, _, ok.1, four, same.trans (congrArg some ok.1), safe _ ok.1⟩

end Nested

end RiteImage.Machine
