import RiteImage.Proofs.ImageDraft

/-! Reading what was written.
The sections of a written image tile its buffer, with the links that the order of the
drafts tells, and so they are just what is read back behind the header. -/
namespace RiteImage

open Reader Section

namespace SectionDraft

variable {bytes : ByteArray} {drafts rest : List SectionDraft} {start index k : Nat}

def startOf (start : Nat) (drafts : List SectionDraft) (k : Nat) : Nat :=
  start + (writeAll start (drafts.take k)).length

theorem startOf_succ (start : Nat) (d : SectionDraft) (rest : List SectionDraft) (k : Nat) :
    startOf start (d :: rest) (k + 1) = startOf (start + d.length start) rest k := by
  rw [startOf, startOf, List.take_succ_cons, writeAll, List.length_append, length_bytes,
    Nat.add_assoc]

theorem getElem?_sectionsFrom :
    (sectionsFrom drafts index start rest)[k]? = rest[k]?.map fun d =>
      d.sectionAt (startOf start rest k) (treeBefore drafts (index + k))
        (lastLines drafts (index + k)) := by
  induction rest generalizing index start k with
  | nil => simp [sectionsFrom]
  | cons d rest ih =>
    cases k with
    | zero => rfl
    | succ k =>
      rw [sectionsFrom, List.getElem?_cons_succ, List.getElem?_cons_succ, ih, startOf_succ,
        Nat.add_right_comm, Nat.add_assoc]

theorem stands_startOf (stands : Stands bytes start (writeAll start rest)) {d : SectionDraft}
    (found : rest[k]? = some d) :
    Stands bytes (startOf start rest k) (d.bytes (startOf start rest k)) ∧
      d.length (startOf start rest k) ≤ (writeAll start rest).length := by
  induction rest generalizing start k with
  | nil => cases found
  | cons other rest ih =>
    rw [writeAll, Stands.append_iff, length_bytes] at stands
    rw [writeAll, List.length_append, length_bytes]
    cases k with
    | zero =>
      cases found
      exact ⟨stands.1, Nat.le_add_right _ _⟩
    | succ k =>
      rw [startOf_succ]
      obtain ⟨here, le⟩ := ih stands.2 found
      exact ⟨here, by omega⟩

theorem tilesTo_sectionsFrom (stands : Stands bytes start (writeAll start rest))
    (short : (writeAll start rest).length < 2 ^ 32) :
    TilesTo bytes start (sectionsFrom drafts index start rest)
      (start + (writeAll start rest).length) := by
  induction rest generalizing index start with
  | nil => rfl
  | cons d rest ih =>
    rw [writeAll, Stands.append_iff, length_bytes] at stands
    rw [writeAll, List.length_append, length_bytes] at short
    have small : d.length start < 2 ^ 32 := by omega
    rw [sectionsFrom, TilesTo, size_sectionAt small, writeAll, List.length_append, length_bytes,
      ← Nat.add_assoc]
    exact ⟨placed_sectionAt small stands.1, ih stands.2 (by omega)⟩

theorem getElem?_sections : (sections start drafts)[k]? = drafts[k]?.map fun d =>
    d.sectionAt (startOf start drafts k) (treeBefore drafts k) (lastLines drafts k) := by
  rw [sections, getElem?_sectionsFrom, Nat.zero_add]

theorem isIrep_iff {d : SectionDraft} {tree lines : Option Nat} :
    d.isIrep = true ↔ (d.sectionAt start tree lines).kind = .irep := by
  cases d <;> simp [isIrep, sectionAt, kind]

theorem lastWhere_of_treeBefore (start : Nat) {i : Nat} (before : treeBefore drafts k = some i) :
    LastWhere (fun s => s.kind = .irep) ((sections start drafts).take k) i := by
  refine (lastBelow_iff_lastWhere fun j => ?_).mp before
  rcases Nat.lt_or_ge j k with lt | ge
  · rw [List.getElem?_take_of_lt lt, getElem?_sections]
    simp only [lt, true_and, Option.any_eq_true, Option.map_eq_some_iff]
    constructor
    · intro h
      obtain ⟨d, found, is_irep⟩ := h
      exact ⟨_, ⟨d, found, rfl⟩, isIrep_iff.mp is_irep⟩
    · intro h
      obtain ⟨_, ⟨d, found, rfl⟩, is_irep⟩ := h
      exact ⟨d, found, isIrep_iff.mpr is_irep⟩
  · rw [List.getElem?_take_eq_none ge]
    simp only [Nat.not_lt.mpr ge, false_and, false_iff]
    rintro ⟨_, impossible, _⟩
    cases impossible

theorem nearestIrep_of_treeBefore (start : Nat) {i : Nat} {stamp : Tag} {tree : Tree IrepDraft}
    {trailing : List UInt8} (before : treeBefore drafts k = some i)
    (found : drafts[i]? = some (irep stamp tree trailing)) :
    ∃ t : IrepSection, NearestIrep ((sections start drafts).take k) i t ∧
      tree.SameShape t.root := by
  obtain ⟨⟨lt, -⟩, -⟩ := lastBelow_eq_some_iff.mp before
  have at_tree : ((sections start drafts).take k)[i]? = some ((irep stamp tree trailing).sectionAt
      (startOf start drafts i) (treeBefore drafts i) (lastLines drafts i)) := by
    rw [List.getElem?_take_of_lt lt, getElem?_sections, found, Option.map_some]
  exact ⟨_, ⟨at_tree, lastWhere_of_treeBefore start before⟩, Tree.sameShape_placed tree _⟩

theorem decoded_sections (fits : ∀ d ∈ drafts, d.Fits) (paired : Paired drafts)
    (stands : Stands bytes start (writeAll start drafts))
    (short : (writeAll start drafts).length < 2 ^ 32) :
    Decoded .lenient bytes (sections start drafts) := by
  intro k s found
  rw [getElem?_sections, Option.map_eq_some_iff] at found
  obtain ⟨d, found, rfl⟩ := found
  obtain ⟨here, le⟩ := stands_startOf stands found
  have small : d.length (startOf start drafts k) < 2 ^ 32 := by omega
  have fits_here := fits d (List.mem_of_getElem? found)
  have size := UInt32.toNat_ofNat_of_lt' small
  cases d with
  | irep stamp root trailing =>
    obtain ⟨stop, read, le⟩ := reads_irep fits_here small here
    exact ⟨stop, read, by rwa [size]⟩
  | debug filenames root trailing =>
    obtain ⟨i, stamp, tree, trailing', before, tree_found, same⟩ :=
      paired k filenames root trailing found
    obtain ⟨t, nearest, shape⟩ := nearestIrep_of_treeBefore start before tree_found
    obtain ⟨stop, read, le⟩ := reads_debug fits_here small here (shape.symm.trans same) i
    rw [sectionAt, before, Option.getD_some]
    exact ⟨t, stop, nearest, read, by rwa [size]⟩
  | skipped tag body => exact fits_here

theorem linked_sections (paired : Paired drafts) (start : Nat) :
    Linked (sections start drafts) := by
  intro i s found j
  rw [getElem?_sections, Option.map_eq_some_iff] at found
  obtain ⟨d, -, same⟩ := found
  have link : s.debug = lastLines drafts i := by
    cases d with
    | irep => cases same; rfl
    | debug => cases same
    | skipped => cases same
  rw [link]
  refine lastBelow_iff_lastWhere fun k => ?_
  simp only [getElem?_sections, Option.map_eq_some_iff, Bool.and_eq_true, Option.any_eq_true,
    decide_eq_true_eq]
  constructor
  · intro h
    obtain ⟨-, ⟨d, found, is_debug⟩, before⟩ := h
    refine ⟨_, ⟨d, found, rfl⟩, ?_⟩
    cases d with
    | debug => exact congrArg (·.getD 0) before
    | irep => cases is_debug
    | skipped => cases is_debug
  · intro h
    obtain ⟨_, ⟨d, found, rfl⟩, lines⟩ := h
    obtain ⟨inside, -⟩ := List.getElem?_eq_some_iff.mp found
    cases d with
    | debug filenames root trailing =>
      obtain ⟨i', _, _, _, before, -⟩ := paired k filenames root trailing found
      rw [sectionAt, before] at lines
      exact ⟨inside, ⟨_, found, rfl⟩, before.trans (congrArg some lines)⟩
    | irep => cases lines
    | skipped => cases lines

theorem tiling_sections (fits : ∀ d ∈ drafts, d.Fits) (paired : Paired drafts)
    (short : (writeAll start drafts).length < 2 ^ 32) {rest : List UInt8}
    (length : rest.length = 4)
    (stands : Stands bytes start (writeAll start drafts ++ (Tag.endMarker.bytes ++ rest))) :
    Tiling .lenient bytes start (sections start drafts)
      (start + (writeAll start drafts).length + endMarkerSize) := by
  obtain ⟨here, behind⟩ := Stands.append_iff.mp stands
  have inside := behind.le_size
  rw [List.length_append, Tag.length_bytes, length] at inside
  exact ⟨⟨_, tilesTo_sectionsFrom here short, (Stands.append_iff.mp behind).1, rfl, inside⟩,
    decoded_sections fits paired here short, linked_sections paired start⟩

end SectionDraft

namespace ImageDraft

variable {d : ImageDraft}

theorem stands (d : ImageDraft) : Stands d.bytes 0
    (d.magic.bytes ++ (Tag.version.bytes ++ (wordBytes 2 d.checksum.toNat ++ d.content))) :=
  ⟨[], [], by simp [bytes], rfl⟩

theorem stands_content (d : ImageDraft) : Stands d.bytes 10 d.content := by
  obtain ⟨-, behind⟩ := Stands.append_iff.mp d.stands
  obtain ⟨-, behind⟩ := Stands.append_iff.mp behind
  exact (Stands.append_iff.mp behind).2

theorem size_bytes (d : ImageDraft) : d.bytes.size = 10 + d.content.length := by
  rw [← length_toList, bytes, List.length_append, List.length_append, List.length_append,
    Tag.length_bytes, Tag.length_bytes, length_wordBytes]

theorem reads_header (short : d.content.length < 2 ^ 32) :
    Reads Header.read d.bytes 0 d.header 22 := by
  have size : (UInt32.ofNat d.content.length).toNat = d.content.length :=
    UInt32.toNat_ofNat_of_lt' short
  obtain ⟨magic, behind⟩ := Stands.append_iff.mp d.stands
  obtain ⟨version, behind⟩ := Stands.append_iff.mp behind
  obtain ⟨checksum, -⟩ := Stands.append_iff.mp behind
  obtain ⟨declared, behind⟩ := Stands.append_iff.mp d.stands_content
  obtain ⟨compilerName, behind⟩ := Stands.append_iff.mp behind
  obtain ⟨compilerVersion, -⟩ := Stands.append_iff.mp behind
  have covered : (Header.content d.bytes (UInt32.ofNat d.content.length)).data.toList =
      d.content := by
    rw [Header.content, Header.contentStart, size, ← size_bytes, Nat.min_self, size_bytes]
    exact d.stands_content.between_eq
  have declared_size : wordBytes 4 (4 + d.body.length) =
      wordBytes 4 (UInt32.ofNat d.content.length).toNat := by
    rw [size, content, length_sized]
  simp only [Header.read, Header.readBy, Header.readNamesBy]
  refine reads_bind.mpr ⟨_, 4, accepts_tag.reads_of_stands magic rfl, ?_⟩
  refine reads_bind.mpr ⟨_, 8, accepts_tag.reads_of_stands version rfl, ?_⟩
  refine reads_require_bind.mpr ⟨by decide, ?_⟩
  refine reads_bind.mpr ⟨_, 10, accepts_u16.reads_of_stands checksum rfl, ?_⟩
  refine reads_bind.mpr ⟨_, 14, accepts_u32.reads_of_stands declared declared_size, ?_⟩
  refine reads_checkContent_bind.mpr ⟨by rw [covered]; rfl, ?_⟩
  refine reads_bind.mpr ⟨_, 18, accepts_tag.reads_of_stands compilerName rfl, ?_⟩
  refine reads_bind.mpr ⟨_, 22, accepts_tag.reads_of_stands compilerVersion rfl, ?_⟩
  exact reads_log_bind.mpr (reads_pure.mpr ⟨rfl, rfl⟩)

theorem stands_sections (d : ImageDraft) : Stands d.bytes 22
    (SectionDraft.writeAll 22 d.sections ++ (Tag.endMarker.bytes ++ wordBytes 4 8)) := by
  obtain ⟨-, behind⟩ := Stands.append_iff.mp d.stands_content
  obtain ⟨-, behind⟩ := Stands.append_iff.mp behind
  exact (Stands.append_iff.mp behind).2

theorem length_content (d : ImageDraft) : d.content.length =
    20 + (SectionDraft.writeAll 22 d.sections).length := by
  simp only [content, length_sized, body, List.length_append, Tag.length_bytes, length_wordBytes]
  omega

theorem reads_sections (fits : d.Fits) :
    Reads (readAll .lenient) d.bytes 22 (SectionDraft.sections 22 d.sections).toArray
      d.bytes.size := by
  have total := d.length_content
  have bounded := fits.size_lt
  have stop_eq : 22 + (SectionDraft.writeAll 22 d.sections).length + endMarkerSize =
      d.bytes.size := by
    rw [size_bytes, total, endMarkerSize]
    omega
  have tiling := SectionDraft.tiling_sections fits.sections fits.paired (by omega)
    (length_wordBytes 4 _) d.stands_sections
  rw [stop_eq] at tiling
  exact reads_readAll_of_tiling (by omega) tiling

/-- A written image is read back as it was meant, up to its last byte. -/
theorem decode_bytes (fits : d.Fits) :
    (Image.decode .lenient d.bytes).result = .ok d.image ∧
      (Image.decode .lenient d.bytes).position = d.bytes.size := by
  change Reads (Image.read .lenient) d.bytes 0 d.image d.bytes.size
  exact Image.reads_iff.mpr ⟨nofun, 22, reads_header fits.size_lt, reads_sections fits⟩

/-- A tree of two records, a section that is skipped, and two sets of line tables for the tree. -/
def nestedDraft : ImageDraft where
  magic := Tag.magic
  compilerName := Tag.ofChars 'M' 'A' 'T' 'Z'
  compilerVersion := Tag.ofChars '0' '0' '0' '0'
  sections := [
    .irep (Tag.ofChars '0' '0' '0' '0')
      (.node ⟨1, 2, [7], [⟨0, ⟨#[0x68]⟩, .string ⟨#[0x68]⟩, by decide, fun _ => rfl⟩],
        [.anonymous, .named "a" (by decide)], by decide, by decide, by decide⟩
        [.node ⟨3, 4, [], [], [], by decide, by decide, by decide⟩ []])
      [0xEE],
    .skipped Tag.localNames [1, 2, 3],
    .debug ["b"]
      (.node ⟨[⟨0, 0, .array #[5], by decide⟩], by decide⟩ [.node ⟨[], by decide⟩ []]) [],
    .debug [] (.node ⟨[], by decide⟩ [.node ⟨[], by decide⟩ []]) [0, 0]]

theorem decode_bytes_nested : nestedDraft.Fits ∧
    (Image.decode .lenient nestedDraft.bytes).result = .ok nestedDraft.image := by
  have fits : nestedDraft.Fits := by
    refine ⟨?_, ?_, by decide +kernel⟩
    · simp [nestedDraft, SectionDraft.Fits, Tree.height, Tree.heightAll, Tree.everyNode_node,
        Tree.every_node, DebugDraft.RefersBelow]
      decide
    · intro j filenames root trailing found
      have single {α β : Type} (a b : α) (c d : β) :
          (Tree.node a [.node b []]).SameShape (Tree.node c [.node d []]) :=
        Tree.sameShape_node.mpr (.cons (Tree.sameShape_node.mpr .nil) .nil)
      rcases j with _ | _ | _ | _ | j
      · cases found
      · cases found
      · cases found
        exact ⟨0, _, _, _, rfl, rfl, single _ _ _ _⟩
      · cases found
        exact ⟨0, _, _, _, rfl, rfl, single _ _ _ _⟩
      · cases found
  exact ⟨fits, (decode_bytes fits).1⟩

end ImageDraft

end RiteImage
