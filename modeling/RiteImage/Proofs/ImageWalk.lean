import RiteImage.Proofs.ImageLayout
import RiteImage.Proofs.TreePlaces

namespace RiteImage

open Reader

variable {rules : Strictness} {bytes : ByteArray} {start stop : Nat}

def Image.VisitedAt (image : Image) (s : IrepSection) (path : List Nat) (v : Visit) : Prop :=
  s.root.subtree? path = some v.tree ∧ v.depth = path.length ∧
    v.debug = (image.linesOf s).bind fun d => d.root.subtree? path

/-- A walk visits what a stack yields. It goes through all paths of the tree in their order, and at
each it finds what stands there in the line tables, if there are any. -/
structure Image.Walked (image : Image) (s : IrepSection) : Prop where
  trees : (image.visits s).map Visit.tree = s.root.stackOrder
  count : (image.visits s).length = s.root.size
  paths : ∃ paths : List (List Nat), paths.Pairwise (· < ·) ∧
    (∀ path, path ∈ paths ↔ (s.root.subtree? path).isSome) ∧
    List.Forall₂ (image.VisitedAt s) paths (image.visits s)
  ascending : (image.visits s).Pairwise fun v w => v.record.offset < w.record.offset
  unlinked : s.debug = none → ∀ v ∈ image.visits s, v.debug = none
  linked : s.debug.isSome → ∃ d, image.linesOf s = some d ∧ s.root.SameShape d.root ∧
    (image.visits s).map Visit.debug = d.root.stackOrder.map some ∧
    (image.visits s).Pairwise fun v w =>
      ∀ a ∈ v.lines, ∀ b ∈ w.lines, a.offset < b.offset

theorem Irep.ascends {root : Tree Irep} {segment : List UInt8}
    (laid : Tree.Laid (WrittenUnder rules) start root segment) :
    (root.stackOrder.map (·.label.offset)).Pairwise (· < ·) := by
  refine (Tree.ascends_laid (fun start record count segment own => ?_) laid).pairwise
  obtain ⟨⟨placed, -, -, -, -, fill, literals, symbols, -, -, -, rfl⟩, -⟩ := own
  refine ⟨placed, ?_⟩
  simp only [List.length_append, length_wordBytes]
  omega

theorem DebugRecord.ascends {root : Tree DebugRecord} {segment : List UInt8}
    (laid : Tree.Laid (fun start record _ => Written start record) start root segment) :
    (root.stackOrder.map (·.label.offset)).Pairwise (· < ·) := by
  refine (Tree.ascends_laid (fun start record count segment own => ?_) laid).pairwise
  obtain ⟨placed, -, -, rfl⟩ := own
  refine ⟨placed, ?_⟩
  simp only [bytes, List.length_append, length_wordBytes]
  omega

namespace Section

theorem Tiling.ascends_irep {sections : List Section} {s : IrepSection}
    (tiling : Tiling rules bytes start sections stop) (mem : .irep s ∈ sections) :
    (s.root.stackOrder.map (·.label.offset)).Pairwise (· < ·) := by
  have le := tiling.stop_le_of_mem mem
  obtain ⟨i, found⟩ := List.getElem?_of_mem mem
  obtain ⟨segment, -, written, -⟩ :=
    (contains_irep_iff (Nat.le_of_add_right_le le)).mp (tiling.decoded i _ found)
  obtain ⟨tag, root, -, laid⟩ := written.bytes_eq
  exact Irep.ascends laid

theorem Tiling.lines_of_mem {sections : List Section} {d : DebugSection}
    (tiling : Tiling rules bytes start sections stop) (mem : .debug d ∈ sections) :
    ∃ s, sections[d.irep]? = some (.irep s) ∧ s.root.SameShape d.root ∧
      (d.root.stackOrder.map (·.label.offset)).Pairwise (· < ·) := by
  have le := tiling.stop_le_of_mem mem
  obtain ⟨i, found⟩ := List.getElem?_of_mem mem
  obtain ⟨s, segment, ⟨there, -⟩, -, written, -⟩ :=
    (contains_debug_iff (Nat.le_of_add_right_le le)).mp (tiling.decoded i _ found)
  obtain ⟨tag, names, root, -, -, laid⟩ := written.bytes_eq
  rw [List.getElem?_take] at there
  split at there
  · exact ⟨s, there, written.sameShape, DebugRecord.ascends laid⟩
  · cases there

theorem lines_of_linked {sections : List Section} (linked : Linked sections) {i j : Nat}
    {s : IrepSection} (found : sections[i]? = some (.irep s)) (link : s.debug = some j) :
    ∃ d, sections[j]? = some (.debug d) ∧ d.irep = i := by
  obtain ⟨⟨a, there, lines⟩, -⟩ := (linked i s found j).mp link
  cases a with
  | debug d => exact ⟨d, there, lines⟩
  | irep a => cases lines
  | skipped a => cases lines

end Section

namespace Image

variable {image : Image}

theorem visits_eq (s : IrepSection) : image.visits s = s.root.places.map fun place =>
    ⟨place.1.length, place.2, (image.linesOf s).bind fun d => d.root.subtree? place.1⟩ := by
  rw [visits, Tree.pairing_eq, List.map_map]
  apply List.map_congr_left
  intro place _
  have lines : ((image.linesOf s).map DebugSection.root).bind (·.subtree? place.1) =
      (image.linesOf s).bind fun d => d.root.subtree? place.1 := by
    cases image.linesOf s <;> rfl
  simp only [Function.comp, lines, Nat.zero_add]

theorem linesOf_eq_some_iff {s : IrepSection} {d : DebugSection} : image.linesOf s = some d ↔
    ∃ j, s.debug = some j ∧ image.sections.toList[j]? = some (.debug d) := by
  simp only [linesOf, Option.bind_eq_bind, Option.bind_eq_some_iff, Array.getElem?_toList]
  refine exists_congr fun j => and_congr_right fun _ => ?_
  split <;> simp_all

theorem treeOf_of_getElem? {d : DebugSection} {s : IrepSection}
    (found : image.sections.toList[d.irep]? = some (.irep s)) : image.treeOf d = some s := by
  rw [Array.getElem?_toList] at found
  simp [treeOf, found]

theorem visitedAt_places (s : IrepSection) :
    List.Forall₂ (image.VisitedAt s) (s.root.places.map Prod.fst) (image.visits s) := by
  rw [visits_eq, List.forall₂_map_left_iff, List.forall₂_map_right_iff, List.forall₂_same]
  exact fun place mem => ⟨Tree.mem_places.mp mem, rfl, rfl⟩

theorem map_tree_visits (image : Image) (s : IrepSection) :
    (image.visits s).map Visit.tree = s.root.stackOrder := by
  rw [visits_eq, List.map_map, ← Tree.map_snd_places]
  rfl

theorem map_debug_visits {s : IrepSection} {d : DebugSection} (lines : image.linesOf s = some d)
    (same : s.root.SameShape d.root) :
    (image.visits s).map Visit.debug = d.root.stackOrder.map some := by
  calc (image.visits s).map Visit.debug
      = (s.root.places.map Prod.fst).map d.root.subtree? := by
        rw [visits_eq, lines, List.map_map, List.map_map]
        rfl
    _ = (d.root.places.map Prod.fst).map d.root.subtree? := by rw [Tree.map_fst_places same]
    _ = (d.root.places.map Prod.snd).map some := by
        rw [List.map_map, List.map_map]
        exact List.map_congr_left fun place mem => Tree.mem_places.mp mem
    _ = d.root.stackOrder.map some := by rw [Tree.map_snd_places]

theorem pairwise_lines {visits : List Visit} {trees : List (Tree DebugRecord)}
    (debug : visits.map Visit.debug = trees.map some)
    (ascending : (trees.map (·.label.offset)).Pairwise (· < ·)) :
    visits.Pairwise fun v w => ∀ a ∈ v.lines, ∀ b ∈ w.lines, a.offset < b.offset := by
  have found : (visits.map Visit.debug).Pairwise fun t u : Option (Tree DebugRecord) =>
      ∀ a ∈ t.map Tree.label, ∀ b ∈ u.map Tree.label, a.offset < b.offset := by
    rw [debug, List.pairwise_map]
    refine (List.pairwise_map.mp ascending).imp fun lt a mem b mem' => ?_
    cases mem
    cases mem'
    exact lt
  exact List.pairwise_map.mp found

theorem walked {s : IrepSection}
    (tiling : Section.Tiling rules bytes start image.sections.toList stop)
    (mem : .irep s ∈ image.sections.toList) : image.Walked s where
  trees := map_tree_visits image s
  count := by rw [visits_eq, List.length_map, Tree.length_places]
  paths := ⟨_, List.pairwise_map.mpr (Tree.pairwise_places s.root),
    fun path => Tree.mem_map_fst_places, visitedAt_places s⟩
  ascending := by
    have ascending := tiling.ascends_irep mem
    rw [← map_tree_visits image s, List.map_map] at ascending
    exact List.pairwise_map.mp ascending
  unlinked link v mem := by
    rw [visits_eq, linesOf, link] at mem
    obtain ⟨place, -, rfl⟩ := List.mem_map.mp mem
    rfl
  linked link := by
    obtain ⟨j, link⟩ := Option.isSome_iff_exists.mp link
    obtain ⟨i, found⟩ := List.getElem?_of_mem mem
    obtain ⟨d, there, rfl⟩ := Section.lines_of_linked tiling.linked found link
    obtain ⟨t, found', same, ascending⟩ := tiling.lines_of_mem (List.mem_of_getElem? there)
    cases found.symm.trans found'
    have lines := linesOf_eq_some_iff.mpr ⟨_, link, there⟩
    have debug := map_debug_visits lines same
    exact ⟨d, lines, same, debug, pairwise_lines debug ascending⟩

/-- In a decoded image every walk pairs the records of a tree with those of its line tables, line
tables are those of a tree of their shape, and the links of a tree lead back to it. -/
theorem decode_walks {rules : Strictness} {bytes : ByteArray}
    (ok : (decode rules bytes).result = .ok image) :
    (∀ s, .irep s ∈ image.sections → image.Walked s) ∧
      (∀ d, .debug d ∈ image.sections →
        ∃ s, image.treeOf d = some s ∧ s.root.SameShape d.root) ∧
      ∀ s d, .irep s ∈ image.sections → image.linesOf s = some d → image.treeOf d = some s := by
  obtain ⟨-, start, -, tiling⟩ := reads_read_iff.mp ⟨ok, rfl⟩
  simp only [← Array.mem_toList_iff]
  refine ⟨fun s mem => walked tiling mem, fun d mem => ?_, fun s d mem lines => ?_⟩
  · obtain ⟨s, found, same, -⟩ := tiling.lines_of_mem mem
    exact ⟨s, treeOf_of_getElem? found, same⟩
  · obtain ⟨i, found⟩ := List.getElem?_of_mem mem
    obtain ⟨j, link, there⟩ := linesOf_eq_some_iff.mp lines
    obtain ⟨d', there', rfl⟩ := Section.lines_of_linked tiling.linked found link
    cases there.symm.trans there'
    exact treeOf_of_getElem? found

def pairedBytes : ByteArray := ⟨#[
  0x52, 0x49, 0x54, 0x45, 0x30, 0x30, 0x30, 0x33, 0xE8, 0x32, 0, 0, 0, 12,
  0x4D, 0x41, 0x54, 0x5A, 0x30, 0x30, 0x30, 0x30,
  0x49, 0x52, 0x45, 0x50, 0, 0, 0, 58, 0x30, 0x30, 0x30, 0x30,
  0, 0, 0, 22, 0, 1, 0, 2, 0, 1, 0, 0, 0, 0, 0, 0, 0, 0, 0, 0, 0, 0,
  0, 0, 0, 24, 0, 3, 0, 4, 0, 0, 0, 0, 0, 0, 0, 0, 0, 0, 0, 0, 0, 0, 0, 0,
  0x44, 0x42, 0x47, 0x00, 0, 0, 0, 22, 0, 0, 0, 0, 0, 6, 0, 0, 0, 0, 0, 6, 0, 0,
  0x45, 0x4E, 0x44, 0x00, 0, 0, 0, 8]⟩

def pairedTree (link : Option Nat) : IrepSection :=
  ⟨22, 58, Tag.ofChars '0' '0' '0' '0',
    .node ⟨34, 22, 1, 2, [], [], []⟩ [.node ⟨56, 24, 3, 4, [], [], []⟩ []], link⟩

def pairedLines : DebugSection :=
  ⟨80, 22, [], .node ⟨90, 6, []⟩ [.node ⟨96, 6, []⟩ []], 0⟩

def pairedImage : Image :=
  ⟨⟨Tag.magic, Tag.version, 0xE832, 12, Tag.ofChars 'M' 'A' 'T' 'Z', Tag.ofChars '0' '0' '0' '0'⟩,
    #[.irep (pairedTree (some 1)), .debug pairedLines]⟩

/-- Every size is exact and the magic is the known one, so the rules only have to let the nested
record be. -/
theorem reads_paired (rules : Strictness) (deep : 0 < rules.depthLimit) :
    Reads (read rules) pairedBytes 0 pairedImage 110 := by
  have header : Reads Header.read pairedBytes 0 pairedImage.header 22 :=
    ⟨by decide +kernel, by decide +kernel⟩
  obtain ⟨sizes, magic, limit⟩ := rules
  obtain ⟨limit, rfl⟩ := Nat.exists_eq_succ_of_ne_zero (Nat.ne_of_gt deep)
  have tree : Reads (Section.read ⟨sizes, magic, limit + 1⟩ #[]) pairedBytes 22
      (some (.irep (pairedTree none))) 80 := by
    cases sizes <;> exact ⟨rfl, rfl⟩
  have lines : Reads (Section.read ⟨sizes, magic, limit + 1⟩ #[.irep (pairedTree none)])
      pairedBytes 80 (some (.debug pairedLines)) 102 := by
    cases sizes <;> exact ⟨rfl, rfl⟩
  have last : Reads (Section.read ⟨sizes, magic, limit + 1⟩ pairedImage.sections) pairedBytes 102
      none 110 := ⟨rfl, rfl⟩
  have run : Section.Run ⟨sizes, magic, limit + 1⟩ pairedBytes #[] 22 pairedImage.sections 110 :=
    .step tree (.step lines (.done last))
  exact reads_iff.mpr ⟨fun _ => rfl, 22, header, Section.reads_readAll_iff.mpr run⟩

theorem decode_walks_paired : (decode .lenient pairedBytes).result = .ok pairedImage ∧
    pairedImage.Walked (pairedTree (some 1)) := by
  have ok := (reads_paired .lenient (by decide)).1
  exact ⟨ok, (decode_walks ok).1 _ (by simp [pairedImage])⟩

end Image

end RiteImage
