import RiteImage.Proofs.LineScan

namespace RiteImage

namespace LineTable

variable {lines : Array UInt16} {entries : Array LineEntry} {start pc : UInt32} {line : UInt16}

theorem getElem?_listing_array (lines : Array UInt16) (start : UInt32) (i : Nat) :
    ((LineTable.array lines).listing start)[i]? =
      lines[i]?.map fun line => (start.toNat + i, line) := by
  rw [listing, List.getElem?_mapIdx, Array.getElem?_toList]

theorem mem_listing_array {n : Nat} :
    (n, line) ∈ (LineTable.array lines).listing start ↔
      start.toNat ≤ n ∧ lines[n - start.toNat]? = some line := by
  simp only [List.mem_iff_getElem?, getElem?_listing_array, Option.map_eq_some_iff, Prod.mk.injEq]
  constructor
  · rintro ⟨i, _, found, rfl, rfl⟩
    exact ⟨Nat.le_add_right _ _, by rwa [Nat.add_sub_cancel_left]⟩
  · rintro ⟨le, found⟩
    exact ⟨n - start.toNat, line, found, Nat.add_sub_cancel' le, rfl⟩

theorem lineAt_array :
    (LineTable.array lines).lineAt start pc = some line ↔
      (pc.toNat, line) ∈ (LineTable.array lines).listing start := by
  rw [mem_listing_array, ← UInt32.le_iff_toNat_le, lineAt]
  split
  · rename_i before
    simp [UInt32.not_le.mpr before]
  · rename_i reached
    simp [UInt32.not_lt.mp reached]

theorem filter_listing_map (entries : Array LineEntry) (start pc : UInt32) :
    ((LineTable.map entries).listing start).filter (·.1 ≤ pc.toNat) =
      (entries.toList.filter (·.offset ≤ pc)).map fun entry => (entry.offset.toNat, entry.line) := by
  rw [listing, List.filter_map]
  rfl

theorem lineAt_map_eq_listed (sorted : (LineTable.map entries).Sorted)
    (behind : ∀ entry ∈ entries, start ≤ entry.offset) :
    (LineTable.map entries).lineAt start pc =
      ((((LineTable.map entries).listing start).filter (·.1 ≤ pc.toNat)).getLast?).map Prod.snd := by
  rw [filter_listing_map, List.getLast?_map, Option.map_map]
  rcases UInt32.lt_or_le pc start with before | reached
  · have none : entries.toList.filter (·.offset ≤ pc) = [] := by
      refine List.filter_eq_nil_iff.mpr fun entry mem le => ?_
      have bound := behind entry (Array.mem_toList_iff.mp mem)
      exact absurd (UInt32.le_trans bound (of_decide_eq_true le)) (UInt32.not_le.mpr before)
    rw [lineAt, if_pos before, none]
    rfl
  · rw [lineAt_eq_scan sorted reached]
    rfl

/-- In a map that ascends, no later entry is at or before the instruction of an earlier one. -/
theorem lineAt_of_mem {entry : LineEntry}
    (ascending : entries.toList.Pairwise fun a b => a.offset < b.offset) (mem : entry ∈ entries)
    (reached : start ≤ entry.offset) :
    (LineTable.map entries).lineAt start entry.offset = some entry.line := by
  have sorted : (LineTable.map entries).Sorted := ascending.imp UInt32.le_of_lt
  obtain ⟨before, after, whole⟩ := List.append_of_mem (Array.mem_toList_iff.mpr mem)
  rw [lineAt_eq_scan sorted reached, scan, whole]
  rw [whole] at ascending
  obtain ⟨-, later, -⟩ := List.pairwise_append.mp ascending
  have none : after.filter (·.offset ≤ entry.offset) = [] := by
    refine List.filter_eq_nil_iff.mpr fun other mem' le => ?_
    have lt := (List.pairwise_cons.mp later).1 other mem'
    exact absurd (of_decide_eq_true le) (UInt32.not_le.mpr lt)
  have here : (entry :: after).filter (·.offset ≤ entry.offset) = [entry] := by
    rw [List.filter_cons, none, if_pos (decide_eq_true (UInt32.le_refl _))]
  rw [List.filter_append, here, List.getLast?_concat, Option.map_some]

end LineTable

namespace FileLines

/-- What is listed and what is looked up. The listing of an array has each stored line once, at the
instruction it is for, and only those beyond the range of instructions cannot be looked up. In a
map that ascends from its start, an instruction has the line that was listed last at or before it,
so each listed instruction has its own. -/
theorem lineAt_iff_listed (file : FileLines) :
    (∀ lines, file.lines = .array lines →
      (∀ pc line, file.lineAt pc = some line ↔
        (pc.toNat, line) ∈ file.lines.listing file.start) ∧
      (file.lines.listing file.start).length = lines.size ∧
      (∀ i : Nat, (file.lines.listing file.start)[i]? =
        lines[i]?.map fun line => (file.start.toNat + i, line)) ∧
      ∀ place ∈ file.lines.listing file.start,
        (∃ pc : UInt32, pc.toNat = place.1 ∧ file.lineAt pc = some place.2) ↔ place.1 < 2 ^ 32) ∧
    ∀ entries, file.lines = .map entries →
      entries.toList.Pairwise (fun a b => a.offset < b.offset) →
      (∀ entry ∈ entries, file.start ≤ entry.offset) →
      (∀ pc line, file.lineAt pc = some line ↔
        ∃ place, ((file.lines.listing file.start).filter (·.1 ≤ pc.toNat)).getLast? = some place ∧
          place.2 = line) ∧
      ∀ place ∈ file.lines.listing file.start,
        ∃ pc : UInt32, pc.toNat = place.1 ∧ file.lineAt pc = some place.2 := by
  obtain ⟨start, index, filename, table⟩ := file
  constructor
  · rintro lines rfl
    refine ⟨fun pc line => LineTable.lineAt_array, ?_,
      LineTable.getElem?_listing_array lines start, fun place mem => ?_⟩
    · rw [LineTable.listing, List.length_mapIdx, Array.length_toList]
    · constructor
      · rintro ⟨pc, same, -⟩
        exact same ▸ pc.toNat_lt
      · intro within
        have same : (UInt32.ofNat place.1).toNat = place.1 := UInt32.toNat_ofNat_of_lt' within
        exact ⟨_, same, LineTable.lineAt_array.mpr (by rwa [same])⟩
  · rintro entries rfl ascending behind
    have sorted : (LineTable.map entries).Sorted := ascending.imp UInt32.le_of_lt
    refine ⟨fun pc line => ?_, fun place mem => ?_⟩
    · rw [lineAt, LineTable.lineAt_map_eq_listed sorted behind, Option.map_eq_some_iff]
    · obtain ⟨entry, stored, rfl⟩ := List.mem_map.mp mem
      have inside := Array.mem_toList_iff.mp stored
      exact ⟨entry.offset, rfl, LineTable.lineAt_of_mem ascending inside (behind entry inside)⟩

def lastLines : FileLines := ⟨0xFFFFFFFF, 0, "a", .array #[1, 2]⟩

def steppedLines : FileLines := ⟨2, 0, "b", .map #[⟨3, 10⟩, ⟨6, 12⟩]⟩

theorem lineAt_iff_listed_last :
    (2 ^ 32, 2) ∈ lastLines.lines.listing lastLines.start ∧
      (¬ ∃ pc : UInt32, pc.toNat = 2 ^ 32 ∧ lastLines.lineAt pc = some 2) ∧
      steppedLines.lines.listing steppedLines.start = [(3, 10), (6, 12)] ∧
      steppedLines.lineAt 5 = some 10 := by
  have listed : (2 ^ 32, 2) ∈ lastLines.lines.listing lastLines.start := by decide
  obtain ⟨-, -, -, reachable⟩ := (lineAt_iff_listed lastLines).1 _ rfl
  obtain ⟨answers, -⟩ := (lineAt_iff_listed steppedLines).2 _ rfl (by decide) (by decide)
  refine ⟨listed, fun reached => ?_, rfl, (answers 5 10).mpr ⟨(3, 10), by decide, rfl⟩⟩
  exact Nat.lt_irrefl _ ((reachable _ listed).mp reached)

end FileLines

end RiteImage
