import RiteImage.Lines.Debug
import RiteImage.Proofs.SectionLayout

/-! Lookup of lines as a scan.
A lookup asks the last file that starts at or before an instruction, and no other. In a
map it halves the entries, which finds the last one at or before the instruction if they
are in order. Both come out as going through all files and all entries. -/
namespace RiteImage

namespace LineTable

def Sorted : LineTable → Prop
  | .array _ => True
  | .map entries => entries.toList.Pairwise fun a b => a.offset ≤ b.offset

instance : (table : LineTable) → Decidable table.Sorted
  | .array _ => inferInstanceAs (Decidable True)
  | .map entries => inferInstanceAs (Decidable (entries.toList.Pairwise _))

/-- The line of an instruction at or behind `start`, told by all entries: the one with the index
of the instruction, or the last one at or before it. -/
def scan (table : LineTable) (start pc : UInt32) : Option UInt16 :=
  match table with
  | .array lines => lines.toList[pc.toNat - start.toNat]?
  | .map entries => ((entries.toList.filter (·.offset ≤ pc)).getLast?).map LineEntry.line

theorem take_border_entries {entries : Array LineEntry} (pc : UInt32)
    (sorted : (LineTable.map entries).Sorted) :
    entries.toList.take (border (fun entry => entry.offset ≤ pc) entries) =
      entries.toList.filter (·.offset ≤ pc) := by
  apply take_border
  refine List.Pairwise.imp (fun {a b} le kept => ?_) sorted
  exact decide_eq_true (UInt32.le_trans le (of_decide_eq_true kept))

theorem lineAt_map {entries : Array LineEntry} {start pc : UInt32} (reached : start ≤ pc) :
    (LineTable.map entries).lineAt start pc =
      ((entries.toList.take (border (fun entry => entry.offset ≤ pc) entries)).getLast?).map
        LineEntry.line := by
  have inside := border_le (fun entry : LineEntry => entry.offset ≤ pc) entries
  simp only [lineAt, if_neg (UInt32.not_lt.mpr reached)]
  cases found : border (fun entry : LineEntry => entry.offset ≤ pc) entries with
  | zero => rfl
  | succ after =>
    rw [found] at inside
    change entries[after]?.map LineEntry.line = _
    rw [List.getLast?_take, if_neg (Nat.succ_ne_zero after), Nat.add_sub_cancel,
      Array.getElem?_toList, Array.getElem?_eq_getElem inside, Option.some_or]

theorem lineAt_eq_scan {table : LineTable} {start pc : UInt32} (sorted : table.Sorted)
    (reached : start ≤ pc) : table.lineAt start pc = table.scan start pc := by
  cases table with
  | array lines => rw [lineAt, if_neg (UInt32.not_lt.mpr reached), scan, Array.getElem?_toList]
  | map entries => rw [lineAt_map reached, take_border_entries pc sorted, scan]

end LineTable

namespace Section

theorem LastWhere.unique {α : Type} {holds : α → Prop} {values : List α} {i k : Nat}
    (one : LastWhere holds values i) (two : LastWhere holds values k) : i = k := by
  obtain ⟨⟨a, found, h⟩, last⟩ := one
  obtain ⟨⟨b, found', h'⟩, last'⟩ := two
  rcases Nat.lt_trichotomy i k with lt | same | gt
  · exact absurd h' (last k b lt found')
  · exact same
  · exact absurd h (last' i a gt found)

theorem exists_lastWhere {α : Type} {keep : α → Bool} {values : List α} {a : α}
    (last : (values.filter keep).getLast? = some a) :
    ∃ i, values[i]? = some a ∧ LastWhere (fun b => keep b = true) values i := by
  -- The last kept entry is looked for from the end, so the induction starts there.
  induction values using List.reverseRecOn with
  | nil => cases last
  | append_singleton values b ih =>
    by_cases kept : keep b = true
    · rw [List.filter_append, List.filter_singleton, kept, cond_true, List.getLast?_concat] at last
      cases last
      exact ⟨values.length, List.getElem?_concat_length, lastWhere_concat.mpr (.inl ⟨kept, rfl⟩)⟩
    · rw [List.filter_append, List.filter_singleton, (Bool.not_eq_true _).mp kept, cond_false,
        List.append_nil] at last
      obtain ⟨i, found, before⟩ := ih last
      exact ⟨i, concat_eq_some_iff.mpr (.inl found), lastWhere_concat.mpr (.inr ⟨kept, before⟩)⟩

/-- In ascending order, the last key at or before a bound is the one whose successor, if there is
one, lies behind the bound. -/
theorem lastWhere_iff_interval {α : Type} {key : α → UInt32} {values : List α}
    (ascending : values.Pairwise fun a b => key a ≤ key b) {bound : UInt32} {i : Nat} {a : α}
    (found : values[i]? = some a) :
    LastWhere (fun b => key b ≤ bound) values i ↔
      key a ≤ bound ∧ ∀ next, values[i + 1]? = some next → bound < key next := by
  constructor
  · rintro ⟨⟨b, found', before⟩, last⟩
    cases found.symm.trans found'
    exact ⟨before, fun next there =>
      UInt32.not_le.mp (last (i + 1) next (Nat.lt_succ_self i) there)⟩
  · rintro ⟨before, ends⟩
    refine ⟨⟨a, found, before⟩, fun k b above there => ?_⟩
    obtain ⟨inside, rfl⟩ := List.getElem?_eq_some_iff.mp there
    have inside' : i + 1 < values.length := Nat.lt_of_le_of_lt above inside
    have beyond := ends _ (List.getElem?_eq_getElem inside')
    rcases Nat.lt_or_eq_of_le above with further | rfl
    · have le := List.pairwise_iff_getElem.mp ascending (i + 1) k inside' inside further
      exact UInt32.not_le.mpr (UInt32.lt_of_lt_of_le beyond le)
    · exact UInt32.not_le.mpr beyond

end Section

namespace DebugRecord

theorem locate_eq_getLast? (record : DebugRecord) (pc : UInt32) :
    record.locate pc = ((record.files.filter (·.start ≤ pc)).getLast?).bind fun file =>
      (file.lineAt pc).map (Location.mk file.filename) := by
  rw [locate, List.getLast?_filter]
  refine congrArg (Option.bind _) (funext fun file => ?_)
  cases file.lineAt pc <;> rfl

/-- If all maps are in order, a lookup is a scan. It finds nothing where all files start behind the
instruction. Otherwise it takes the last file that does not, and what a scan of its lines says. If
the files are in order as well, this is the one file in whose interval the instruction lies. -/
theorem locate_eq_scan (record : DebugRecord)
    (sorted : ∀ file ∈ record.files, file.lines.Sorted) (pc : UInt32) :
    ((∀ file ∈ record.files, pc < file.start) ∧ record.locate pc = none) ∨
      ∃ i file, record.files[i]? = some file ∧
        Section.LastWhere (fun f : FileLines => f.start ≤ pc) record.files i ∧
        record.locate pc = (file.lines.scan file.start pc).map (Location.mk file.filename) ∧
        (record.files.Pairwise (fun f g => f.start ≤ g.start) →
          ∀ k other, record.files[k]? = some other → (k = i ↔ other.start ≤ pc ∧
            ∀ next, record.files[k + 1]? = some next → pc < next.start)) := by
  rw [locate_eq_getLast?]
  cases asked : (record.files.filter (·.start ≤ pc)).getLast? with
  | none =>
    refine .inl ⟨fun file mem => ?_, rfl⟩
    have empty := List.filter_eq_nil_iff.mp (List.getLast?_eq_none_iff.mp asked)
    exact UInt32.not_le.mp fun le => empty file mem (decide_eq_true le)
  | some file =>
    obtain ⟨i, found, last⟩ := Section.exists_lastWhere asked
    simp only [decide_eq_true_eq] at last
    have mem := List.mem_of_getElem? found
    have reached : file.start ≤ pc :=
      of_decide_eq_true (List.mem_filter.mp (List.mem_of_getLast? asked)).2
    refine .inr ⟨i, file, found, last, ?_, fun ascending k other there => ?_⟩
    · rw [Option.bind_some, FileLines.lineAt, LineTable.lineAt_eq_scan (sorted file mem) reached]
    · rw [← Section.lastWhere_iff_interval ascending there]
      constructor
      · rintro rfl
        exact last
      · intro here
        exact here.unique last

def overlappingRecord : DebugRecord where
  offset := 0
  recordSize := 0
  files := [
    ⟨0, 0, "a", .array #[7, 8, 9, 9, 9]⟩,
    ⟨2, 1, "b", .array #[1]⟩,
    ⟨2, 2, "c", .map #[⟨1, 4⟩, ⟨3, 5⟩, ⟨3, 6⟩, ⟨8, 7⟩]⟩]

theorem locate_eq_scan_overlapping :
    (∀ file ∈ overlappingRecord.files, file.lines.Sorted) ∧
      Section.LastWhere (fun f : FileLines => f.start ≤ 7) overlappingRecord.files 2 ∧
      overlappingRecord.locate 7 = some ⟨"c", 6⟩ := by
  have sorted : ∀ file ∈ overlappingRecord.files, file.lines.Sorted := by decide
  rcases locate_eq_scan overlappingRecord sorted 7 with
    ⟨behind, -⟩ | ⟨i, file, found, last, located, ascending⟩
  · exact absurd (behind _ List.mem_cons_self) (by decide)
  · obtain rfl : 2 = i := (ascending (by decide) 2 _ rfl).mpr ⟨by decide, nofun⟩
    cases found
    exact ⟨sorted, last, located⟩

end DebugRecord

end RiteImage
