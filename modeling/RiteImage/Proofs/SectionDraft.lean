import RiteImage.Proofs.RecordDraft

namespace RiteImage

open Reader

inductive SectionDraft
  | irep (stamp : Tag) (root : Tree IrepDraft) (trailing : List UInt8)
  | debug (filenames : List String) (root : Tree DebugDraft) (trailing : List UInt8)
  | skipped (tag : Tag) (body : List UInt8)

namespace SectionDraft

def tag : SectionDraft → Tag
  | irep .. => Tag.irep
  | debug .. => Tag.debug
  | skipped tag _ => tag

def isIrep : SectionDraft → Bool
  | irep .. => true
  | _ => false

def isDebug : SectionDraft → Bool
  | debug .. => true
  | _ => false

def nameBytes (filename : String) : List UInt8 :=
  wordBytes 2 filename.utf8ByteSize ++ filename.toUTF8.data.toList

def linesBytes (_ : Nat) (d : DebugDraft) (_ : Nat) : List UInt8 := d.bytes

def linesStart (start : Nat) (filenames : List String) : Nat :=
  start + 10 + (filenames.flatMap nameBytes).length

def content (start : Nat) : SectionDraft → List UInt8
  | irep stamp root trailing => stamp.bytes ++ root.write IrepDraft.bytes (start + 12) ++ trailing
  | debug filenames root trailing =>
    wordBytes 2 filenames.length ++ filenames.flatMap nameBytes ++
    root.write linesBytes (linesStart start filenames) ++ trailing
  | skipped _ body => body

def length (start : Nat) (d : SectionDraft) : Nat := 8 + (d.content start).length

def bytes (start : Nat) (d : SectionDraft) : List UInt8 :=
  d.tag.bytes ++ wordBytes 4 (d.length start) ++ d.content start

/-- The section that the bytes at `start` say, with the links of its place among others. -/
def sectionAt (start : Nat) (tree lines : Option Nat) : SectionDraft → Section
  | d@(irep stamp root _) =>
    .irep ⟨start, UInt32.ofNat (d.length start), stamp,
      root.placed IrepDraft.bytes IrepDraft.record (start + 12), lines⟩
  | d@(debug filenames root _) =>
    .debug ⟨start, UInt32.ofNat (d.length start), filenames,
      root.placed linesBytes (fun start record _ => record.record filenames start)
        (linesStart start filenames), tree.getD 0⟩
  | d@(skipped tag _) => .skipped ⟨tag, start, UInt32.ofNat (d.length start)⟩

/-- What a section must meet by itself, besides the bound on its size. -/
def Fits : SectionDraft → Prop
  | irep _ root _ => root.height ≤ 128 ∧ root.EveryNode fun _ childCount => childCount < 2 ^ 16
  | debug filenames root _ =>
    filenames.length < 2 ^ 16 ∧ (∀ filename ∈ filenames, filename.utf8ByteSize < 2 ^ 16) ∧
    root.Every (DebugDraft.RefersBelow filenames.length)
  | skipped tag _ => tag ≠ Tag.endMarker ∧ tag ≠ Tag.irep ∧ tag ≠ Tag.debug

variable {d : SectionDraft} {bytes : ByteArray} {start : Nat} {tree lines : Option Nat}

theorem length_bytes (start : Nat) (d : SectionDraft) :
    (d.bytes start).length = d.length start := by
  simp only [SectionDraft.bytes, List.length_append, Tag.length_bytes, length_wordBytes, length]

@[simp] theorem tag_sectionAt : (d.sectionAt start tree lines).tag = d.tag := by cases d <;> rfl

@[simp] theorem offset_sectionAt : (d.sectionAt start tree lines).offset = start := by
  cases d <;> rfl

theorem size_sectionAt (short : d.length start < 2 ^ 32) :
    (d.sectionAt start tree lines).size.toNat = d.length start := by
  cases d <;> exact UInt32.toNat_ofNat_of_lt' short

theorem placed_sectionAt (short : d.length start < 2 ^ 32)
    (stands : Stands bytes start (d.bytes start)) :
    Section.Placed bytes start (d.sectionAt start tree lines) := by
  refine ⟨offset_sectionAt, ?_, ?_⟩
  · rw [size_sectionAt short]
    exact Nat.le_add_right _ _
  · rw [size_sectionAt short, tag_sectionAt]
    exact (Stands.append_iff.mp stands).1

theorem reads_irep {stamp : Tag} {root : Tree IrepDraft} {trailing : List UInt8}
    (fits : (irep stamp root trailing).Fits)
    (short : (irep stamp root trailing).length start < 2 ^ 32)
    (stands : Stands bytes start ((irep stamp root trailing).bytes start)) :
    ∃ stop, Reads (IrepSection.read .lenient) bytes start
      ⟨start, UInt32.ofNat ((irep stamp root trailing).length start), stamp,
        root.placed IrepDraft.bytes IrepDraft.record (start + 12), none⟩ stop ∧
      stop ≤ start + (irep stamp root trailing).length start := by
  obtain ⟨low, countable⟩ := fits
  have size := UInt32.toNat_ofNat_of_lt' short
  have total := length_bytes start (irep stamp root trailing)
  -- The trailing bytes are the only ones that the content leaves over.
  have split : (irep stamp root trailing).bytes start =
      (Tag.irep.bytes ++ wordBytes 4 ((irep stamp root trailing).length start) ++ stamp.bytes ++
        root.write IrepDraft.bytes (start + 12)) ++ trailing := by
    simp only [SectionDraft.bytes, tag, content, List.append_assoc]
  rw [split] at stands
  rw [split, List.length_append] at total
  have laid : Tree.Laid (Irep.WrittenUnder .lenient) (start + 12)
      (root.placed IrepDraft.bytes IrepDraft.record (start + 12))
      (root.write IrepDraft.bytes (start + 12)) := by
    refine Tree.laid_write (fun start a count fits small => a.written fits small .lenient)
      countable ?_
    simp only [List.length_append] at total
    omega
  have placed_low : (root.placed IrepDraft.bytes IrepDraft.record (start + 12)).height ≤ 128 := by
    rw [← Tree.height_eq_of_sameShape (Tree.sameShape_placed root _)]
    exact low
  have written : IrepSection.Written .lenient start
      ⟨start, UInt32.ofNat ((irep stamp root trailing).length start), stamp,
        root.placed IrepDraft.bytes IrepDraft.record (start + 12), none⟩
      (Tag.irep.bytes ++ wordBytes 4 ((irep stamp root trailing).length start) ++ stamp.bytes ++
        root.write IrepDraft.bytes (start + 12)) := by
    refine ⟨rfl, rfl, placed_low, fun enforced => (by cases enforced), Tag.irep, _, ?_, laid⟩
    rw [size]
  have read := (IrepSection.accepts_read .lenient).reads_of_stands
    (Stands.append_iff.mp stands).1 written
  exact ⟨_, read, by omega⟩

theorem nameBytes_written {filename : String} (short : filename.utf8ByteSize < 2 ^ 16) :
    DebugSection.NameWritten filename (nameBytes filename) :=
  ⟨filename.toUTF8, short, (Utf8.decode_toUTF8 filename).symm, rfl⟩

theorem names_written {filenames : List String}
    (short : ∀ filename ∈ filenames, filename.utf8ByteSize < 2 ^ 16) :
    List.Forall₂ DebugSection.NameWritten filenames (filenames.map nameBytes) := by
  rw [List.forall₂_map_right_iff, List.forall₂_same]
  exact fun filename member => nameBytes_written (short filename member)

theorem tables_laid {filenames : List String} {root : Tree DebugDraft} {here : Nat}
    (refers : root.Every (DebugDraft.RefersBelow filenames.length))
    (short : (root.write linesBytes here).length < 2 ^ 32) :
    Tree.Laid (fun start record _ segment => DebugRecord.Written start record segment ∧
        record.Named filenames ∧ record.Exact) here
      (root.placed linesBytes (fun start record _ => record.record filenames start) here)
      (root.write linesBytes here) := by
  have node_ok (start : Nat) (d : DebugDraft) (count : Nat)
      (refers : d.RefersBelow filenames.length)
      (small : (linesBytes start d count).length < 2 ^ 32) :
      DebugRecord.Written start (d.record filenames start) (linesBytes start d count) ∧
        (d.record filenames start).Named filenames ∧ (d.record filenames start).Exact :=
    DebugDraft.written refers small
  exact Tree.laid_write node_ok refers.everyNode short

theorem reads_debug {filenames : List String} {root : Tree DebugDraft} {trailing : List UInt8}
    {α : Type} {shape : Tree α} (fits : (debug filenames root trailing).Fits)
    (short : (debug filenames root trailing).length start < 2 ^ 32)
    (stands : Stands bytes start ((debug filenames root trailing).bytes start))
    (same : shape.SameShape root) (i : Nat) :
    ∃ stop, Reads (DebugSection.readFor .lenient i shape) bytes start
      ⟨start, UInt32.ofNat ((debug filenames root trailing).length start), filenames,
        root.placed linesBytes (fun start record _ => record.record filenames start)
          (linesStart start filenames), i⟩ stop ∧
      stop ≤ start + (debug filenames root trailing).length start := by
  obtain ⟨countable, names_short, refers⟩ := fits
  have size := UInt32.toNat_ofNat_of_lt' short
  have total := length_bytes start (debug filenames root trailing)
  have split : (debug filenames root trailing).bytes start =
      (Tag.debug.bytes ++ wordBytes 4 ((debug filenames root trailing).length start) ++
        wordBytes 2 filenames.length ++ filenames.flatMap nameBytes ++
        root.write linesBytes (linesStart start filenames)) ++ trailing := by
    simp only [SectionDraft.bytes, tag, content, List.append_assoc]
  rw [split] at stands
  rw [split, List.length_append] at total
  have tables_short : (root.write linesBytes (linesStart start filenames)).length < 2 ^ 32 := by
    simp only [List.length_append] at total
    omega
  obtain ⟨laid, every⟩ := Tree.laid_and.mp (tables_laid refers tables_short)
  have written : DebugSection.Written .lenient i shape start
      ⟨start, UInt32.ofNat ((debug filenames root trailing).length start), filenames,
        root.placed linesBytes (fun start record _ => record.record filenames start)
          (linesStart start filenames), i⟩
      (Tag.debug.bytes ++ wordBytes 4 ((debug filenames root trailing).length start) ++
        wordBytes 2 filenames.length ++ filenames.flatMap nameBytes ++
        root.write linesBytes (linesStart start filenames)) := by
    refine ⟨rfl, rfl, countable, same.trans (Tree.sameShape_placed root _), fun path s found => ?_,
      fun enforced => (by cases enforced), Tag.debug, _,
      root.write linesBytes (linesStart start filenames), ?_, names_written names_short, ?_⟩
    · exact ⟨(every path s found).1, fun _ => (every path s found).2⟩
    · rw [size, List.flatMap_def]
    · rw [← List.flatMap_def]
      exact laid
  have read := (DebugSection.accepts_readFor .lenient i shape).reads_of_stands
    (Stands.append_iff.mp stands).1 written
  exact ⟨_, read, by omega⟩

end SectionDraft

end RiteImage
