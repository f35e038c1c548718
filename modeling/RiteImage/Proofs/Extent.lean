import RiteImage.Proofs.SectionLayout

namespace RiteImage

def shortAt (bytes : ByteArray) (place : Nat) : Nat := bigEndian (between bytes place (place + 2))

def entryPlaces (length : Nat → Nat) : Nat → Nat → List Nat
  | 0, _ => []
  | count + 1, place => place :: entryPlaces length count (place + length place)

def entriesEnd (length : Nat → Nat) : Nat → Nat → Nat
  | 0, place => place
  | count + 1, place => entriesEnd length count (place + length place)

def Literal.lengthAt (bytes : ByteArray) (place : Nat) : Nat := 3 + shortAt bytes (place + 1)

def Symbol.lengthAt (bytes : ByteArray) (place : Nat) : Nat :=
  if shortAt bytes place = 0xFFFF then 2 else 2 + shortAt bytes place + 1

namespace Irep

def headEnd (record : Irep) : Nat := record.offset + 14

/-- The fill is counted from the start of the buffer. -/
def opcodesStart (record : Irep) : Nat :=
  record.headEnd + Reader.padding 4 (Nat.succ_pos 3) record.headEnd

def poolStart (record : Irep) : Nat := record.opcodesStart + 4 * record.opcodes.length + 4

def symbolsStart (bytes : ByteArray) (record : Irep) : Nat :=
  entriesEnd (Literal.lengthAt bytes) record.pool.length record.poolStart + 4

def stop (bytes : ByteArray) (record : Irep) : Nat :=
  entriesEnd (Symbol.lengthAt bytes) record.symbols.length (record.symbolsStart bytes)

end Irep

def DebugRecord.stop (record : DebugRecord) : Nat := record.offset + record.bytes.length

namespace Tree

variable {α : Type}

mutual

def last : Tree α → α
  | node a ts => lastOf a ts

def lastOf (a : α) : List (Tree α) → α
  | [] => a
  | t :: ts => lastOf (last t) ts

end

end Tree

def IrepSection.contentEnd (bytes : ByteArray) (s : IrepSection) : Nat := s.root.last.stop bytes

def DebugSection.contentEnd (s : DebugSection) : Nat := s.root.last.stop

/-! Entries of a table, by the bytes that write them. -/

theorem shortAt_of_stands {bytes : ByteArray} {place n : Nat} (short : n < 2 ^ 16)
    (stands : Stands bytes place (wordBytes 2 n)) : shortAt bytes place = n := by
  have word := stands.between_eq
  rw [length_wordBytes] at word
  rw [shortAt, word]
  exact bigEndian_wordBytes short

theorem entriesEnd_eq {α : Type} {bytes : ByteArray} {written : α → List UInt8 → Prop}
    {length : Nat → Nat} {place : Nat} {values : List α} {segments : List (List UInt8)}
    (measured : ∀ a segment place, written a segment → Stands bytes place segment →
      segment.length = length place)
    (each : List.Forall₂ written values segments) (stands : Stands bytes place segments.flatten) :
    entriesEnd length values.length place = place + segments.flatten.length := by
  induction each generalizing place with
  | nil => rfl
  | cons first _ ih =>
    obtain ⟨here, behind⟩ := Stands.append_iff.mp stands
    rw [List.length_cons, entriesEnd, ← measured _ _ _ first here, ih behind, List.flatten_cons,
      List.length_append, Nat.add_assoc]

theorem Literal.length_of_written {bytes : ByteArray} {literal : Literal} {segment : List UInt8}
    {place : Nat} (written : Written literal segment) (stands : Stands bytes place segment) :
    segment.length = lengthAt bytes place := by
  obtain ⟨tag, payload, short, -, rfl⟩ := written
  rw [List.append_assoc, Stands.append_iff, Stands.append_iff] at stands
  have length : shortAt bytes (place + 1) = payload.size := shortAt_of_stands short stands.2.1
  rw [lengthAt, length]
  simp only [List.length_append, List.length_singleton, length_wordBytes, length_toList]

theorem Symbol.length_of_written {bytes : ByteArray} {symbol : String} {segment : List UInt8}
    {place : Nat} (written : Written symbol segment) (stands : Stands bytes place segment) :
    segment.length = lengthAt bytes place := by
  rcases written with ⟨-, rfl⟩ | ⟨name, terminator, short, -, rfl⟩
  · rw [lengthAt, shortAt_of_stands (by decide) stands, if_pos rfl, length_wordBytes]
  · rw [List.append_assoc, Stands.append_iff] at stands
    rw [lengthAt, shortAt_of_stands (by omega) stands.1, if_neg (Nat.ne_of_lt short)]
    simp only [List.length_append, List.length_singleton, length_wordBytes, length_toList]

namespace Irep

/-- A record in a buffer, cut behind its head and its fill and before its symbols. -/
structure Parts (bytes : ByteArray) (record : Irep) (childCount : Nat)
    (head fill tables : List UInt8) (symbols : List (List UInt8)) : Prop where
  head_length : head.length = 14
  fill_length : fill.length = Reader.padding 4 (Nat.succ_pos 3) record.headEnd
  tables_end : record.opcodesStart + tables.length = record.symbolsStart bytes
  symbols_written : List.Forall₂ Symbol.Written record.symbols symbols
  written_with : ∀ fill' symbols', fill'.length = fill.length →
    List.Forall₂ Symbol.Written record.symbols symbols' →
    Written record.offset record childCount (head ++ (fill' ++ (tables ++ symbols'.flatten)))

variable {bytes : ByteArray} {record : Irep} {offset childCount : Nat} {segment : List UInt8}

theorem Written.parts (written : Written offset record childCount segment)
    (stands : Stands bytes offset segment) :
    ∃ head fill tables symbols, segment = head ++ (fill ++ (tables ++ symbols.flatten)) ∧
      Parts bytes record childCount head fill tables symbols := by
  obtain ⟨rfl, childLt, opcodesLt, poolLt, symbolsLt, fill, literals, symbols, filled, entries,
    named, rfl⟩ := written
  let head := wordBytes 4 record.recordSize.toNat ++ wordBytes 2 record.localCount.toNat ++
    wordBytes 2 record.registerCount.toNat ++ wordBytes 2 childCount ++
    wordBytes 4 record.opcodes.length
  let opcodes := record.opcodes.flatMap fun opcode => wordBytes 4 opcode.toNat
  let tables := opcodes ++ wordBytes 4 record.pool.length ++ literals.flatten ++
    wordBytes 4 record.symbols.length
  have opcodes_length : opcodes.length = 4 * record.opcodes.length := by
    simp [opcodes, List.length_flatMap, Nat.mul_comm]
  have fill_length : fill.length = Reader.padding 4 (Nat.succ_pos 3) record.headEnd := by
    rw [← Int.natCast_inj, filled, Reader.padding_eq]
    rfl
  refine ⟨head, fill, tables, symbols, by simp only [head, tables, opcodes, List.append_assoc],
    ?_⟩
  refine ⟨rfl, fill_length, ?_, named, ?_⟩
  · have whole : Stands bytes record.offset (head ++ (fill ++ (opcodes ++
        (wordBytes 4 record.pool.length ++ (literals.flatten ++
          (wordBytes 4 record.symbols.length ++ symbols.flatten)))))) := by
      simpa only [head, opcodes, List.append_assoc] using stands
    simp only [Stands.append_iff, fill_length, opcodes_length, length_wordBytes] at whole
    obtain ⟨-, -, -, -, literalsStand, -⟩ := whole
    have ends := entriesEnd_eq (fun _ _ _ => Literal.length_of_written) entries literalsStand
    -- The head has 14 bytes, so the fill ends at `opcodesStart` by definition.
    change entriesEnd _ _ (record.opcodesStart + 4 * record.opcodes.length + 4) =
      record.opcodesStart + 4 * record.opcodes.length + 4 + literals.flatten.length at ends
    rw [symbolsStart, poolStart, ends]
    simp only [tables, List.length_append, opcodes_length, length_wordBytes]
    omega
  · intro fill' symbols' same each
    refine ⟨rfl, childLt, opcodesLt, poolLt, symbolsLt, fill', literals, symbols', ?_, entries,
      each, by simp only [head, tables, opcodes, List.append_assoc]⟩
    rw [same, filled]

theorem Parts.stop_eq {head fill tables : List UInt8} {symbols : List (List UInt8)}
    (parts : Parts bytes record childCount head fill tables symbols)
    (stands : Stands bytes record.offset (head ++ (fill ++ (tables ++ symbols.flatten)))) :
    record.stop bytes = record.offset + (head ++ (fill ++ (tables ++ symbols.flatten))).length := by
  simp only [Stands.append_iff] at stands
  obtain ⟨-, -, -, names⟩ := stands
  have place : record.offset + head.length + fill.length + tables.length =
      record.symbolsStart bytes := by
    rw [parts.head_length, parts.fill_length]
    exact parts.tables_end
  rw [place] at names
  have ends := entriesEnd_eq (fun _ _ _ => Symbol.length_of_written) parts.symbols_written names
  rw [stop, ends, ← place]
  simp only [List.length_append]
  omega

theorem Written.stop_eq (written : Written offset record childCount segment)
    (stands : Stands bytes offset segment) : record.stop bytes = offset + segment.length := by
  obtain ⟨head, fill, tables, symbols, rfl, parts⟩ := written.parts stands
  obtain rfl := written.offset_eq
  exact parts.stop_eq stands

end Irep

/-! The end of a tree is that of its last record. -/

theorem Layout.each_congr_standing {α : Type} {buffer : ByteArray} {layout other : Layout α}
    {values : List α}
    (same : ∀ a ∈ values, ∀ start segment, Stands buffer start segment →
      (layout start a segment ↔ other start a segment))
    {start : Nat} {bytes : List UInt8} (stands : Stands buffer start bytes) :
    each layout start values bytes ↔ each other start values bytes := by
  induction values generalizing start bytes with
  | nil => exact Iff.rfl
  | cons a values ih =>
    refine exists_congr fun head => exists_congr fun rest => and_congr_right fun whole => ?_
    subst whole
    obtain ⟨here, behind⟩ := Stands.append_iff.mp stands
    exact and_congr (same a List.mem_cons_self _ _ here)
      (ih (fun b member => same b (List.mem_cons_of_mem a member)) behind)

namespace Tree

variable {α : Type} {own other : Nat → α → Nat → List UInt8 → Prop}

/-- In a buffer it is enough that the own bytes of nodes are judged alike where they stand. -/
theorem laid_congr_standing {buffer : ByteArray}
    (same : ∀ start a count segment, Stands buffer start segment →
      (own start a count segment ↔ other start a count segment))
    {t : Tree α} {start : Nat} {bytes : List UInt8} (stands : Stands buffer start bytes) :
    Laid own start t bytes ↔ Laid other start t bytes := by
  induction t generalizing start bytes with
  | node a ts ih =>
    rw [laid_node, laid_node]
    refine exists_congr fun head => exists_congr fun rest => and_congr_right fun whole => ?_
    subst whole
    obtain ⟨here, behind⟩ := Stands.append_iff.mp stands
    exact and_congr (same _ _ _ _ here)
      (Layout.each_congr_standing (fun t member _ _ => ih t member) behind)

variable {stop : α → Nat}

theorem stop_lastOf {ts : List (Tree α)}
    (each_ends : ∀ t ∈ ts, ∀ start bytes, Laid own start t bytes →
      stop t.last = start + bytes.length)
    {a : α} {start : Nat} {bytes : List UInt8} (before : stop a = start)
    (laid : Layout.each (Laid own) start ts bytes) :
    stop (lastOf a ts) = start + bytes.length := by
  induction ts generalizing a start bytes with
  | nil =>
    obtain rfl : bytes = [] := laid
    exact before
  | cons t ts ih =>
    obtain ⟨head, rest, rfl, first, others⟩ := laid
    rw [lastOf, List.length_append, ← Nat.add_assoc]
    exact ih (fun u member => each_ends u (List.mem_cons_of_mem t member))
      (each_ends t List.mem_cons_self _ _ first) others

/-- A tree ends where its last node does. -/
theorem stop_last
    (ends : ∀ start a count segment, own start a count segment → stop a = start + segment.length)
    {t : Tree α} {start : Nat} {bytes : List UInt8} (laid : Laid own start t bytes) :
    stop t.last = start + bytes.length := by
  induction t generalizing start bytes with
  | node a ts ih =>
    obtain ⟨head, rest, rfl, first, others⟩ := laid_node.mp laid
    rw [last, List.length_append, ← Nat.add_assoc]
    exact stop_lastOf (fun t member _ _ => ih t member) (ends _ _ _ _ first) others

end Tree

variable {bytes : ByteArray} {start stop : Nat} {rules : Strictness}

theorem Irep.stop_last {root : Tree Irep} {segment : List UInt8}
    (laid : Tree.Laid (WrittenUnder rules) start root segment)
    (stands : Stands bytes start segment) :
    root.last.stop bytes = start + segment.length := by
  have standing : Tree.Laid (fun start record count segment =>
      WrittenUnder rules start record count segment ∧ Stands bytes start segment)
      start root segment := by
    refine (Tree.laid_congr_standing ?_ stands).mp laid
    exact fun start record count segment here => (and_iff_left here).symm
  exact Tree.stop_last (fun _ _ _ _ own => own.1.1.stop_eq own.2) standing

theorem DebugRecord.stop_last {root : Tree DebugRecord} {segment : List UInt8}
    (laid : Tree.Laid (fun start record _ => Written start record) start root segment) :
    root.last.stop = start + segment.length := by
  refine Tree.stop_last (fun start record _ segment written => ?_) laid
  rw [DebugRecord.stop, written.offset_eq, written.bytes_eq]

theorem IrepSection.Written.contentEnd_eq {s : IrepSection} {segment : List UInt8}
    (written : Written rules start s segment) (stands : Stands bytes start segment) :
    s.contentEnd bytes = start + segment.length := by
  obtain ⟨tag, root, rfl, laid⟩ := written.bytes_eq
  have behind := (Stands.append_iff.mp stands).2
  rw [contentEnd, Irep.stop_last laid behind]
  simp only [List.length_append, Tag.length_bytes, length_wordBytes]
  omega

theorem DebugSection.Written.contentEnd_eq {α : Type} {irep : Nat} {shape : Tree α}
    {s : DebugSection} {segment : List UInt8} (written : Written rules irep shape start s segment) :
    s.contentEnd = start + segment.length := by
  obtain ⟨tag, names, root, rfl, -, laid⟩ := written.bytes_eq
  rw [contentEnd, DebugRecord.stop_last laid]
  simp only [List.length_append, Tag.length_bytes, length_wordBytes]
  omega

namespace Section

/-! A known section contains the bytes that write it, and covers them. -/

variable {before : List Section}

theorem contains_irep_iff {s : IrepSection} (inside : s.offset ≤ bytes.size) :
    Contains rules bytes before (.irep s) ↔
      ∃ segment, Stands bytes s.offset segment ∧
        IrepSection.Written rules s.offset { s with debug := none } segment ∧
        segment.length ≤ s.size.toNat := by
  have reads_iff := IrepSection.accepts_read rules bytes s.offset { s with debug := none }
  constructor
  · intro contains
    obtain ⟨stop, read, covers⟩ := contains
    obtain ⟨segment, stands, written, rfl⟩ := (reads_iff stop inside).mp read
    exact ⟨segment, stands, written, Nat.le_of_add_le_add_left covers⟩
  · intro h
    obtain ⟨segment, stands, written, covers⟩ := h
    exact ⟨_, (reads_iff _ inside).mpr ⟨segment, stands, written, rfl⟩,
      Nat.add_le_add_left covers _⟩

theorem contains_debug_iff {s : DebugSection} (inside : s.offset ≤ bytes.size) :
    Contains rules bytes before (.debug s) ↔
      ∃ t segment, NearestIrep before s.irep t ∧ Stands bytes s.offset segment ∧
        DebugSection.Written rules s.irep t.root s.offset s segment ∧
        segment.length ≤ s.size.toNat := by
  have reads_iff (t : IrepSection) :=
    DebugSection.accepts_readFor rules s.irep t.root bytes s.offset s
  constructor
  · intro contains
    obtain ⟨t, stop, nearest, read, covers⟩ := contains
    obtain ⟨segment, stands, written, rfl⟩ := (reads_iff t stop inside).mp read
    exact ⟨t, segment, nearest, stands, written, Nat.le_of_add_le_add_left covers⟩
  · intro h
    obtain ⟨t, segment, nearest, stands, written, covers⟩ := h
    exact ⟨t, _, nearest, (reads_iff t _ inside).mpr ⟨segment, stands, written, rfl⟩,
      Nat.add_le_add_left covers _⟩

end Section

end RiteImage
