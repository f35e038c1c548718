import RiteImage.Code.Irep
import RiteImage.Proofs.TreeLayout

namespace RiteImage

open Reader

def Literal.Means (tag : UInt8) (payload : ByteArray) (literal : Literal) : Prop :=
  ∀ offset, ofPayload tag offset payload = .ok literal

def Literal.Written (literal : Literal) (bytes : List UInt8) : Prop :=
  ∃ tag payload, payload.size < 2 ^ 16 ∧ Means tag payload literal ∧
    bytes = [tag] ++ wordBytes 2 payload.size ++ payload.data.toList

/-- A name has its length before it and any byte after it. No name is a length alone. -/
def Symbol.Written (symbol : String) (bytes : List UInt8) : Prop :=
  (symbol = "" ∧ bytes = wordBytes 2 0xFFFF) ∨
  ∃ name terminator, name.size < 0xFFFF ∧ symbol = Utf8.decode name ∧
    bytes = wordBytes 2 name.size ++ name.data.toList ++ [terminator]

/-- The bytes of a record at `offset` with `childCount` children, which are not among them. -/
structure Irep.Written (offset : Nat) (record : Irep) (childCount : Nat) (bytes : List UInt8) :
    Prop where
  offset_eq : record.offset = offset
  childCount_lt : childCount < 2 ^ 16
  opcodes_lt : record.opcodes.length < 2 ^ 32
  pool_lt : record.pool.length < 2 ^ 32
  symbols_lt : record.symbols.length < 2 ^ 32
  bytes_eq : ∃ (fill : List UInt8) (literals symbols : List (List UInt8)),
    (fill.length : Int) = -(offset + 14 : Int) % 4 ∧
    List.Forall₂ Literal.Written record.pool literals ∧
    List.Forall₂ Symbol.Written record.symbols symbols ∧
    bytes =
      wordBytes 4 record.recordSize.toNat ++ wordBytes 2 record.localCount.toNat ++
      wordBytes 2 record.registerCount.toNat ++ wordBytes 2 childCount ++
      wordBytes 4 record.opcodes.length ++ fill ++
      record.opcodes.flatMap (fun opcode => wordBytes 4 opcode.toNat) ++
      wordBytes 4 record.pool.length ++ literals.flatten ++
      wordBytes 4 record.symbols.length ++ symbols.flatten

theorem Literal.parseInteger_of_ok {offset : Nat} {text : String} {literal : Literal}
    (h : parseInteger offset text = .ok literal) (other : Nat) :
    parseInteger other text = .ok literal := by
  unfold parseInteger at h ⊢
  cases parsed : Integer.parse (Text.trim text.toList) with
  | ok value => simpa [parsed] using h
  | error fault => simp [parsed] at h

theorem Literal.parseFloat_of_ok {offset : Nat} {text : String} {literal : Literal}
    (h : parseFloat offset text = .ok literal) (other : Nat) :
    parseFloat other text = .ok literal := by
  unfold parseFloat at h ⊢
  cases parsed : Decimal.parse (Text.trim text.toList) with
  | ok value => simpa [parsed] using h
  | error fault => simp [parsed] at h

theorem Literal.parseText_of_ok {parse : Nat → String → Except Defect Literal} {offset : Nat}
    {payload : ByteArray} {literal : Literal}
    (parse_of_ok : ∀ {text}, parse offset text = .ok literal →
      ∀ other, parse other text = .ok literal)
    (h : parseText offset payload parse = .ok literal) (other : Nat) :
    parseText other payload parse = .ok literal := by
  unfold parseText at h ⊢
  cases text : String.fromUTF8? payload with
  | some found => simp only [text] at h ⊢; exact parse_of_ok h other
  | none => simp [text] at h

theorem Literal.means_iff {tag : UInt8} {offset : Nat} {payload : ByteArray} {literal : Literal} :
    ofPayload tag offset payload = .ok literal ↔ Means tag payload literal := by
  constructor
  · intro h other
    unfold ofPayload at h ⊢
    split at h
    · exact h
    · exact parseText_of_ok parseInteger_of_ok h other
    · exact parseText_of_ok parseFloat_of_ok h other
    · exact h
  · exact fun h => h offset

theorem Literal.accepts_reportUnknown (tag : UInt8) (offset : Nat) :
    Accepts (reportUnknown tag offset) fun _ _ segment => segment = [] := by
  unfold reportUnknown reportUnknownBy
  split
  · exact accepts_log _
  · exact (accepts_pure ()).congr fun _ _ _ => by simp

theorem Literal.accepts_ofExcept (value : Except Defect Literal) :
    Accepts (ofExcept value) fun _ literal segment => value = .ok literal ∧ segment = [] := by
  cases value with
  | error defect => exact (accepts_fail _).congr fun _ _ _ => by simp
  | ok found => exact (accepts_pure found).congr fun _ _ _ => by simp [eq_comm]

theorem Literal.accepts_read : Accepts Literal.read fun _ => Literal.Written := by
  refine Accepts.congr (accepts_bind_written accepts_u8 fun tag =>
    accepts_bind_written accepts_u16 fun length =>
    accepts_bind_position fun offset => accepts_bind_end (accepts_take _) fun payload =>
    accepts_bind_silent (accepts_reportUnknown tag offset) fun _ => accepts_ofExcept _) ?_
  intro start literal bytes
  simp only [Literal.means_iff]
  constructor
  · intro h
    obtain ⟨tag, _, rfl, length, _, rfl, payload, ⟨size, rfl⟩, means⟩ := h
    rw [← size]
    have short : payload.size < 2 ^ 16 := size ▸ length.toNat_lt
    exact ⟨tag, payload, short, means, (List.append_assoc _ _ _).symm⟩
  · intro h
    obtain ⟨tag, payload, short, means, rfl⟩ := h
    have length : (UInt16.ofNat payload.size).toNat = payload.size :=
      UInt16.toNat_ofNat_of_lt' short
    exact ⟨tag, _, List.append_assoc _ _ _, UInt16.ofNat payload.size, _, by rw [length], payload,
      ⟨length.symm, rfl⟩, means⟩

theorem Symbol.accepts_readName (length : UInt16) : Accepts (readName length) fun _ symbol bytes =>
    ∃ name terminator, name.size = length.toNat ∧ symbol = Utf8.decode name ∧
      bytes = name.data.toList ++ [terminator] := by
  refine Accepts.congr (accepts_bind (accepts_take length.toNat) fun name =>
    accepts_bind_end (accepts_skip 1) fun _ => accepts_pure _) ?_
  intro start symbol bytes
  constructor
  · intro h
    obtain ⟨name, _, last, rfl, ⟨size, rfl⟩, _, one, rfl⟩ := h
    obtain ⟨terminator, rfl⟩ := List.length_eq_one_iff.mp one
    exact ⟨name, terminator, size, rfl, rfl⟩
  · intro h
    obtain ⟨name, terminator, size, rfl, rfl⟩ := h
    exact ⟨name, _, [terminator], rfl, ⟨size, rfl⟩, (), rfl, rfl⟩

theorem Symbol.accepts_afterLength (length : UInt16) :
    Accepts (if length = anonymousLength then pure "" else readName length)
      fun _ symbol bytes => (length = anonymousLength ∧ symbol = "" ∧ bytes = []) ∨
        (length ≠ anonymousLength ∧ ∃ name terminator, name.size = length.toNat ∧
          symbol = Utf8.decode name ∧ bytes = name.data.toList ++ [terminator]) := by
  split
  · rename_i anonymous
    exact (accepts_pure "").congr fun _ _ _ => by simp [anonymous]
  · rename_i named
    exact (accepts_readName length).congr fun _ _ _ => by simp [named]

theorem Symbol.accepts_read : Accepts Symbol.read fun _ => Symbol.Written := by
  refine Accepts.congr (accepts_bind_written accepts_u16 accepts_afterLength) ?_
  intro start symbol bytes
  constructor
  · intro h
    obtain ⟨length, rest, rfl, ⟨rfl, rfl, rfl⟩ | ⟨named, name, terminator, size, rfl, rfl⟩⟩ := h
    · exact .inl ⟨rfl, List.append_nil _⟩
    · have small := length.toNat_lt
      have differs : length.toNat ≠ 65535 := fun same =>
        named (UInt16.toNat_inj.mp same)
      have short : name.size < 0xFFFF := by omega
      exact .inr ⟨name, terminator, short, rfl, by rw [size, List.append_assoc]⟩
  · intro h
    obtain ⟨rfl, rfl⟩ | ⟨name, terminator, short, rfl, rfl⟩ := h
    · exact ⟨anonymousLength, [], (List.append_nil _).symm, .inl ⟨rfl, rfl, rfl⟩⟩
    · have length : (UInt16.ofNat name.size).toNat = name.size :=
        UInt16.toNat_ofNat_of_lt' (Nat.lt_of_lt_of_le short (by decide))
      have named : UInt16.ofNat name.size ≠ anonymousLength := by
        intro anonymous
        rw [anonymous] at length
        change 65535 = name.size at length
        omega
      exact ⟨UInt16.ofNat name.size, _, by rw [length, List.append_assoc],
        .inr ⟨named, name, terminator, length.symm, rfl, rfl⟩⟩

theorem accepts_readTable {α : Type} {entry : Reader α} {written : α → List UInt8 → Prop}
    (h : Accepts entry fun _ => written) :
    Accepts (readTable entry) fun _ values bytes =>
      values.length < 2 ^ 32 ∧ ∃ segments, List.Forall₂ written values segments ∧
        bytes = wordBytes 4 values.length ++ segments.flatten := by
  refine Accepts.congr (accepts_counted accepts_u32 UInt32.toNat_lt
    (fun _ small => UInt32.toNat_ofNat_of_lt' small) h) ?_
  intro start values bytes
  simp only [Layout.each_iff_forall₂]
  constructor
  · intro h
    obtain ⟨short, _, rfl, segments, each, rfl⟩ := h
    exact ⟨short, segments, each, rfl⟩
  · intro h
    obtain ⟨short, segments, each, rfl⟩ := h
    exact ⟨short, _, rfl, segments, each, rfl⟩

theorem accepts_checkSize (rules : Strictness) (part : Part) (start : Nat) (declared : UInt32) :
    Accepts (checkSize rules part start declared) fun stop _ segment =>
      (rules.enforceSizes = true → stop - start = declared.toNat) ∧ segment = [] := by
  refine Accepts.congr (accepts_bind_position fun stop => accepts_require _ _) ?_
  intro stop u segment
  simp only [Bool.or_eq_true, Bool.not_eq_true', decide_eq_true_eq, ← Bool.not_eq_true,
    ← Decidable.imp_iff_not_or]

theorem accepts_finish {α : Type} (rules : Strictness) (part : Part) (start : Nat)
    (declared : UInt32) {last : Reader α} {a : α}
    (pure_last : Accepts last fun _ b segment => b = a ∧ segment = []) :
    Accepts (do checkSize rules part start declared; last) fun stop b segment =>
      ((rules.enforceSizes = true → stop - start = declared.toNat) ∧ b = a) ∧ segment = [] := by
  refine Accepts.congr (accepts_bind_end (accepts_checkSize rules part start declared)
    fun _ => pure_last) ?_
  intro stop b segment
  constructor
  · intro h
    obtain ⟨_, ⟨exactly, rfl⟩, rfl⟩ := h
    exact ⟨⟨exactly, rfl⟩, rfl⟩
  · intro h
    obtain ⟨⟨exactly, rfl⟩, rfl⟩ := h
    exact ⟨(), ⟨exactly, rfl⟩, rfl⟩

namespace Irep

def WrittenUnder (rules : Strictness) (offset : Nat) (record : Irep) (childCount : Nat)
    (bytes : List UInt8) : Prop :=
  Written offset record childCount bytes ∧
    (rules.enforceSizes = true → bytes.length = record.recordSize.toNat)

theorem accepts_read (rules : Strictness) : Accepts (read rules) fun offset found =>
    WrittenUnder rules offset found.1 found.2 := by
  refine Accepts.congr (accepts_bind_position fun offset =>
    accepts_bind_written accepts_u32 fun recordSize =>
    accepts_bind_written accepts_u16 fun localCount =>
    accepts_bind_written accepts_u16 fun registerCount =>
    accepts_bind_written accepts_u16 fun childCount =>
    accepts_bind_written accepts_u32 fun opcodeCount =>
    accepts_bind (accepts_align 4 (by decide)) fun _ =>
    accepts_bind (accepts_replicate_written accepts_u32 _) fun opcodes =>
    accepts_bind (accepts_readTable Literal.accepts_read) fun pool =>
    accepts_bind_end (accepts_readTable Symbol.accepts_read) fun symbols =>
    accepts_finish rules .irep offset recordSize
      (accepts_bind_silent (accepts_log _) fun _ => accepts_pure _)) ?_
  intro start found bytes
  simp only [length_wordBytes]
  constructor
  · intro h
    obtain ⟨recordSize, _, rfl, localCount, _, rfl, registerCount, _, rfl, childCount, _, rfl,
      opcodeCount, _, rfl, _, fill, _, rfl, filled, opcodes, _, _, rfl, ⟨count, rfl⟩, pool, _, _,
      rfl, ⟨poolLt, literals, entries, rfl⟩, symbols, ⟨symbolsLt, names, named, rfl⟩, exactly,
      rfl⟩ := h
    have opcodesLt : opcodes.length < 2 ^ 32 := count ▸ opcodeCount.toNat_lt
    refine ⟨⟨rfl, childCount.toNat_lt, opcodesLt, poolLt, symbolsLt, fill, literals, names, filled,
      entries, named, by simp [count]⟩, fun enforced => ?_⟩
    refine Eq.trans ?_ (exactly enforced)
    simp only [List.length_append, length_wordBytes]
    omega
  · intro h
    obtain ⟨⟨placed, childLt, opcodesLt, poolLt, symbolsLt, fill, literals, names, filled, entries,
      named, rfl⟩, exactly⟩ := h
    obtain ⟨⟨offset, recordSize, localCount, registerCount, opcodes, pool, symbols⟩, count⟩ := found
    obtain rfl : offset = start := placed
    -- The counts are no part of the record and come back from the lengths.
    have counted : (UInt16.ofNat count).toNat = count := UInt16.toNat_ofNat_of_lt' childLt
    have opcodeCount : (UInt32.ofNat opcodes.length).toNat = opcodes.length :=
      UInt32.toNat_ofNat_of_lt' opcodesLt
    simp only [List.append_assoc]
    refine ⟨recordSize, _, rfl, localCount, _, rfl, registerCount, _, rfl, UInt16.ofNat count, _,
      by rw [counted], UInt32.ofNat opcodes.length, _, by rw [opcodeCount], (), fill, _, rfl,
      filled, opcodes, _, _, rfl, ⟨opcodeCount.symm, rfl⟩, pool, _, _,
      (List.append_assoc _ _ _).symm, ⟨poolLt, literals, entries, rfl⟩, symbols,
      ⟨symbolsLt, names, named, rfl⟩, fun enforced => ?_, by rw [counted]⟩
    refine Eq.trans ?_ (exactly enforced)
    simp only [List.length_append, length_wordBytes]
    omega

theorem accepts_readTree (rules : Strictness) (levels : Nat) :
    Accepts (readTree rules levels) fun start tree bytes =>
      Tree.Laid (WrittenUnder rules) start tree bytes ∧ tree.height < levels := by
  induction levels with
  | zero => exact (accepts_fail _).congr fun _ _ _ => by simp
  | succ levels ih =>
    refine Accepts.congr (accepts_bind (accepts_read rules) fun found =>
      accepts_bind_end (accepts_replicate ih _) fun children => accepts_pure _) ?_
    intro start tree bytes
    cases tree with
    | node record children =>
      rw [Tree.laid_node, Tree.height, Nat.lt_succ_iff, Tree.heightAll_le_iff]
      constructor
      · intro h
        obtain ⟨⟨_, count⟩, head, rest, rfl, own, _, ⟨length, below⟩, same⟩ := h
        cases same
        obtain ⟨laid, low⟩ := Layout.each_and.mp below
        exact ⟨⟨head, rest, rfl, length ▸ own, laid⟩, low⟩
      · intro h
        obtain ⟨⟨head, rest, rfl, own, laid⟩, low⟩ := h
        have below := Layout.each_and.mpr ⟨laid, low⟩
        exact ⟨(record, children.length), head, rest, rfl, own, children, ⟨rfl, below⟩, rfl⟩

theorem writtenUnder_lenient {rules : Strictness} (lenient : rules.enforceSizes = false)
    (offset : Nat) (record : Irep) (childCount : Nat) (bytes : List UInt8) :
    WrittenUnder rules offset record childCount bytes ↔
      Written offset record childCount bytes := by
  simp [WrittenUnder, lenient]

/-- Where sizes are not enforced a tree is read exactly where its layout stands, if it is not
too high. Whatever the limit, one position begins the layout of at most one tree. -/
theorem reads_iff_laid (rules : Strictness) (lenient : rules.enforceSizes = false)
    (bytes : ByteArray) (start : Nat) (inside : start ≤ bytes.size) :
    (∀ tree next, Reads (readAtDepth rules 0) bytes start tree next ↔
      start ≤ next ∧ next ≤ bytes.size ∧ Tree.Laid Written start tree (between bytes start next) ∧
        tree.height ≤ rules.depthLimit) ∧
    ∀ tree next tree' next',
      start ≤ next → next ≤ bytes.size → Tree.Laid Written start tree (between bytes start next) →
      start ≤ next' → next' ≤ bytes.size →
      Tree.Laid Written start tree' (between bytes start next') → tree = tree' ∧ next = next' := by
  have exact (levels : Nat) (tree : Tree Irep) (next : Nat) :
      Reads (readTree rules levels) bytes start tree next ↔
        start ≤ next ∧ next ≤ bytes.size ∧
          Tree.Laid Written start tree (between bytes start next) ∧ tree.height < levels := by
    rw [(accepts_readTree rules levels).reads_iff inside,
      Tree.laid_congr (writtenUnder_lenient lenient)]
  constructor
  · intro tree next
    rw [readAtDepth, levelsBelow, Nat.sub_zero, exact, Nat.lt_succ_iff]
  · intro tree next tree' next' le le_size laid le' le_size' laid'
    -- A limit above both heights makes both of them the value that is read.
    have one := (exact (tree.height + tree'.height + 1) tree next).mpr
      ⟨le, le_size, laid, by omega⟩
    have two := (exact (tree.height + tree'.height + 1) tree' next').mpr
      ⟨le', le_size', laid', by omega⟩
    exact one.unique two

/-- A record at position 1, where one byte fills up to the opcode, and its only child. -/
def nestedBytes : ByteArray := ⟨#[
  0xEE, 0, 0, 0, 9, 0, 1, 0, 2, 0, 1, 0, 0, 0, 1, 0xFF, 0, 0, 0, 7,
  0, 0, 0, 1, 0, 0, 1, 0x68, 0, 0, 0, 1, 0xFF, 0xFF,
  0, 0, 0, 22, 0, 3, 0, 4, 0, 0, 0, 0, 0, 0, 0, 0, 0, 0, 0, 0, 0, 0]⟩

def nestedTree : Tree Irep :=
  .node ⟨1, 9, 1, 2, [7], [.string ⟨#[0x68]⟩], [""]⟩ [.node ⟨34, 22, 3, 4, [], [], []⟩ []]

theorem reads_iff_laid_nested : Strictness.lenient.enforceSizes = false ∧ 1 ≤ nestedBytes.size ∧
    Tree.Laid Written 1 nestedTree (between nestedBytes 1 56) := by
  have read : Reads (readAtDepth .lenient 0) nestedBytes 1 nestedTree 56 := ⟨rfl, rfl⟩
  have laid := (reads_iff_laid .lenient rfl nestedBytes 1 (by decide)).1 nestedTree 56
  exact ⟨rfl, by decide, (laid.mp read).2.2.1⟩

end Irep

end RiteImage
