import RiteImage.Image.Section
import RiteImage.Proofs.DebugLayout

namespace RiteImage

open Reader

structure IrepSection.Written (rules : Strictness) (start : Nat) (s : IrepSection)
    (bytes : List UInt8) : Prop where
  offset_eq : s.offset = start
  debug_eq : s.debug = none
  height_le : s.root.height ≤ rules.depthLimit
  exactly : rules.enforceSizes = true → bytes.length = s.size.toNat
  bytes_eq : ∃ (tag : Tag) (root : List UInt8),
    bytes = tag.bytes ++ wordBytes 4 s.size.toNat ++ s.stamp.bytes ++ root ∧
    Tree.Laid (Irep.WrittenUnder rules) (start + 12) s.root root

def DebugSection.NameWritten (filename : String) (bytes : List UInt8) : Prop :=
  ∃ name : ByteArray, name.size < 2 ^ 16 ∧ filename = Utf8.decode name ∧
    bytes = wordBytes 2 name.size ++ name.data.toList

structure DebugSection.Written {α : Type} (rules : Strictness) (irep : Nat) (shape : Tree α)
    (start : Nat) (s : DebugSection) (bytes : List UInt8) : Prop where
  offset_eq : s.offset = start
  irep_eq : s.irep = irep
  filenames_lt : s.filenames.length < 2 ^ 16
  sameShape : shape.SameShape s.root
  every : s.root.Every fun record => DebugRecord.Named s.filenames record ∧
    (rules.enforceSizes = true → record.Exact)
  exactly : rules.enforceSizes = true → bytes.length = s.size.toNat
  bytes_eq : ∃ (tag : Tag) (names : List (List UInt8)) (root : List UInt8),
    bytes = tag.bytes ++ wordBytes 4 s.size.toNat ++ wordBytes 2 s.filenames.length ++
      names.flatten ++ root ∧
    List.Forall₂ NameWritten s.filenames names ∧
    Tree.Laid (fun start record _ => DebugRecord.Written start record)
      (start + 10 + names.flatten.length) s.root root

theorem IrepSection.accepts_read (rules : Strictness) :
    Accepts (IrepSection.read rules) (Written rules) := by
  refine Accepts.congr (accepts_bind_position fun offset => accepts_bind_written accepts_tag
    fun _ => accepts_bind_written accepts_u32 fun size => accepts_bind_written accepts_tag
    fun stamp => accepts_bind_end (Irep.accepts_readTree rules _) fun root =>
    accepts_finish rules .irepSection offset size (accepts_pure _)) ?_
  intro start s bytes
  simp only [Tag.length_bytes, length_wordBytes]
  constructor
  · intro h
    obtain ⟨tag, _, rfl, size, _, rfl, stamp, root, rfl, tree, ⟨laid, low⟩, exactly, rfl⟩ := h
    refine ⟨rfl, rfl, Nat.lt_succ_iff.mp low, fun enforced => ?_, tag, root, ?_, laid⟩
    · refine Eq.trans ?_ (exactly enforced)
      simp only [List.length_append, Tag.length_bytes, length_wordBytes]
      omega
    · simp only [List.append_assoc]
  · intro h
    obtain ⟨placed, unlinked, low, exactly, tag, root, rfl, laid⟩ := h
    obtain ⟨offset, size, stamp, tree, debug⟩ := s
    obtain rfl : offset = start := placed
    obtain rfl : debug = none := unlinked
    simp only [List.append_assoc]
    refine ⟨tag, _, rfl, size, _, rfl, stamp, root, rfl, tree, ⟨laid, Nat.lt_succ_iff.mpr low⟩,
      fun enforced => ?_, rfl⟩
    refine Eq.trans ?_ (exactly enforced)
    simp only [List.length_append, Tag.length_bytes, length_wordBytes]
    omega

namespace DebugSection

theorem accepts_readName : Accepts readName fun _ => NameWritten := by
  refine Accepts.congr (accepts_bind_written accepts_u16 fun length =>
    accepts_bind_end (accepts_take _) fun name => accepts_pure _) ?_
  intro start filename bytes
  constructor
  · intro h
    obtain ⟨length, _, rfl, name, ⟨size, rfl⟩, rfl⟩ := h
    have short : name.size < 2 ^ 16 := size ▸ length.toNat_lt
    exact ⟨name, short, rfl, by rw [size]⟩
  · intro h
    obtain ⟨name, short, rfl, rfl⟩ := h
    have length : (UInt16.ofNat name.size).toNat = name.size := UInt16.toNat_ofNat_of_lt' short
    exact ⟨UInt16.ofNat name.size, _, by rw [length], name, ⟨length.symm, rfl⟩, rfl⟩

theorem accepts_readNames : Accepts readNames fun _ filenames bytes =>
    filenames.length < 2 ^ 16 ∧ ∃ names, List.Forall₂ NameWritten filenames names ∧
      bytes = wordBytes 2 filenames.length ++ names.flatten := by
  refine (accepts_counted accepts_u16 UInt16.toNat_lt
    (fun _ small => UInt16.toNat_ofNat_of_lt' small) accepts_readName).congr ?_
  intro start filenames bytes
  simp only [Layout.each_iff_forall₂]
  constructor
  · intro h
    obtain ⟨short, _, rfl, names, each, rfl⟩ := h
    exact ⟨short, names, each, rfl⟩
  · intro h
    obtain ⟨short, names, each, rfl⟩ := h
    exact ⟨short, _, rfl, names, each, rfl⟩

theorem accepts_readFor {α : Type} (rules : Strictness) (irep : Nat) (shape : Tree α) :
    Accepts (readFor rules irep shape) (Written rules irep shape) := by
  refine Accepts.congr (accepts_bind_position fun offset => accepts_bind_written accepts_tag
    fun _ => accepts_bind_written accepts_u32 fun size => accepts_bind accepts_readNames
    fun filenames => accepts_bind_end (DebugRecord.accepts_readTree rules filenames shape)
    fun root => accepts_finish rules .debugSection offset size (accepts_pure _)) ?_
  intro start s bytes
  simp only [Tag.length_bytes, length_wordBytes]
  constructor
  · intro h
    obtain ⟨tag, _, rfl, size, _, rfl, filenames, _, root, rfl, ⟨short, names, named, rfl⟩, tree,
      ⟨same, laid, every⟩, exactly, rfl⟩ := h
    refine ⟨rfl, rfl, short, same, every, fun enforced => ?_, tag, names, root, ?_, named, ?_⟩
    · refine Eq.trans ?_ (exactly enforced)
      simp only [List.length_append, Tag.length_bytes, length_wordBytes]
      omega
    · simp only [List.append_assoc]
    · rwa [List.length_append, length_wordBytes, ← Nat.add_assoc] at laid
  · intro h
    obtain ⟨placed, linked, short, same, every, exactly, tag, names, root, rfl, named, laid⟩ := h
    obtain ⟨offset, size, filenames, tree, link⟩ := s
    obtain rfl : offset = start := placed
    obtain rfl : link = irep := linked
    simp only [List.append_assoc]
    refine ⟨tag, _, rfl, size, _, rfl, filenames, _, root, (List.append_assoc _ _ _).symm,
      ⟨short, names, named, rfl⟩, tree, ⟨same, ?_, every⟩, fun enforced => ?_, rfl⟩
    · rwa [List.length_append, length_wordBytes, ← Nat.add_assoc]
    · refine Eq.trans ?_ (exactly enforced)
      simp only [List.length_append, Tag.length_bytes, length_wordBytes]
      omega

end DebugSection

theorem IrepSection.Written.head {rules : Strictness} {start : Nat} {s : IrepSection}
    {bytes : List UInt8} (written : Written rules start s bytes) :
    ∃ (tag : Tag) (rest : List UInt8), bytes = tag.bytes ++ (wordBytes 4 s.size.toNat ++ rest) := by
  obtain ⟨tag, root, rfl, -⟩ := written.bytes_eq
  exact ⟨tag, s.stamp.bytes ++ root, by simp only [List.append_assoc]⟩

theorem DebugSection.Written.head {α : Type} {rules : Strictness} {irep : Nat} {shape : Tree α}
    {start : Nat} {s : DebugSection} {bytes : List UInt8}
    (written : Written rules irep shape start s bytes) :
    ∃ (tag : Tag) (rest : List UInt8), bytes = tag.bytes ++ (wordBytes 4 s.size.toNat ++ rest) := by
  obtain ⟨tag, names, root, rfl, -⟩ := written.bytes_eq
  exact ⟨tag, wordBytes 2 s.filenames.length ++ names.flatten ++ root,
    by simp only [List.append_assoc]⟩

namespace Section

variable {rules : Strictness} {bytes : ByteArray} {known : Array Section} {start stop : Nat}

/-- A section as it is before any line tables are linked with it. -/
def unlinked : Section → Section
  | .irep s => .irep { s with debug := none }
  | s => s

/-- The tag and the size of a section stand at a position, and the size covers both. -/
def Placed (bytes : ByteArray) (start : Nat) (s : Section) : Prop :=
  s.offset = start ∧ headerSize ≤ s.size.toNat ∧
    Stands bytes start (s.tag.bytes ++ wordBytes 4 s.size.toNat)

def LastWhere {α : Type} (holds : α → Prop) (values : List α) (i : Nat) : Prop :=
  (∃ a, values[i]? = some a ∧ holds a) ∧ ∀ k a, i < k → values[k]? = some a → ¬ holds a

def NearestIrep (before : List Section) (i : Nat) (t : IrepSection) : Prop :=
  before[i]? = some (.irep t) ∧ LastWhere (fun s => s.kind = .irep) before i

/-- Known sections hold what is read where they stand, which ends no later than they do. Line
tables are read along the last tree before them. A skipped section has a tag without a meaning. -/
def Contains (rules : Strictness) (bytes : ByteArray) (before : List Section) : Section → Prop
  | .irep s => ∃ stop, Reads (IrepSection.read rules) bytes s.offset { s with debug := none } stop ∧
      stop ≤ s.offset + s.size.toNat
  | .debug s => ∃ t stop, NearestIrep before s.irep t ∧
      Reads (DebugSection.read rules (some (s.irep, t.root))) bytes s.offset s stop ∧
      stop ≤ s.offset + s.size.toNat
  | .skipped s => s.tag ≠ Tag.endMarker ∧ s.tag ≠ Tag.irep ∧ s.tag ≠ Tag.debug

theorem lastWhere_iff {α : Type} {holds : α → Prop} {values : List α} {i : Nat} :
    LastWhere holds values i ↔ (∃ a, values[i]? = some a ∧ holds a) ∧
      ∀ k, i < k → ¬ ∃ a, values[k]? = some a ∧ holds a := by
  simp only [LastWhere, not_exists, not_and]
  constructor
  · exact fun ⟨found, last⟩ => ⟨found, fun k above a there => last k a above there⟩
  · exact fun ⟨found, last⟩ => ⟨found, fun k a above there => last k above a there⟩

theorem lastWhere_congr {α β : Type} {p : α → Prop} {q : β → Prop} {xs : List α} {ys : List β}
    (same : ∀ k : Nat, (∃ a, xs[k]? = some a ∧ p a) ↔ ∃ b, ys[k]? = some b ∧ q b) {i : Nat} :
    LastWhere p xs i ↔ LastWhere q ys i := by
  simp only [lastWhere_iff, same]

theorem concat_eq_some_iff {α : Type} {values : List α} {a b : α} {i : Nat} :
    (values ++ [a])[i]? = some b ↔ values[i]? = some b ∨ (i = values.length ∧ b = a) := by
  constructor
  · intro found
    rcases Nat.lt_trichotomy i values.length with lt | rfl | gt
    · exact .inl ((List.getElem?_append_left lt).symm.trans found)
    · rw [List.getElem?_concat_length] at found
      exact .inr ⟨rfl, (Option.some.inj found).symm⟩
    · rw [List.getElem?_eq_none (by rw [List.length_append, List.length_singleton]; omega)] at found
      cases found
  · intro h
    obtain found | ⟨rfl, rfl⟩ := h
    · obtain ⟨inside, -⟩ := List.getElem?_eq_some_iff.mp found
      exact (List.getElem?_append_left inside).trans found
    · exact List.getElem?_concat_length

theorem lastWhere_concat {α : Type} {holds : α → Prop} {values : List α} {a : α} {i : Nat} :
    LastWhere holds (values ++ [a]) i ↔
      (holds a ∧ i = values.length) ∨ (¬ holds a ∧ LastWhere holds values i) := by
  constructor
  · intro given
    obtain ⟨⟨b, found, h⟩, last⟩ := given
    rcases concat_eq_some_iff.mp found with old | ⟨rfl, rfl⟩
    · obtain ⟨inside, -⟩ := List.getElem?_eq_some_iff.mp old
      exact .inr ⟨last values.length a inside List.getElem?_concat_length, ⟨b, old, h⟩,
        fun k c above there => last k c above (concat_eq_some_iff.mpr (.inl there))⟩
    · exact .inl ⟨h, rfl⟩
  · intro given
    obtain ⟨h, rfl⟩ | ⟨other, ⟨b, found, h⟩, last⟩ := given
    · refine ⟨⟨a, List.getElem?_concat_length, h⟩, fun k c above there => ?_⟩
      rcases concat_eq_some_iff.mp there with old | ⟨rfl, -⟩
      · obtain ⟨inside, -⟩ := List.getElem?_eq_some_iff.mp old
        omega
      · omega
    · refine ⟨⟨b, concat_eq_some_iff.mpr (.inl found), h⟩, fun k c above there => ?_⟩
      rcases concat_eq_some_iff.mp there with old | ⟨-, rfl⟩
      · exact last k c above old
      · exact other

theorem nearestIrep_concat {before : List Section} {s : Section} {i : Nat} {t : IrepSection} :
    NearestIrep (before ++ [s]) i t ↔
      (s = .irep t ∧ i = before.length) ∨ (s.kind ≠ .irep ∧ NearestIrep before i t) := by
  rw [NearestIrep, lastWhere_concat, concat_eq_some_iff]
  constructor
  · intro h
    obtain ⟨old | ⟨rfl, rfl⟩, ⟨-, at_end⟩ | ⟨other, last⟩⟩ := h
    · rw [at_end, List.getElem?_eq_none (Nat.le_refl _)] at old
      cases old
    · exact .inr ⟨other, old, last⟩
    · exact .inl ⟨rfl, rfl⟩
    · exact absurd rfl other
  · intro h
    obtain ⟨rfl, rfl⟩ | ⟨other, found, last⟩ := h
    · exact ⟨.inr ⟨rfl, rfl⟩, .inl ⟨rfl, rfl⟩⟩
    · exact ⟨.inl found, .inr ⟨other, last⟩⟩

theorem nearestIrep_eq_some_iff {count i : Nat} {t : IrepSection} :
    nearestIrep known count = some (i, t) ↔ NearestIrep (known.toList.take count) i t := by
  induction count with
  | zero => simp [nearestIrep, NearestIrep]
  | succ count ih =>
    rw [nearestIrep, List.take_add_one, Array.getElem?_toList]
    rcases found : known[count]? with _ | s
    · simpa using ih
    · obtain ⟨inside, -⟩ := Array.getElem?_eq_some_iff.mp found
      have length : (known.toList.take count).length = count := by
        rw [List.length_take, Array.length_toList]
        omega
      rw [Option.toList_some, nearestIrep_concat, length, ← ih]
      cases s with
      | irep s => simp [kind, eq_comm, and_comm]
      | debug s => simp [kind]
      | skipped s => simp [kind]

theorem reads_skipRest {contentEnd : Nat} {size : UInt32} {report : Event} {u : Unit}
    (inside : contentEnd ≤ bytes.size) :
    Reads (skipRest start size report) bytes contentEnd u stop ↔
      contentEnd ≤ start + size.toNat ∧ start + size.toNat ≤ bytes.size ∧
        stop = start + size.toNat := by
  simp only [skipRest, reads_position_bind, reads_require_bind, reads_log_bind, reads_skip,
    decide_eq_true_eq]
  omega

theorem reads_known {α : Type} {content : Reader α} {layout : Layout α}
    (accepts : Accepts content layout) (inside : start ≤ bytes.size) {size : α → UInt32}
    {report : α → Event} {wrap : α → Section} {o : Option Section} :
    Reads (do
      let found ← content
      skipRest start (size found) (report found)
      pure (some (wrap found))) bytes start o stop ↔
      ∃ a contentEnd, Reads content bytes start a contentEnd ∧
        contentEnd ≤ start + (size a).toNat ∧ start + (size a).toNat ≤ bytes.size ∧
        stop = start + (size a).toNat ∧ o = some (wrap a) := by
  simp only [reads_bind, reads_pure]
  constructor
  · intro h
    obtain ⟨a, contentEnd, read, _, _, rest, rfl, rfl⟩ := h
    obtain ⟨le, le_size, rfl⟩ := (reads_skipRest (accepts.le_size inside read)).mp rest
    exact ⟨a, contentEnd, read, le, le_size, rfl, rfl⟩
  · intro h
    obtain ⟨a, contentEnd, read, le, le_size, rfl, rfl⟩ := h
    have contentInside := accepts.le_size inside read
    exact ⟨a, contentEnd, read, (), _, (reads_skipRest contentInside).mpr ⟨le, le_size, rfl⟩,
      rfl, rfl⟩

theorem reads_readEnd {o : Option Section} :
    Reads (readEnd start) bytes start o stop ↔
      o = none ∧ start + endMarkerSize ≤ bytes.size ∧ stop = start + endMarkerSize := by
  simp only [readEnd, reads_skip_bind, reads_log_bind, reads_pure, endMarkerSize]
  constructor
  · intro h
    obtain ⟨_, _, rfl, rfl⟩ := h
    exact ⟨rfl, by omega, rfl⟩
  · intro h
    obtain ⟨rfl, fits, rfl⟩ := h
    exact ⟨by omega, by omega, rfl, rfl⟩

theorem reads_readSkipped (inside : start ≤ bytes.size) {tag : Tag} {o : Option Section} :
    Reads (readSkipped tag start) bytes start o stop ↔
      ∃ size : UInt32, start + 4 ≤ bytes.size ∧ Stands bytes (start + 4) (wordBytes 4 size.toNat) ∧
        headerSize ≤ size.toNat ∧ start + size.toNat ≤ bytes.size ∧
        stop = start + size.toNat ∧ o = some (.skipped ⟨tag, start, size⟩) := by
  simp only [readSkipped, reads_lookahead_bind, reads_skip_bind, reads_require_bind, reads_log_bind,
    reads_pure, decide_eq_true_eq]
  constructor
  · intro h
    obtain ⟨size, ⟨middle, fits, word⟩, covers, whole, rfl, rfl⟩ := h
    have after : start + 4 ≤ bytes.size := by omega
    obtain ⟨_, stands, rfl, -⟩ := (accepts_u32 bytes _ size middle after).mp word
    exact ⟨size, after, stands, covers, by omega, rfl, rfl⟩
  · intro h
    obtain ⟨size, fits, stands, covers, whole, rfl, rfl⟩ := h
    have word := accepts_u32.reads_of_stands stands rfl
    exact ⟨size, ⟨_, by omega, word⟩, covers, by omega, rfl, rfl⟩

theorem reads_read (inside : start ≤ bytes.size) {o : Option Section} :
    Reads (read rules known) bytes start o stop ↔
      ∃ tag : Tag, Stands bytes start tag.bytes ∧
        Reads (readTagged rules known tag start) bytes start o stop := by
  simp only [read, reads_position_bind, reads_lookahead_bind]
  constructor
  · intro h
    obtain ⟨tag, ⟨middle, mark⟩, rest⟩ := h
    obtain ⟨_, stands, rfl, -⟩ := (accepts_tag bytes _ tag middle inside).mp mark
    exact ⟨tag, stands, rest⟩
  · intro h
    obtain ⟨tag, stands, rest⟩ := h
    exact ⟨tag, ⟨_, accepts_tag.reads_of_stands stands rfl⟩, rest⟩

theorem reads_readIrep (inside : start ≤ bytes.size) {o : Option Section} :
    Reads (readIrep rules start) bytes start o stop ↔
      ∃ s contentEnd, Reads (IrepSection.read rules) bytes start s contentEnd ∧
        contentEnd ≤ start + s.size.toNat ∧ start + s.size.toNat ≤ bytes.size ∧
        stop = start + s.size.toNat ∧ o = some (.irep s) :=
  reads_known (IrepSection.accepts_read rules) inside

theorem reads_readDebug (inside : start ≤ bytes.size) {o : Option Section} :
    Reads (readDebug rules known start) bytes start o stop ↔
      ∃ i t s contentEnd, NearestIrep known.toList i t ∧
        Reads (DebugSection.readFor rules i t.root) bytes start s contentEnd ∧
        contentEnd ≤ start + s.size.toNat ∧ start + s.size.toNat ≤ bytes.size ∧
        stop = start + s.size.toNat ∧ o = some (.debug s) := by
  have nearest (i : Nat) (t : IrepSection) :
      nearestIrep known known.size = some (i, t) ↔ NearestIrep known.toList i t := by
    rw [nearestIrep_eq_some_iff, List.take_of_length_le (Nat.le_of_eq Array.length_toList)]
  simp only [← nearest]
  rw [readDebug]
  split
  · rename_i i t found
    rw [readLinesOf, reads_known (DebugSection.accepts_readFor rules i t.root) inside]
    constructor
    · intro h
      obtain ⟨s, contentEnd, read⟩ := h
      exact ⟨i, t, s, contentEnd, found, read⟩
    · intro h
      obtain ⟨i', t', s, contentEnd, found', read⟩ := h
      cases found.symm.trans found'
      exact ⟨s, contentEnd, read⟩
  · rename_i missing
    simp [missing, DebugSection.refuse, DebugSection.refuseBy, reads_bind]

theorem stands_head {tag other : Tag} {size : Nat} {rest : List UInt8}
    (mark : Stands bytes start tag.bytes)
    (whole : Stands bytes start (other.bytes ++ (wordBytes 4 size ++ rest))) :
    Stands bytes start (tag.bytes ++ wordBytes 4 size) :=
  Stands.append_iff.mpr ⟨mark, (Stands.append_iff.mp (Stands.append_iff.mp whole).2).1⟩

theorem placed_of_content {s : Section} {other : Tag} {rest : List UInt8}
    (offset : s.offset = start) (mark : Stands bytes start s.tag.bytes)
    (whole : Stands bytes start (other.bytes ++ (wordBytes 4 s.size.toNat ++ rest)))
    (covers : start + (other.bytes ++ (wordBytes 4 s.size.toNat ++ rest)).length ≤
      start + s.size.toNat) : Placed bytes start s := by
  refine ⟨offset, ?_, stands_head mark whole⟩
  simp only [List.length_append, Tag.length_bytes, length_wordBytes] at covers
  rw [headerSize]
  omega

/-- A section that is not linked yet stands at `start` after the known ones and ends at `stop`. -/
structure Follows (rules : Strictness) (bytes : ByteArray) (known : List Section) (start : Nat)
    (next : Section) (stop : Nat) : Prop where
  unlinked_eq : next.unlinked = next
  placed : Placed bytes start next
  contains : Contains rules bytes known next
  stop_eq : stop = start + next.size.toNat
  stop_le : stop ≤ bytes.size

theorem follows_of_readIrep (inside : start ≤ bytes.size) {next : Section}
    (mark : Stands bytes start Tag.irep.bytes)
    (run : Reads (readIrep rules start) bytes start (some next) stop) :
    Follows rules bytes known.toList start next stop := by
  obtain ⟨s, contentEnd, read, covers, fits, rfl, same⟩ := (reads_readIrep inside).mp run
  cases same
  obtain ⟨segment, stands, written, rfl⟩ :=
    (IrepSection.accepts_read rules bytes start s contentEnd inside).mp read
  obtain ⟨offset, size, stamp, root, debug⟩ := s
  obtain rfl : debug = none := written.debug_eq
  obtain rfl : offset = start := written.offset_eq
  obtain ⟨other, rest, rfl⟩ := written.head
  exact ⟨rfl, placed_of_content rfl mark stands covers, ⟨_, read, covers⟩, rfl, fits⟩

theorem follows_of_readDebug (inside : start ≤ bytes.size) {next : Section}
    (mark : Stands bytes start Tag.debug.bytes)
    (run : Reads (readDebug rules known start) bytes start (some next) stop) :
    Follows rules bytes known.toList start next stop := by
  obtain ⟨i, t, s, contentEnd, nearest, read, covers, fits, rfl, same⟩ :=
    (reads_readDebug inside).mp run
  cases same
  obtain ⟨segment, stands, written, rfl⟩ :=
    (DebugSection.accepts_readFor rules i t.root bytes start s contentEnd inside).mp read
  obtain rfl : s.irep = i := written.irep_eq
  obtain rfl : s.offset = start := written.offset_eq
  obtain ⟨other, rest, rfl⟩ := written.head
  exact ⟨rfl, placed_of_content rfl mark stands covers, ⟨t, _, nearest, read, covers⟩, rfl, fits⟩

theorem reads_tagged_of_follows (inside : start ≤ bytes.size) {next : Section}
    (follows : Follows rules bytes known.toList start next stop) :
    Reads (readTagged rules known next.tag start) bytes start (some next) stop := by
  obtain ⟨fresh, ⟨rfl, covers, head⟩, contains, rfl, fits⟩ := follows
  cases next with
  | irep s =>
    obtain ⟨contentEnd, read, ends⟩ := contains
    have same : { s with debug := none } = s := Section.irep.inj fresh
    rw [same] at read
    exact (reads_readIrep inside).mpr ⟨s, contentEnd, read, ends, fits, rfl, rfl⟩
  | debug s =>
    obtain ⟨t, contentEnd, nearest, read, ends⟩ := contains
    exact (reads_readDebug inside).mpr
      ⟨s.irep, t, s, contentEnd, nearest, read, ends, fits, rfl, rfl⟩
  | skipped s =>
    obtain ⟨not_end, not_irep, not_debug⟩ := contains
    change Reads (readTagged rules known s.tag s.offset) bytes s.offset _ _
    rw [readTagged, if_neg not_end, if_neg not_irep, if_neg not_debug]
    obtain ⟨mark, word⟩ := Stands.append_iff.mp head
    exact (reads_readSkipped inside).mpr
      ⟨s.size, mark.le_size, word, covers, fits, rfl, rfl⟩

theorem reads_some_iff (inside : start ≤ bytes.size) {next : Section} :
    Reads (read rules known) bytes start (some next) stop ↔
      Follows rules bytes known.toList start next stop := by
  rw [reads_read inside]
  constructor
  · intro h
    obtain ⟨tag, mark, run⟩ := h
    by_cases is_end : tag = Tag.endMarker
    · subst is_end
      cases (reads_readEnd.mp run).1
    by_cases is_irep : tag = Tag.irep
    · subst is_irep
      exact follows_of_readIrep inside mark run
    by_cases is_debug : tag = Tag.debug
    · subst is_debug
      exact follows_of_readDebug inside mark run
    · rw [readTagged, if_neg is_end, if_neg is_irep, if_neg is_debug] at run
      obtain ⟨size, -, word, covers, fits, rfl, same⟩ := (reads_readSkipped inside).mp run
      cases same
      exact ⟨rfl, ⟨rfl, covers, Stands.append_iff.mpr ⟨mark, word⟩⟩,
        ⟨is_end, is_irep, is_debug⟩, rfl, fits⟩
  · intro follows
    exact ⟨next.tag, (Stands.append_iff.mp follows.placed.2.2).1,
      reads_tagged_of_follows inside follows⟩

theorem reads_none_iff (inside : start ≤ bytes.size) :
    Reads (read rules known) bytes start none stop ↔
      Stands bytes start Tag.endMarker.bytes ∧ stop = start + endMarkerSize ∧
        stop ≤ bytes.size := by
  rw [reads_read inside]
  constructor
  · intro h
    obtain ⟨tag, mark, run⟩ := h
    by_cases is_end : tag = Tag.endMarker
    · subst is_end
      obtain ⟨-, fits, rfl⟩ := reads_readEnd.mp run
      exact ⟨mark, rfl, fits⟩
    by_cases is_irep : tag = Tag.irep
    · subst is_irep
      obtain ⟨_, _, _, _, _, _, impossible⟩ := (reads_readIrep inside).mp run
      cases impossible
    by_cases is_debug : tag = Tag.debug
    · subst is_debug
      obtain ⟨_, _, _, _, _, _, _, _, _, impossible⟩ := (reads_readDebug inside).mp run
      cases impossible
    · rw [readTagged, if_neg is_end, if_neg is_irep, if_neg is_debug] at run
      obtain ⟨_, _, _, _, _, _, impossible⟩ := (reads_readSkipped inside).mp run
      cases impossible
  · intro h
    obtain ⟨mark, rfl, fits⟩ := h
    exact ⟨Tag.endMarker, mark, reads_readEnd.mpr ⟨rfl, fits, rfl⟩⟩

end Section

end RiteImage
