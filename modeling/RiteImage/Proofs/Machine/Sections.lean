import RiteImage.Proofs.Extension
import RiteImage.Proofs.Machine.Records

namespace RiteImage.Machine

variable {α : Type}

mutual

def countRecords : Tree α → Option UInt64
  | .node _ ts => do
    let below ← countAll 0 ts
    Word.add 1 below

def countAll (sum : UInt64) : List (Tree α) → Option UInt64
  | [] => some sum
  | t :: ts => do
    let count ← countRecords t
    let next ← Word.add sum count
    countAll next ts

end

def knownEnd (start : UInt64) (size : UInt32) : Machine UInt64 := do
  let contentEnd ← position
  let declaredEnd := Word.saturatingAdd start size.toUInt64
  require (contentEnd ≤ declaredEnd)
    (.malformed (.sectionOverrun start.toNat size.toNat contentEnd.toNat))
  pure declaredEnd

/-- The tree at the index that was noted. No section at that index means that it goes wrong. -/
def treeAt (sections : Array Section) : Option Nat → Option (Option (Nat × IrepSection))
  | none => some none
  | some index => sections[index]?.map fun
    | .irep s => some (index, s)
    | _ => none

def readSection (rules : Strictness) (sections : Array Section) (last : Option Nat) :
    Machine (Option Section) := do
  let start ← position
  let found ← tag
  if found = Tag.endMarker then do
    skip 4
    pure none
  else if found = Tag.irep then do
    seek start
    let s ← IrepSection.readBy primitives rules (readTree rules 0)
    let stop ← knownEnd start s.size
    let _ ← attempt (countRecords s.root)
    seek stop
    pure (some (.irep s))
  else if found = Tag.debug then do
    seek start
    let tree ← attempt (treeAt sections last)
    let s ← DebugSection.readBy primitives rules (tree.map fun (index, s) => (index, s.root))
    let stop ← knownEnd start s.size
    seek stop
    pure (some (.debug s))
  else do
    let size ← u32
    require (Section.headerSize ≤ size.toNat)
      (.malformed (.sectionTooSmall found start.toNat size.toNat))
    seek start
    skip size.toUInt64
    pure (some (.skipped ⟨found, start.toNat, size⟩))

def readSections (rules : Strictness) (bytes : ByteArray) (here : UInt64)
    (sections : Array Section) (last : Option Nat) :
    Option (Except Cause (Array Section × UInt64)) :=
  match readSection rules sections last bytes here with
  | none => none
  | some (.error e) => some (.error e)
  | some (.ok (none, stop)) => some (.ok (sections, stop))
  | some (.ok (some next, there)) =>
    if _forward : here < there ∧ there.toNat ≤ bytes.size then
      readSections rules bytes there (Section.extend sections next)
        (if next.kind = .irep then some sections.size else last)
    else none
termination_by bytes.size - here.toNat
decreasing_by
  have := UInt64.lt_iff_toNat_lt.mp _forward.1
  omega

variable {low : Nat} {bytes : ByteArray} {here there target : UInt64}

mutual

theorem countRecords_of_lt : (t : Tree α) → t.size < 2 ^ 64 →
    ∃ count, countRecords t = some count ∧ count.toNat = t.size
  | .node a ts, small => by
    rw [Tree.size] at small ⊢
    have zero : (0 : UInt64).toNat = 0 := rfl
    have one : (1 : UInt64).toNat = 1 := rfl
    obtain ⟨below, counted, eq⟩ := countAll_of_lt 0 ts (by omega)
    obtain ⟨count, exact, sum⟩ := Word.add_of_lt (a := 1) (b := below) (by omega)
    refine ⟨count, ?_, by omega⟩
    rw [countRecords, counted]
    exact exact

theorem countAll_of_lt (sum : UInt64) : (ts : List (Tree α)) →
    sum.toNat + Tree.sizeAll ts < 2 ^ 64 →
    ∃ total, countAll sum ts = some total ∧ total.toNat = sum.toNat + Tree.sizeAll ts
  | [], _ => ⟨sum, rfl, rfl⟩
  | t :: ts, small => by
    rw [Tree.sizeAll] at small ⊢
    obtain ⟨count, counted, eq⟩ := countRecords_of_lt t (by omega)
    obtain ⟨next, exact, eq'⟩ := Word.add_of_lt (a := sum) (b := count) (by omega)
    obtain ⟨total, counted', eq''⟩ := countAll_of_lt next ts (by omega)
    refine ⟨total, ?_, by omega⟩
    rw [countAll, counted]
    change (Word.add sum count).bind _ = _
    rw [exact]
    exact counted'

end

theorem simulates_irepSection (low : Nat) (rules : Strictness) :
    Simulates low (IrepSection.readBy primitives rules (readTree rules 0))
      (IrepSection.read rules) := by
  refine simulates_position_bind fun offset _ => ?_
  refine (simulates_tag _).bind fun _ => ?_
  refine (simulates_u32 _).bind fun size => ?_
  refine (simulates_tag _).bind fun stamp => ?_
  have tree : Simulates 0 (readTree rules 0) (Irep.readAtDepth rules 0) :=
    simulates_readTree rules _ 0 rfl
  refine (tree.weaken (Nat.zero_le _)).bind fun root => ?_
  exact (simulates_checkSize rules .irepSection offset size).bind fun _ => simulates_pure _ _

theorem simulates_names (low : Nat) :
    Simulates low (DebugSection.readNamesBy primitives) DebugSection.readNames := by
  refine (simulates_u16 low).bind fun count => simulates_replicate ?_ _
  exact (simulates_u16 low).bind fun length =>
    (simulates_take_length low length).bind fun name => simulates_pure low _

theorem simulates_debugSection (low : Nat) (rules : Strictness) (index : Nat) (root : Tree Irep) :
    Simulates low (DebugSection.readForBy primitives rules index root)
      (DebugSection.readFor rules index root) := by
  refine simulates_position_bind fun offset _ => ?_
  refine (simulates_tag _).bind fun _ => ?_
  refine (simulates_u32 _).bind fun size => ?_
  refine (simulates_names _).bind fun filenames => ?_
  have records (_ : Irep) := simulates_record offset.toNat rules filenames
  refine ((simulates_kept _).mapM records root).bind fun lines => ?_
  exact (simulates_checkSize rules .debugSection offset size).bind fun _ => simulates_pure _ _

theorem seek_of_le (small : bytes.size < 2 ^ 63) (inside : target.toNat ≤ bytes.size) :
    seek target bytes here = some (.ok ((), target)) := by
  have reached : ¬ Word.size bytes < target := by
    rw [UInt64.lt_iff_toNat_lt, Word.toNat_size small]
    omega
  rw [seek, buffer_bind, position_bind, if_neg reached]
  rfl

theorem seek_of_lt (small : bytes.size < 2 ^ 63) (beyond : bytes.size < target.toNat) :
    seek target bytes here = some (.error (.truncated here.toNat (target.toNat - here.toNat)
      (Reader.remaining bytes here.toNat))) := by
  have missing : Word.size bytes < target := by
    rw [UInt64.lt_iff_toNat_lt, Word.toNat_size small]
    exact beyond
  rw [seek, buffer_bind, position_bind, if_pos missing, ← toNat_remaining small,
    ← Word.toNat_saturatingSub]
  rfl

theorem seek_bind {β : Type} {next : Unit → Machine β} (small : bytes.size < 2 ^ 63)
    (inside : target.toNat ≤ bytes.size) :
    (seek target >>= next) bytes here = next () bytes target :=
  bind_of_ok (seek_of_le small inside)

theorem mirrors_seek (stop : UInt64) (small : bytes.size < 2 ^ 63) (le : here.toNat ≤ stop.toNat)
    (inside : here.toNat ≤ bytes.size) :
    Mirrors bytes here (seek stop bytes here)
      (Reader.skip (stop.toNat - here.toNat) bytes here.toNat) := by
  by_cases fits : stop.toNat ≤ bytes.size
  · have enough : stop.toNat - here.toNat ≤ Reader.remaining bytes here.toNat :=
      Nat.sub_le_sub_right fits _
    refine .ok () stop [] (seek_of_le small fits) ?_ le fits
    simp only [Reader.skip, enough, if_true, Nat.add_sub_cancel' le]
  · have missing : ¬ stop.toNat - here.toNat ≤ Reader.remaining bytes here.toNat :=
      Reader.not_le_remaining inside (by omega)
    refine .error _ here.toNat [] (seek_of_lt small (Nat.not_le.mp fits)) ?_
    simp only [Reader.skip, missing, if_false]
    rfl

theorem mirrors_leave (start : UInt64) (size : UInt32) (report : Event) (s : Section)
    (small : bytes.size < 2 ^ 63) (low : start.toNat ≤ here.toNat)
    (inside : here.toNat ≤ bytes.size) :
    Mirrors bytes here
      ((do
        let stop ← knownEnd start size
        seek stop
        pure (some s) : Machine (Option Section)) bytes here)
      ((do
        Section.skipRest start.toNat size report
        pure (some s) : Reader (Option Section)) bytes here.toNat) := by
  have declared : (Word.saturatingAdd start size.toUInt64).toNat = start.toNat + size.toNat :=
    Word.toNat_saturatingAdd_declared (by omega) size
  have covers_iff : here ≤ Word.saturatingAdd start size.toUInt64 ↔
      here.toNat ≤ start.toNat + size.toNat := by
    rw [UInt64.le_iff_toNat_le, declared]
  have run_end : knownEnd start size bytes here =
      (require (here.toNat ≤ start.toNat + size.toNat)
        (.malformed (.sectionOverrun start.toNat size.toNat here.toNat)) >>= fun _ =>
          pure (Word.saturatingAdd start size.toUInt64)) bytes here := by
    simp only [knownEnd, position_bind, covers_iff]
  have run_rest : Section.skipRest start.toNat size report bytes here.toNat =
      (Reader.require (here.toNat ≤ start.toNat + size.toNat)
        (.malformed (.sectionOverrun start.toNat size.toNat here.toNat)) >>= fun _ =>
          Reader.log report >>= fun _ =>
            Reader.skip (start.toNat + size.toNat - here.toNat)) bytes here.toNat :=
    run_position_bind
  by_cases covers : here.toNat ≤ start.toNat + size.toNat
  · rw [decide_eq_true covers] at run_end run_rest
    rw [bind_of_ok run_end]
    refine Mirrors.bind ?_ fun _ there _ _ within =>
      simulates_pure 0 (some s) bytes there small (Nat.zero_le _) within
    have jump := mirrors_seek (Word.saturatingAdd start size.toUInt64) small (by omega) inside
    have jump := jump.prepend [report]
    rw [declared] at jump
    rw [run_rest]
    exact jump
  · rw [decide_eq_false covers] at run_end run_rest
    exact .error _ _ _ (bind_of_error run_end) (Reader.bind_of_error run_rest)

/-! A tree has no more records than bytes. -/

theorem sizeAll_le_of_reads {r : Reader (Tree α)}
    (each : ∀ start t stop, Reader.Reads r bytes start t stop → start + t.size ≤ stop)
    {count start stop : Nat} {ts : List (Tree α)}
    (read : Reader.Reads (Reader.replicate count r) bytes start ts stop) :
    start + Tree.sizeAll ts ≤ stop := by
  induction count generalizing start ts with
  | zero =>
    rw [Reader.replicate_zero] at read
    obtain ⟨rfl, rfl⟩ := Reader.reads_pure.mp read
    exact Nat.le_refl _
  | succ count ih =>
    rw [Reader.replicate_succ] at read
    obtain ⟨t, middle, first, others⟩ := Reader.reads_bind.mp read
    obtain ⟨rest, stop', others, last⟩ := Reader.reads_bind.mp others
    obtain ⟨rfl, rfl⟩ := Reader.reads_pure.mp last
    have one := each start t middle first
    have more := ih others
    rw [Tree.sizeAll]
    omega

theorem size_le_of_reads {rules : Strictness} {levels start stop : Nat} {t : Tree Irep}
    (read : Reader.Reads (Irep.readTree rules levels) bytes start t stop) :
    start + t.size ≤ stop := by
  induction levels generalizing start t stop with
  | zero => exact absurd read Reader.reads_fail
  | succ levels ih =>
    obtain ⟨found, middle, own, rest⟩ := Reader.reads_bind.mp read
    obtain ⟨children, stop', nested, last⟩ := Reader.reads_bind.mp rest
    obtain ⟨rfl, rfl⟩ := Reader.reads_pure.mp last
    have one := lt_of_reads_irep own
    have more := sizeAll_le_of_reads (fun start t stop => ih) nested
    rw [Tree.size]
    omega

theorem size_le_of_reads_section {rules : Strictness} {start stop : Nat} {s : IrepSection}
    (read : Reader.Reads (IrepSection.read rules) bytes start s stop) : s.root.size ≤ stop := by
  obtain ⟨_, _, -, rest⟩ := Reader.reads_bind.mp (Reader.reads_position_bind.mp read)
  obtain ⟨_, _, -, rest⟩ := Reader.reads_bind.mp rest
  obtain ⟨_, _, -, rest⟩ := Reader.reads_bind.mp rest
  obtain ⟨root, middle, tree, rest⟩ := Reader.reads_bind.mp rest
  obtain ⟨_, stop', size, last⟩ := Reader.reads_bind.mp rest
  have after := Reader.le_of_reads size
  obtain ⟨rfl, rfl⟩ := Reader.reads_pure.mp last
  have bound := size_le_of_reads tree
  change root.size ≤ stop
  omega

theorem mirrors_readIrep (rules : Strictness) (small : bytes.size < 2 ^ 63)
    (inside : here.toNat ≤ bytes.size) :
    Mirrors bytes here
      ((do
        let s ← IrepSection.readBy primitives rules (readTree rules 0)
        let stop ← knownEnd here s.size
        let _ ← attempt (countRecords s.root)
        seek stop
        pure (some (.irep s)) : Machine (Option Section)) bytes here)
      (Section.readIrep rules here.toNat bytes here.toNat) := by
  have tree := simulates_irepSection 0 rules bytes here small (Nat.zero_le _) inside
  refine tree.bind fun s there read le within => ?_
  have few := size_le_of_reads_section read
  obtain ⟨count, counted, -⟩ := countRecords_of_lt s.root (by omega)
  rw [counted]
  exact mirrors_leave here s.size _ (.irep s) small le within

theorem mirrors_readDebug (rules : Strictness) (sections : Array Section)
    (small : bytes.size < 2 ^ 63) (inside : here.toNat ≤ bytes.size) :
    Mirrors bytes here
      ((do
        let s ← DebugSection.readBy primitives rules
          ((Section.nearestIrep sections sections.size).map fun (index, s) => (index, s.root))
        let stop ← knownEnd here s.size
        seek stop
        pure (some (.debug s)) : Machine (Option Section)) bytes here)
      (Section.readDebug rules sections here.toNat bytes here.toNat) := by
  unfold Section.readDebug
  cases Section.nearestIrep sections sections.size with
  | none => exact .error _ _ _ rfl rfl
  | some found =>
    obtain ⟨index, t⟩ := found
    have lines := simulates_debugSection 0 rules index t.root bytes here small (Nat.zero_le _) inside
    refine lines.bind fun s there _ le within => ?_
    exact mirrors_leave here s.size _ (.debug s) small le within

/-! The parts of a section that go on behind its tag. -/

theorem skip_tag (after : there.toNat = here.toNat + 4) (within : there.toNat ≤ bytes.size) :
    Reader.skip 4 bytes here.toNat = ⟨.ok (), there.toNat, []⟩ := by
  have fits : 4 ≤ Reader.remaining bytes here.toNat := by
    rw [Reader.remaining]
    omega
  simp only [Reader.skip, fits, if_true, after]

theorem mirrors_readEnd (small : bytes.size < 2 ^ 63) (after : there.toNat = here.toNat + 4)
    (within : there.toNat ≤ bytes.size) :
    Mirrors bytes here ((do skip 4; pure none : Machine (Option Section)) bytes there)
      (Section.readEnd here.toNat bytes here.toNat) := by
  have rest : Simulates 0 (do skip 4; pure none : Machine (Option Section)) (do
      Reader.skip (Section.endMarkerSize - 4)
      Reader.log (.endMarker here.toNat)
      pure none) :=
    (simulates_skip 0 4).bind fun _ => simulates_log_bind (simulates_pure 0 none)
  rw [Section.readEnd, Reader.bind_of_ok (skip_tag after within)]
  exact ((rest bytes there small (Nat.zero_le _) within).mono (by omega)).prepend []

theorem mirrors_readSkipped (found : Tag) (small : bytes.size < 2 ^ 63)
    (after : there.toNat = here.toNat + 4) (within : there.toNat ≤ bytes.size) :
    Mirrors bytes here
      ((do
        let size ← u32
        require (Section.headerSize ≤ size.toNat)
          (.malformed (.sectionTooSmall found here.toNat size.toNat))
        seek here
        skip size.toUInt64
        pure (some (.skipped ⟨found, here.toNat, size⟩)) : Machine (Option Section)) bytes there)
      (Section.readSkipped found here.toNat bytes here.toNat) := by
  rw [Section.readSkipped]
  have ahead : (Reader.skip 4 >>= fun _ => Reader.u32) bytes here.toNat =
      Reader.u32 bytes there.toNat := Reader.bind_of_ok (skip_tag after within)
  cases simulates_u32 0 bytes there small (Nat.zero_le _) within with
  | error e stop events ran read =>
    rw [bind_of_error ran, Reader.bind_of_error (Reader.lookahead_of_error (ahead.trans read))]
    exact .error e stop events rfl rfl
  | ok size stop events ran read _ within' =>
    rw [bind_of_ok ran, Reader.bind_of_ok (Reader.lookahead_of_ok (ahead.trans read))]
    refine Mirrors.prepend ?_ events
    by_cases covers : Section.headerSize ≤ size.toNat
    · rw [decide_eq_true covers]
      have rest : Simulates 0
          (do skip size.toUInt64; pure (some (.skipped ⟨found, here.toNat, size⟩)) :
            Machine (Option Section))
          (do
            Reader.log (.skippedSection found here.toNat size)
            Reader.skip size.toNat
            pure (some (.skipped ⟨found, here.toNat, size⟩))) :=
        simulates_log_bind ((simulates_skip 0 size.toUInt64).bind fun _ => simulates_pure 0 _)
      change Mirrors bytes here ((seek here >>= fun _ => _) bytes stop) _
      rw [seek_bind small (by omega)]
      exact rest bytes here small (Nat.zero_le _) (by omega)
    · rw [decide_eq_false covers]
      exact .error _ _ [] rfl rfl

theorem simulates_readSection (low : Nat) (rules : Strictness) {sections : Array Section}
    {last : Option Nat}
    (noted : treeAt sections last = some (Section.nearestIrep sections sections.size)) :
    Simulates low (readSection rules sections last) (Section.read rules sections) := by
  intro bytes here small _ inside
  rw [readSection, Section.read, position_bind, run_position_bind]
  cases simulates_tag 0 bytes here small (Nat.zero_le _) inside with
  | error e stop events ran read =>
    rw [bind_of_error ran, Reader.bind_of_error (Reader.lookahead_of_error read)]
    exact .error e stop events rfl rfl
  | ok found there events ran read _ within =>
    have after := Reader.stop_of_reads_tag (Reader.reads_of_eq read)
    rw [bind_of_ok ran, Reader.bind_of_ok (Reader.lookahead_of_ok read)]
    refine Mirrors.prepend ?_ events
    rw [Section.readTagged]
    split
    · exact mirrors_readEnd small after within
    split
    · rw [seek_bind small inside]
      exact mirrors_readIrep rules small inside
    split
    · rw [seek_bind small inside, attempt_bind noted]
      exact mirrors_readDebug rules sections small inside
    · exact mirrors_readSkipped found small after within

/-! What the loop keeps: the noted index is that of the last tree. -/

def Noted (sections : Array Section) (last : Option Nat) : Prop :=
  ∀ i, last = some i ↔ Section.LastWhere (fun s => s.kind = .irep) sections.toList i

theorem noted_empty : Noted #[] none := by
  intro i
  constructor
  · intro set
    cases set
  · intro h
    obtain ⟨⟨s, found, -⟩, -⟩ := h
    cases found

theorem treeAt_of_noted {sections : Array Section} {last : Option Nat}
    (noted : Noted sections last) :
    treeAt sections last = some (Section.nearestIrep sections sections.size) := by
  have nearest_iff (i : Nat) (t : IrepSection) :
      Section.nearestIrep sections sections.size = some (i, t) ↔
        Section.NearestIrep sections.toList i t := by
    rw [Section.nearestIrep_eq_some_iff, List.take_of_length_le (Nat.le_refl sections.size)]
  cases last with
  | none =>
    rcases found : Section.nearestIrep sections sections.size with _ | ⟨i, t⟩
    · rfl
    · cases (noted i).mpr ((nearest_iff i t).mp found).2
  | some index =>
    obtain ⟨⟨s, there, kind⟩, -⟩ := (noted index).mp rfl
    cases s with
    | irep t =>
      rw [(nearest_iff index t).mpr ⟨there, (noted index).mp rfl⟩, treeAt,
        ← Array.getElem?_toList, there]
      rfl
    | debug s => cases kind
    | skipped s => cases kind

theorem noted_extend {sections : Array Section} {last : Option Nat} {next : Section}
    (noted : Noted sections last) (fresh : next.unlinked = next) :
    Noted (Section.extend sections next)
      (if next.kind = .irep then some sections.size else last) := by
  intro i
  have blind (s : Section) : s.unlinked.kind = .irep ↔ s.kind = .irep := by
    rw [Section.kind_unlinked]
  rw [← Section.lastWhere_unlinked blind, Section.unlinked_extend fresh, Section.lastWhere_concat,
    Section.lastWhere_unlinked blind, List.length_map, Array.length_toList]
  split
  · rename_i tree
    simp only [tree, true_and, not_true_eq_false, false_and, or_false, Option.some.injEq]
    exact eq_comm
  · rename_i other
    simp only [other, false_and, false_or, not_false_eq_true, true_and]
    exact noted i

/-- Each section moves the loop forward, so that it does not go wrong. -/
theorem mirrors_readSections (rules : Strictness) (small : bytes.size < 2 ^ 63)
    (sections : Array Section) (last : Option Nat) (noted : Noted sections last)
    (inside : here.toNat ≤ bytes.size) :
    Mirrors bytes here (readSections rules bytes here sections last)
      (Section.readFrom rules bytes here.toNat sections) := by
  have step (sections : Array Section) (last : Option Nat) (here : UInt64)
      (noted : Noted sections last) (inside : here.toNat ≤ bytes.size) :=
    simulates_readSection 0 rules (treeAt_of_noted noted) bytes here small (Nat.zero_le _) inside
  fun_induction readSections rules bytes here sections last with
  | case1 here sections last wrong =>
    exact absurd wrong (step sections last here noted inside).ne_none
  | case2 here sections last e failed =>
    obtain ⟨stop, events, read⟩ := (step sections last here noted inside).of_error failed
    exact .error e stop events rfl (Section.readFrom_of_error read)
  | case3 here sections last stop done =>
    obtain ⟨events, read, le, within⟩ := (step sections last here noted inside).of_ok done
    exact .ok sections stop events rfl (Section.readFrom_of_none read) le within
  | case4 here sections last next there found forward ih =>
    obtain ⟨events, read, le, within⟩ := (step sections last here noted inside).of_ok found
    have follows := (Section.reads_some_iff inside).mp (Reader.reads_of_eq read)
    rw [Section.readFrom_of_some read]
    exact ((ih (noted_extend noted follows.unlinked_eq) within).mono le).prepend events
  | case5 here sections last next there found stuck =>
    obtain ⟨events, read, _, within⟩ := (step sections last here noted inside).of_ok found
    have advancing : Reader.Advancing (Section.read rules sections) := inferInstance
    have progress := advancing.lt_of_ok bytes here.toNat (some next) (by rw [read])
    rw [read] at progress
    exact absurd ⟨UInt64.lt_iff_toNat_lt.mpr progress.1, within⟩ stuck

end RiteImage.Machine
