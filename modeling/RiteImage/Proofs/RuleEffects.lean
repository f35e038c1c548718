import RiteImage.Proofs.ImageLayout
import RiteImage.Proofs.Narrowing

namespace RiteImage

open Reader

variable {α : Type}

structure Image.Exact (bytes : ByteArray) (image : Image) : Prop where
  magic : image.header.magic = Tag.magic
  sections : ∀ s ∈ image.sections, s.Exact bytes

theorem tighter_strict (limit : Nat) :
    Strictness.Tighter (fun e => ∃ defect, e = .malformed defect)
      (Strictness.strict.withDepthLimit limit) (Strictness.lenient.withDepthLimit limit) where
  sizes := .inr ⟨rfl, fun defect => ⟨defect, rfl⟩⟩
  magic := .inr ⟨rfl, fun defect => ⟨defect, rfl⟩⟩
  depth := .inl rfl

/-- With the same limit of depth, strict rules have the same outcome as lenient ones, or they call
the image malformed. They accept an image that lenient rules accept exactly if it is exact. -/
theorem Image.decode_strict (limit : Nat) (bytes : ByteArray) :
    ((∃ defect, (decode (Strictness.strict.withDepthLimit limit) bytes).result =
        .error (.malformed defect)) ∨
      decode (Strictness.strict.withDepthLimit limit) bytes =
        decode (Strictness.lenient.withDepthLimit limit) bytes) ∧
    ∀ image, (decode (Strictness.lenient.withDepthLimit limit) bytes).result = .ok image →
      ((decode (Strictness.strict.withDepthLimit limit) bytes).result = .ok image ↔
        image.Exact bytes) := by
  constructor
  · rcases sameUnless_decode (tighter_strict limit) bytes with same | ⟨_, ⟨defect, rfl⟩, error⟩
    · exact .inr same
    · exact .inl ⟨defect, error⟩
  · intro image ok
    obtain ⟨laid, low, -⟩ := result_decode_iff.mp ok
    rw [result_decode_iff]
    constructor
    · intro given
      obtain ⟨-, -, exactly, magic⟩ := given
      exact ⟨magic rfl, exactly rfl⟩
    · intro exactly
      exact ⟨laid, low, fun _ => exactly.sections, fun _ => exactly.magic⟩

/-- How a run under a lower limit relates to one under a higher limit: it refuses for the limit or
is the same, and of the values that the other one yields it accepts some. -/
structure Outcome.CutAt (low : Outcome α) (limit : Nat) (accepted : α → Prop) (high : Outcome α) :
    Prop where
  refused_or_same : low.result = .error (.tooDeep limit) ∨ low = high
  same : ∀ a, high.result = .ok a → accepted a → low = high
  refused : ∀ a, high.result = .ok a → ¬ accepted a → low.result = .error (.tooDeep limit)

theorem Outcome.SameUnless.cutAt {limit : Nat} {accepted : α → Prop} {low high : Outcome α}
    (narrower : low.SameUnless (· = .tooDeep limit) high)
    (accepts : ∀ a, high.result = .ok a → (low.result = .ok a ↔ accepted a)) :
    low.CutAt limit accepted high := by
  rcases narrower with rfl | ⟨_, rfl, error⟩
  · exact ⟨.inr rfl, fun _ _ _ => rfl, fun a ok other => absurd ((accepts a ok).mp ok) other⟩
  · refine ⟨.inl error, fun a ok accepted => ?_, fun _ _ _ => error⟩
    cases error.symm.trans ((accepts a ok).mpr accepted)

theorem tighter_withDepthLimit (rules : Strictness) {low high : Nat} (le : low ≤ high) :
    Strictness.Tighter (· = .tooDeep low) (rules.withDepthLimit low)
      (rules.withDepthLimit high) where
  sizes := .inl rfl
  magic := .inl rfl
  depth := .inr ⟨le, rfl⟩

theorem Image.height_le_iff {image : Image} {limit : Nat} :
    (∀ s ∈ image.sections, s.height ≤ limit) ↔
      ∀ s, .irep s ∈ image.sections → s.root.height ≤ limit := by
  constructor
  · exact fun low s mem => low _ mem
  · intro low s mem
    cases s with
    | irep s => exact low s mem
    | debug s => exact Nat.zero_le _
    | skipped s => exact Nat.zero_le _

theorem Irep.reads_readAtDepth_iff {rules : Strictness} {bytes : ByteArray} {depth start stop : Nat}
    (inside : start ≤ bytes.size) {low high : Nat} (le : low ≤ high) {tree : Tree Irep} :
    Reads (readAtDepth (rules.withDepthLimit low) depth) bytes start tree stop ↔
      Reads (readAtDepth (rules.withDepthLimit high) depth) bytes start tree stop ∧
        depth + tree.height ≤ low := by
  simp only [readAtDepth, (accepts_readTree _ _).reads_iff inside]
  have levels : tree.height < levelsBelow (rules.withDepthLimit low) depth ↔
      tree.height < levelsBelow (rules.withDepthLimit high) depth ∧ depth + tree.height ≤ low := by
    simp only [levelsBelow, Strictness.withDepthLimit]
    omega
  rw [levels]
  simp only [and_assoc]
  rfl

/-- A lower limit of depth refuses what is too high and does nothing else. An image is too high if
one of its trees is, and a tree that is read at some depth counts from there. -/
theorem Image.decode_depthLimit (rules : Strictness) (bytes : ByteArray) {low high : Nat}
    (le : low ≤ high) :
    (decode (rules.withDepthLimit low) bytes).CutAt low
      (fun image => ∀ s, .irep s ∈ image.sections → s.root.height ≤ low)
      (decode (rules.withDepthLimit high) bytes) ∧
    ∀ depth start,
      (runAt (Irep.readAtDepth (rules.withDepthLimit low) depth) bytes start).CutAt low
        (fun tree => depth + tree.height ≤ low)
        (runAt (Irep.readAtDepth (rules.withDepthLimit high) depth) bytes start) := by
  have tighter := tighter_withDepthLimit rules le
  constructor
  · refine (sameUnless_decode tighter bytes).cutAt fun image ok => ?_
    obtain ⟨laid, -, exactly, magic⟩ := result_decode_iff.mp ok
    rw [result_decode_iff, ← height_le_iff]
    constructor
    · exact fun given => given.2.1
    · exact fun within => ⟨laid, within, exactly, magic⟩
  · intro depth start
    refine (Irep.sameUnless_readAtDepth tighter depth bytes start).cutAt fun tree ok => ?_
    obtain ⟨inside, read⟩ := reads_runAt.mp ⟨ok, rfl⟩
    constructor
    · intro accepted
      obtain ⟨-, read⟩ := reads_runAt.mp ⟨accepted, rfl⟩
      exact ((Irep.reads_readAtDepth_iff inside le).mp read).2
    · intro within
      have read' := (Irep.reads_readAtDepth_iff inside le).mpr ⟨read, within⟩
      exact (reads_runAt.mpr ⟨inside, read'⟩).1

/-- A tree with one child under a limit of 0. -/
theorem Image.decode_depthLimit_nested : 0 ≤ 1 ∧
    (runAt (Irep.readAtDepth (Strictness.lenient.withDepthLimit 1) 0) Irep.nestedBytes 1).result =
      .ok Irep.nestedTree ∧
    (runAt (Irep.readAtDepth (Strictness.lenient.withDepthLimit 0) 0) Irep.nestedBytes 1).result =
      .error (.tooDeep 0) := by
  have high : (runAt (Irep.readAtDepth (Strictness.lenient.withDepthLimit 1) 0) Irep.nestedBytes
      1).result = .ok Irep.nestedTree := rfl
  have cut := (decode_depthLimit .lenient Irep.nestedBytes (Nat.zero_le 1)).2 0 1
  exact ⟨Nat.zero_le 1, high, cut.refused _ high (by decide)⟩

end RiteImage
