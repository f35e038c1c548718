import RiteImage.Image.Basic
import RiteImage.Proofs.SectionDraft
import RiteImage.Proofs.Tiling

namespace RiteImage

open Reader

def lastBelow (test : Nat → Bool) : Nat → Option Nat
  | 0 => none
  | limit + 1 => if test limit then some limit else lastBelow test limit

namespace SectionDraft

def treeBefore (drafts : List SectionDraft) (index : Nat) : Option Nat :=
  lastBelow (fun i => drafts[i]?.any isIrep) index

def lastLines (drafts : List SectionDraft) (index : Nat) : Option Nat :=
  lastBelow (fun j => drafts[j]?.any isDebug && treeBefore drafts j = some index) drafts.length

def writeAll (start : Nat) : List SectionDraft → List UInt8
  | [] => []
  | d :: rest => d.bytes start ++ writeAll (start + d.length start) rest

def sectionsFrom (drafts : List SectionDraft) (index start : Nat) : List SectionDraft → List Section
  | [] => []
  | d :: rest =>
    d.sectionAt start (treeBefore drafts index) (lastLines drafts index) ::
      sectionsFrom drafts (index + 1) (start + d.length start) rest

/-- Line tables have the shape of the nearest tree before them, and there is one. -/
def Paired (drafts : List SectionDraft) : Prop :=
  ∀ j filenames root trailing, drafts[j]? = some (debug filenames root trailing) →
    ∃ i stamp tree trailing', treeBefore drafts j = some i ∧
      drafts[i]? = some (irep stamp tree trailing') ∧ tree.SameShape root

def sections (start : Nat) (drafts : List SectionDraft) : List Section :=
  sectionsFrom drafts 0 start drafts

end SectionDraft

structure ImageDraft where
  magic : Tag
  compilerName : Tag
  compilerVersion : Tag
  sections : List SectionDraft

namespace ImageDraft

def body (d : ImageDraft) : List UInt8 :=
  d.compilerName.bytes ++ (d.compilerVersion.bytes ++
    (SectionDraft.writeAll 22 d.sections ++
      (Tag.endMarker.bytes ++ wordBytes 4 8)))

def content (d : ImageDraft) : List UInt8 := sized d.body

def checksum (d : ImageDraft) : UInt16 := Checksum.compute d.content 0

def bytes (d : ImageDraft) : ByteArray :=
  ⟨(d.magic.bytes ++ Tag.version.bytes ++ wordBytes 2 d.checksum.toNat ++ d.content).toArray⟩

def header (d : ImageDraft) : Header :=
  ⟨d.magic, Tag.version, d.checksum, UInt32.ofNat d.content.length, d.compilerName,
    d.compilerVersion⟩

def image (d : ImageDraft) : Image :=
  ⟨d.header, (SectionDraft.sections 22 d.sections).toArray⟩

/-- Every section fits and has the tree that it needs, and the whole can be counted. -/
structure Fits (d : ImageDraft) : Prop where
  sections : ∀ s ∈ d.sections, s.Fits
  paired : SectionDraft.Paired d.sections
  size_lt : d.content.length < 2 ^ 32

end ImageDraft

/-! Links in a list are found by a search below a limit. -/

theorem lastBelow_eq_some_iff {test : Nat → Bool} {limit i : Nat} :
    lastBelow test limit = some i ↔
      (i < limit ∧ test i = true) ∧ ∀ k, i < k → ¬ (k < limit ∧ test k = true) := by
  induction limit with
  | zero => simp [lastBelow]
  | succ limit ih =>
    rw [lastBelow]
    split
    · rename_i passes
      rw [Option.some.injEq]
      constructor
      · rintro rfl
        exact ⟨⟨Nat.lt_succ_self _, passes⟩, fun k above below => by omega⟩
      · intro h
        obtain ⟨⟨below, -⟩, last⟩ := h
        rcases Nat.lt_or_ge i limit with lt | ge
        · exact absurd ⟨Nat.lt_succ_self _, passes⟩ (last limit lt)
        · omega
    · rename_i fails
      rw [ih]
      constructor
      · intro h
        obtain ⟨⟨below, found⟩, last⟩ := h
        refine ⟨⟨by omega, found⟩, fun k above there => ?_⟩
        rcases Nat.lt_or_ge k limit with lt | ge
        · exact last k above ⟨lt, there.2⟩
        · obtain rfl : k = limit := by omega
          exact fails there.2
      · intro h
        obtain ⟨⟨below, found⟩, last⟩ := h
        refine ⟨⟨?_, found⟩, fun k above there => last k above ⟨by omega, there.2⟩⟩
        have other : i ≠ limit := fun same => fails (same ▸ found)
        omega

theorem lastBelow_iff_lastWhere {α : Type} {values : List α} {holds : α → Prop}
    {test : Nat → Bool} {limit : Nat}
    (same : ∀ k : Nat, (k < limit ∧ test k = true) ↔ ∃ a, values[k]? = some a ∧ holds a) {i : Nat} :
    lastBelow test limit = some i ↔ Section.LastWhere holds values i := by
  simp only [lastBelow_eq_some_iff, Section.lastWhere_iff, same]

end RiteImage
