import RiteImage.Image.Basic
import RiteImage.Proofs.Extension

/-! Runs under tighter rules.
A reader that refuses more runs like the other one until it refuses, and then it says so
with a cause of a known kind. It neither yields another value nor fails with another cause
in between, wherever the other one succeeds or fails. -/
namespace RiteImage

variable {α β : Type} {refused : Cause → Prop}

/-- The first outcome is the second one or a refusal. -/
def Outcome.SameUnless (refused : Cause → Prop) (one two : Outcome α) : Prop :=
  one = two ∨ ∃ e, refused e ∧ one.result = .error e

namespace Reader

class Narrows (refused : Cause → Prop) (narrow wide : Reader α) : Prop where
  same_unless : ∀ bytes start, (narrow bytes start).SameUnless refused (wide bytes start)

instance (r : Reader α) : Narrows refused r r := ⟨fun _ _ => .inl rfl⟩

instance (r r' : Reader α) (next next' : α → Reader β) [first : Narrows refused r r']
    [rest : ∀ a, Narrows refused (next a) (next' a)] :
    Narrows refused (r >>= next) (r' >>= next') where
  same_unless bytes start := by
    rcases first.same_unless bytes start with same | ⟨e, kind, error⟩
    · rcases run : r' bytes start with ⟨e | a, middle, events⟩
      · rw [run] at same
        exact .inl (by rw [bind_of_error same, bind_of_error run])
      · rw [run] at same
        rw [bind_of_ok same, bind_of_ok run]
        rcases (rest a).same_unless bytes middle with same' | ⟨e, kind, error⟩
        · exact .inl (by rw [same'])
        · exact .inr ⟨e, kind, error⟩
    · exact .inr ⟨e, kind, result_bind_of_error error⟩

instance (c : Prop) [Decidable c] (r r' s s' : Reader α) [Narrows refused r r']
    [Narrows refused s s'] : Narrows refused (if c then r else s) (if c then r' else s') := by
  split <;> assumption

theorem narrows_fail {e : Cause} (kind : refused e) (r : Reader α) :
    Narrows refused (fail e) r :=
  ⟨fun _ _ => .inr ⟨e, kind, rfl⟩⟩

theorem narrows_require {c c' : Bool} {e : Cause} (asked : c = c' ∨ c' = true ∧ refused e) :
    Narrows refused (require c e) (require c' e) := by
  rcases asked with rfl | ⟨rfl, kind⟩
  · infer_instance
  · cases c with
    | false => exact narrows_fail kind _
    | true => infer_instance

theorem kept_narrows : Kept (m := Reader) (n := Reader) fun _ r r' => Narrows refused r r' where
  pure _ := inferInstance
  bind first rest := by
    have := first
    have := rest
    infer_instance

instance (count : Nat) (r r' : Reader α) [narrows : Narrows refused r r'] :
    Narrows refused (replicate count r) (replicate count r') := by
  rw [replicate_eq, replicate_eq]
  exact kept_narrows.replicateM narrows count

end Reader

open Reader

/-- The first rules differ from the second ones only where they ask for more, and what they refuse
for it is of the kind. -/
class Strictness.Tighter (refused : Cause → Prop) (one two : Strictness) : Prop where
  sizes : one.enforceSizes = two.enforceSizes ∨
    two.enforceSizes = false ∧ ∀ defect, refused (.malformed defect)
  magic : one.enforceMagic = two.enforceMagic ∨
    two.enforceMagic = false ∧ ∀ defect, refused (.malformed defect)
  depth : one.depthLimit = two.depthLimit ∨
    one.depthLimit ≤ two.depthLimit ∧ refused (.tooDeep one.depthLimit)

variable {one two : Strictness}

section Readers

variable [tighter : Strictness.Tighter refused one two]

instance (part : Part) (start : Nat) (declared : UInt32) :
    Narrows refused (checkSize one part start declared) (checkSize two part start declared) := by
  have checked (stop : Nat) : Narrows refused
      (require (!one.enforceSizes || stop - start = declared.toNat)
        (.malformed (.sizeMismatch part start declared.toNat (stop - start))))
      (require (!two.enforceSizes || stop - start = declared.toNat)
        (.malformed (.sizeMismatch part start declared.toNat (stop - start)))) := by
    apply narrows_require
    rcases tighter.sizes with same | ⟨off, kind⟩
    · exact .inl (by rw [same])
    · exact .inr ⟨by rw [off]; rfl, kind _⟩
  unfold checkSize
  infer_instance

instance : Narrows refused (Irep.read one) (Irep.read two) := by
  unfold Irep.read Irep.readBy; infer_instance

theorem Irep.narrows_readTree {levels levels' : Nat}
    (fewer : levels = levels' ∧ one.depthLimit = two.depthLimit ∨
      levels ≤ levels' ∧ refused (.tooDeep one.depthLimit)) :
    Narrows refused (Irep.readTree one levels) (Irep.readTree two levels') := by
  induction levels generalizing levels' with
  | zero =>
    rcases fewer with ⟨rfl, same⟩ | ⟨-, kind⟩
    · unfold Irep.readTree
      rw [same]
      infer_instance
    · exact narrows_fail kind _
  | succ levels ih =>
    cases levels' with
    | zero => rcases fewer with ⟨same, -⟩ | ⟨le, -⟩ <;> omega
    | succ levels' =>
      have below : Narrows refused (readTree one levels) (readTree two levels') := by
        apply ih
        rcases fewer with ⟨same, limits⟩ | ⟨le, kind⟩
        · exact .inl ⟨Nat.succ.inj same, limits⟩
        · exact .inr ⟨Nat.le_of_succ_le_succ le, kind⟩
      unfold Irep.readTree Irep.nodeBy
      infer_instance

instance (depth : Nat) :
    Narrows refused (Irep.readAtDepth one depth) (Irep.readAtDepth two depth) := by
  apply Irep.narrows_readTree
  unfold Irep.levelsBelow
  rcases tighter.depth with same | ⟨le, kind⟩
  · exact .inl ⟨by rw [same], same⟩
  · exact .inr ⟨by omega, kind⟩

instance : Narrows refused (IrepSection.read one) (IrepSection.read two) := by
  unfold IrepSection.read IrepSection.readBy; infer_instance

instance (filenames : List String) :
    Narrows refused (DebugRecord.read one filenames) (DebugRecord.read two filenames) := by
  unfold DebugRecord.read DebugRecord.readBy; infer_instance

instance (filenames : List String) (shape : Tree α) :
    Narrows refused (DebugRecord.readTree one filenames shape)
      (DebugRecord.readTree two filenames shape) :=
  kept_narrows.mapM (fun _ => inferInstance) shape

instance (irep : Nat) (shape : Tree α) :
    Narrows refused (DebugSection.readFor one irep shape)
      (DebugSection.readFor two irep shape) := by
  unfold DebugSection.readFor DebugSection.readForBy; infer_instance

namespace Section

instance (start : Nat) : Narrows refused (readIrep one start) (readIrep two start) := by
  unfold readIrep; infer_instance

instance (known : Array Section) (start : Nat) :
    Narrows refused (readDebug one known start) (readDebug two known start) := by
  unfold readDebug
  split
  · unfold readLinesOf; infer_instance
  · infer_instance

instance (known : Array Section) : Narrows refused (read one known) (read two known) := by
  unfold read readTagged; infer_instance

theorem sameUnless_readFrom (bytes : ByteArray) (start : Nat) (known : Array Section) :
    (readFrom one bytes start known).SameUnless refused (readFrom two bytes start known) := by
  have step (known : Array Section) (start : Nat) :
      (read one known bytes start).SameUnless refused (read two known bytes start) :=
    (inferInstance : Narrows refused (read one known) (read two known)).same_unless bytes start
  have refuse {known : Array Section} {start : Nat} {e : Cause}
      (error : (read one known bytes start).result = .error e) :
      (readFrom one bytes start known).result = .error e := by
    rcases run : read one known bytes start with ⟨result, stop, events⟩
    rw [run] at error
    cases error
    rw [readFrom_of_error run]
  induction start, known using rounds.induct two bytes with
  | case1 start known stop events run =>
    rcases step known start with same | ⟨e, kind, error⟩
    · rw [readFrom_of_none run]
      exact .inl (readFrom_of_none (same.trans run))
    · exact .inr ⟨e, kind, refuse error⟩
  | case2 start known next middle events run ih =>
    rcases step known start with same | ⟨e, kind, error⟩
    · rw [readFrom_of_some run, readFrom_of_some (same.trans run)]
      rcases ih with same' | ⟨e, kind, error⟩
      · exact .inl (by rw [same'])
      · exact .inr ⟨e, kind, error⟩
    · exact .inr ⟨e, kind, refuse error⟩
  | case3 start known e stop events run =>
    rcases step known start with same | ⟨e, kind, error⟩
    · rw [readFrom_of_error run]
      exact .inl (readFrom_of_error (same.trans run))
    · exact .inr ⟨e, kind, refuse error⟩

instance : Narrows refused (readAll one) (readAll two) :=
  ⟨fun bytes start => sameUnless_readFrom bytes start #[]⟩

end Section

instance : Narrows refused (Image.read one) (Image.read two) := by
  have checked (header : Header) : Narrows refused
      (require (!one.enforceMagic || header.hasMagic) (.malformed (.wrongMagic header.magic)))
      (require (!two.enforceMagic || header.hasMagic) (.malformed (.wrongMagic header.magic))) := by
    apply narrows_require
    rcases tighter.magic with same | ⟨off, kind⟩
    · exact .inl (by rw [same])
    · exact .inr ⟨by rw [off]; rfl, kind _⟩
  unfold Image.read Image.readBy
  infer_instance

end Readers

/-- Decoding under tighter rules has the same outcome or refuses. -/
theorem Image.sameUnless_decode (tighter : Strictness.Tighter refused one two) (bytes : ByteArray) :
    (Image.decode one bytes).SameUnless refused (Image.decode two bytes) :=
  (inferInstance : Narrows refused (Image.read one) (Image.read two)).same_unless bytes 0

theorem Irep.sameUnless_readAtDepth (tighter : Strictness.Tighter refused one two)
    (depth : Nat) (bytes : ByteArray) (start : Nat) :
    (runAt (readAtDepth one depth) bytes start).SameUnless refused
      (runAt (readAtDepth two depth) bytes start) :=
  (inferInstance : Narrows refused (do seek start; readAtDepth one depth)
    (do seek start; readAtDepth two depth)).same_unless bytes 0

end RiteImage
