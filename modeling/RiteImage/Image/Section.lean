import RiteImage.Code.Irep
import RiteImage.Lines.Debug

/-! The sections of an image.
Each starts with its tag and its size, counted from the tag, and the next one
starts where that size says. Instruction trees and their line tables are decoded;
any other section is located and not looked into. -/
namespace RiteImage

inductive SectionKind
  | irep
  | debug
  | skipped
  deriving DecidableEq

def SectionKind.name : SectionKind → String
  | .irep => "irep"
  | .debug => "debug"
  | .skipped => "opaque"

structure SkippedSection where
  tag : Tag
  offset : Nat
  size : UInt32
  deriving DecidableEq

def SkippedSection.stop (s : SkippedSection) : Nat := s.offset + s.size.toNat

inductive Section
  | irep (content : IrepSection)
  | debug (content : DebugSection)
  | skipped (content : SkippedSection)
  deriving BEq

namespace Section

def kind : Section → SectionKind
  | .irep _ => .irep
  | .debug _ => .debug
  | .skipped _ => .skipped

def tag : Section → Tag
  | .irep _ => Tag.irep
  | .debug _ => Tag.debug
  | .skipped s => s.tag

def tagText (s : Section) : String :=
  String.ofList (s.tag.text.toList.reverse.dropWhile (· = '\x00')).reverse

def offset : Section → Nat
  | .irep s => s.offset
  | .debug s => s.offset
  | .skipped s => s.offset

def size : Section → UInt32
  | .irep s => s.size
  | .debug s => s.size
  | .skipped s => s.size

def headerSize : Nat := 8

/-- The bytes of the end marker, the last four of which are not looked at. -/
def endMarkerSize : Nat := 8

/-- The last instruction tree among the first `count` sections, with its index. -/
def nearestIrep (known : Array Section) : Nat → Option (Nat × IrepSection)
  | 0 => none
  | count + 1 =>
    match known[count]? with
    | some (.irep s) => some (count, s)
    | _ => nearestIrep known count

def skipRest (start : Nat) (size : UInt32) (report : Event) : Reader Unit := do
  let contentEnd ← Reader.position
  let declaredEnd := start + size.toNat
  Reader.require (contentEnd ≤ declaredEnd)
    (.malformed (.sectionOverrun start size.toNat contentEnd))
  Reader.log report
  Reader.skip (declaredEnd - contentEnd)

def readEnd (start : Nat) : Reader (Option Section) := do
  Reader.skip 4
  Reader.skip (endMarkerSize - 4)
  Reader.log (.endMarker start)
  pure none

def readIrep (rules : Strictness) (start : Nat) : Reader (Option Section) := do
  let found ← IrepSection.read rules
  skipRest start found.size (.irepSection start found.root.size)
  pure (some (.irep found))

def readLinesOf (rules : Strictness) (start index : Nat) (s : IrepSection) :
    Reader (Option Section) := do
  let found ← DebugSection.readFor rules index s.root
  skipRest start found.size (.debugSection start s.offset)
  pure (some (.debug found))

def readDebug (rules : Strictness) (known : Array Section) (start : Nat) :
    Reader (Option Section) :=
  match nearestIrep known known.size with
  | some (index, s) => readLinesOf rules start index s
  | none => DebugSection.refuse

/-- Nothing but the size is looked at, and it must cover the tag and itself. -/
def readSkipped (tag : Tag) (start : Nat) : Reader (Option Section) := do
  let size ← Reader.lookahead (do Reader.skip 4; Reader.u32)
  Reader.require (headerSize ≤ size.toNat) (.malformed (.sectionTooSmall tag start size.toNat))
  Reader.log (.skippedSection tag start size)
  Reader.skip size.toNat
  pure (some (.skipped ⟨tag, start, size⟩))

def readTagged (rules : Strictness) (known : Array Section) (tag : Tag) (start : Nat) :
    Reader (Option Section) :=
  if tag = Tag.endMarker then readEnd start
  else if tag = Tag.irep then readIrep rules start
  else if tag = Tag.debug then readDebug rules known start
  else readSkipped tag start

def read (rules : Strictness) (known : Array Section) : Reader (Option Section) := do
  let start ← Reader.position
  let tag ← Reader.lookahead Reader.tag
  readTagged rules known tag start

def linkTo (index : Nat) : Section → Section
  | .irep s => .irep { s with debug := some index }
  | s => s

/-- Adds a section. Line tables are linked with the tree they were read for. -/
def extend (known : Array Section) (next : Section) : Array Section :=
  match next with
  | .debug s => (known.modify s.irep (linkTo known.size)).push next
  | _ => known.push next

instance (start : Nat) (size : UInt32) (report : Event) :
    Reader.Forward (skipRest start size report) := by
  unfold skipRest; infer_instance

instance (start : Nat) : Reader.Advancing (readEnd start) := by
  have := Reader.advancing_skip 4 (by decide)
  unfold readEnd
  exact Reader.advancing_bind _ _

instance (rules : Strictness) (start : Nat) : Reader.Advancing (readIrep rules start) := by
  unfold readIrep
  exact Reader.advancing_bind _ _

instance (rules : Strictness) (known : Array Section) (start : Nat) :
    Reader.Advancing (readDebug rules known start) := by
  unfold readDebug
  split
  · unfold readLinesOf
    exact Reader.advancing_bind _ _
  · infer_instance

theorem advancing_readSkipped (tag : Tag) (start : Nat) :
    Reader.Advancing (readSkipped tag start) := by
  unfold readSkipped
  refine Reader.advancing_bind_rest _ _ fun size => ?_
  by_cases covers : headerSize ≤ size.toNat
  · refine Reader.advancing_bind_rest _ _ fun _ => Reader.advancing_bind_rest _ _ fun _ => ?_
    have := Reader.advancing_skip size.toNat (Nat.lt_of_lt_of_le (by decide) covers)
    exact Reader.advancing_bind _ _
  · constructor
    intro bytes position a ok
    simp only [Reader.require, covers, decide_false] at ok
    cases ok

instance (rules : Strictness) (known : Array Section) : Reader.Advancing (read rules known) := by
  have skipped := advancing_readSkipped
  unfold read readTagged
  refine Reader.advancing_bind_rest _ _ fun start => Reader.advancing_bind_rest _ _ fun tag => ?_
  split
  · infer_instance
  split
  · infer_instance
  split
  · infer_instance
  · exact skipped tag start

/-- Goes from section to section up to the end marker. Every one starts after the one before it.
What the last round is made into is passed back through the others. -/
def rounds {β : Type} (rules : Strictness) (bytes : ByteArray) (last : Outcome (Array Section) → β)
    (before : List Event → β → β) (start : Nat) (known : Array Section) : β :=
  match _step : read rules known bytes start with
  | ⟨.ok none, stop, events⟩ => last ⟨.ok known, stop, events⟩
  | ⟨.ok (some next), middle, events⟩ =>
    before events (rounds rules bytes last before middle (extend known next))
  | ⟨.error e, stop, events⟩ => last ⟨.error e, stop, events⟩
termination_by bytes.size - start
decreasing_by
  have advancing : Reader.Advancing (read rules known) := inferInstance
  have progress := advancing.lt_of_ok bytes start (some next) (by rw [_step])
  simp only [_step] at progress
  omega

def readFrom (rules : Strictness) (bytes : ByteArray) (start : Nat) (known : Array Section) :
    Outcome (Array Section) :=
  rounds rules bytes id Outcome.after start known

def readAll (rules : Strictness) : Reader (Array Section) := fun bytes start =>
  readFrom rules bytes start #[]

variable {β : Type} {rules : Strictness} {bytes : ByteArray} {known : Array Section}
  {start middle stop : Nat} {events : List Event} {last : Outcome (Array Section) → β}
  {before : List Event → β → β}

theorem rounds_of_none (run : read rules known bytes start = ⟨.ok none, stop, events⟩) :
    rounds rules bytes last before start known = last ⟨.ok known, stop, events⟩ := by
  rw [rounds]
  split <;> rename_i found <;> cases run.symm.trans found
  rfl

theorem rounds_of_some {next : Section}
    (run : read rules known bytes start = ⟨.ok (some next), middle, events⟩) :
    rounds rules bytes last before start known =
      before events (rounds rules bytes last before middle (extend known next)) := by
  rw [rounds]
  split <;> rename_i found <;> cases run.symm.trans found
  rfl

theorem rounds_of_error {e : Cause}
    (run : read rules known bytes start = ⟨.error e, stop, events⟩) :
    rounds rules bytes last before start known = last ⟨.error e, stop, events⟩ := by
  rw [rounds]
  split <;> rename_i found <;> cases run.symm.trans found
  rfl

theorem readFrom_of_none (run : read rules known bytes start = ⟨.ok none, stop, events⟩) :
    readFrom rules bytes start known = ⟨.ok known, stop, events⟩ :=
  rounds_of_none run

theorem readFrom_of_some {next : Section}
    (run : read rules known bytes start = ⟨.ok (some next), middle, events⟩) :
    readFrom rules bytes start known =
      (readFrom rules bytes middle (extend known next)).after events :=
  rounds_of_some run

theorem readFrom_of_error {e : Cause}
    (run : read rules known bytes start = ⟨.error e, stop, events⟩) :
    readFrom rules bytes start known = ⟨.error e, stop, events⟩ :=
  rounds_of_error run

end Section

end RiteImage
