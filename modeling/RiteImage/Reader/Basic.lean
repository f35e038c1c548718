import RiteImage.Reader.Event

/-! Readers over a byte buffer.
A reader starts at a position, and it either yields a value or a cause of failure.
In both cases it says where it stopped and what it reported on the way. No reader
looks past the end of the buffer, and none of the composed ones moves backward. -/
namespace RiteImage

/-- Every integer is written with its most significant byte first. -/
def bigEndian (bytes : List UInt8) : Nat :=
  bytes.foldl (fun value byte => 256 * value + byte.toNat) 0

structure Outcome (α : Type) where
  result : Except Cause α
  position : Nat
  events : List Event

def Outcome.after {α : Type} (events : List Event) (o : Outcome α) : Outcome α :=
  ⟨o.result, o.position, events ++ o.events⟩

def Reader (α : Type) : Type := ByteArray → Nat → Outcome α

namespace Reader

variable {α β : Type}

protected def pure (a : α) : Reader α := fun _ start => ⟨.ok a, start, []⟩

/-- The second reader starts where the first one stopped, unless that failed. -/
protected def bind (r : Reader α) (next : α → Reader β) : Reader β := fun bytes start =>
  match r bytes start with
  | ⟨.ok a, middle, before⟩ =>
    match next a bytes middle with
    | ⟨result, stop, after⟩ => ⟨result, stop, before ++ after⟩
  | ⟨.error e, stop, events⟩ => ⟨.error e, stop, events⟩

instance : Monad Reader where
  pure := Reader.pure
  bind := Reader.bind

def fail (e : Cause) : Reader α := fun _ start => ⟨.error e, start, []⟩

def log (e : Event) : Reader Unit := fun _ start => ⟨.ok (), start, [e]⟩

def buffer : Reader ByteArray := fun bytes start => ⟨.ok bytes, start, []⟩

def position : Reader Nat := fun _ start => ⟨.ok start, start, []⟩

def require (condition : Bool) (e : Cause) : Reader Unit :=
  if condition then pure () else fail e

def remaining (bytes : ByteArray) (start : Nat) : Nat := bytes.size - start

def hasMore (bytes : ByteArray) (start : Nat) : Bool := start < bytes.size

def truncated (bytes : ByteArray) (start needed : Nat) : Outcome α :=
  ⟨.error (.truncated start needed (remaining bytes start)), start, []⟩

def seek (target : Nat) : Reader Unit := fun bytes start =>
  if target ≤ bytes.size then ⟨.ok (), target, []⟩
  else truncated bytes start (target - start)

def skip (count : Nat) : Reader Unit := fun bytes start =>
  if count ≤ remaining bytes start then ⟨.ok (), start + count, []⟩
  else truncated bytes start count

def take (count : Nat) : Reader ByteArray := fun bytes start =>
  if count ≤ remaining bytes start then
    ⟨.ok (bytes.extract start (start + count)), start + count, []⟩
  else truncated bytes start count

def padding (alignment : Nat) (_positive : 0 < alignment) (start : Nat) : Nat :=
  (alignment - start % alignment) % alignment

/-- Moves to a multiple of an alignment, counted from the start of the buffer. -/
def align (alignment : Nat) (positive : 0 < alignment := by decide) : Reader Unit := do
  let start ← position
  skip (padding alignment positive start)

def lookahead (r : Reader α) : Reader α := fun bytes start =>
  match r bytes start with
  | ⟨.ok a, _, events⟩ => ⟨.ok a, start, events⟩
  | failure => failure

def word (count : Nat) : Reader Nat := do
  let chunk ← take count
  pure (bigEndian chunk.data.toList)

def u8 : Reader UInt8 := UInt8.ofNat <$> word 1

def u16 : Reader UInt16 := UInt16.ofNat <$> word 2

def u32 : Reader UInt32 := UInt32.ofNat <$> word 4

def tag : Reader Tag := Tag.ofBytes <$> take 4

/-- Repeats a reader, with the values and events so far in reverse. -/
def replicateFrom (r : Reader α) (bytes : ByteArray) :
    Nat → Nat → List α → List Event → Outcome (List α)
  | 0, start, values, events => ⟨.ok values.reverse, start, events.reverse⟩
  | count + 1, start, values, events =>
    match r bytes start with
    | ⟨.ok a, middle, more⟩ =>
      replicateFrom r bytes count middle (a :: values) (more.reverse ++ events)
    | ⟨.error e, stop, more⟩ => ⟨.error e, stop, events.reverse ++ more⟩

def replicate (count : Nat) (r : Reader α) : Reader (List α) := fun bytes start =>
  replicateFrom r bytes count start [] []

def runAt (r : Reader α) (bytes : ByteArray) (start : Nat) : Outcome α :=
  (do seek start; r) bytes 0

end Reader

end RiteImage
