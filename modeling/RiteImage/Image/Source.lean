import RiteImage.Image.Basic

namespace RiteImage

inductive Entry
  | missing
  | directory
  | unreadable (reason : String)
  | file (bytes : ByteArray)

inductive LoadError
  | missing
  | directory
  | unreadable (reason : String)
  | empty
  | decode (cause : Cause)
  deriving DecidableEq

def LoadError.message (error : LoadError) (sites : Defect → Option Site := fun _ => none) :
    String :=
  match error with
  | .missing => "No such file or directory (os error 2)"
  | .directory => "No such device (os error 19)"
  | .unreadable reason => reason
  | .empty => "Provided input was empty"
  | .decode cause => cause.message sites

structure Source where
  bytes : ByteArray
  size_pos : 0 < bytes.size

namespace Source

def ofBytes (bytes : ByteArray) : Except LoadError Source :=
  if h : 0 < bytes.size then .ok ⟨bytes, h⟩ else .error .empty

def ofEntry : Entry → Except LoadError Source
  | .missing => .error .missing
  | .directory => .error .directory
  | .unreadable reason => .error (.unreadable reason)
  | .file bytes => ofBytes bytes

def slice (source : Source) (offset length : Nat) : Except Cause ByteArray :=
  if offset + length ≤ source.bytes.size then .ok (source.bytes.extract offset (offset + length))
  else .error (.truncated offset length (source.bytes.size - offset))

end Source

structure Loading where
  result : Except LoadError Image
  events : List Event

def Loading.ofSource (rules : Strictness) : Except LoadError Source → Loading
  | .error e => ⟨.error e, []⟩
  | .ok source =>
    match Image.decode rules source.bytes with
    | ⟨.ok image, _, events⟩ => ⟨.ok image, events⟩
    | ⟨.error e, _, events⟩ => ⟨.error (.decode e), events⟩

end RiteImage
