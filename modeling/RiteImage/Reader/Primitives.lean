import RiteImage.Strictness

/-! Steps that readers of records are put together from.
A record is the same sequence of steps whatever its positions are counted in. -/
namespace RiteImage

structure Primitives (m : Type → Type) (Position : Type) where
  position : m Position
  offset : Position → Nat
  fail : {α : Type} → Cause → m α
  require : Bool → Cause → m Unit
  log : Event → m Unit
  u8 : m UInt8
  u16 : m UInt16
  u32 : m UInt32
  tag : m Tag
  take : UInt16 → m ByteArray
  skipByte : m Unit
  alignWord : m Unit
  replicate : {α : Type} → Nat → m α → m (List α)
  checkSize : Strictness → Part → Position → UInt32 → m Unit

@[reducible] def Reader.primitives : Primitives Reader Nat where
  position := position
  offset start := start
  fail := fail
  require := require
  log := log
  u8 := u8
  u16 := u16
  u32 := u32
  tag := tag
  take length := take length.toNat
  skipByte := skip 1
  alignWord := align 4
  replicate := replicate
  checkSize := RiteImage.checkSize

end RiteImage
