import RiteImage.Reader.Forward

namespace RiteImage

structure Strictness where
  enforceSizes : Bool := false
  enforceMagic : Bool := false
  /-- The greatest depth of a record below the root of its tree. -/
  depthLimit : Nat := 128
  deriving DecidableEq

namespace Strictness

def lenient : Strictness := {}

def strict : Strictness := { enforceSizes := true, enforceMagic := true }

def withDepthLimit (rules : Strictness) (depthLimit : Nat) : Strictness := { rules with depthLimit }

end Strictness

def checkSize (rules : Strictness) (part : Part) (start : Nat) (declared : UInt32) :
    Reader Unit := do
  let stop ← Reader.position
  Reader.require (!rules.enforceSizes || stop - start = declared.toNat)
    (.malformed (.sizeMismatch part start declared.toNat (stop - start)))

instance (rules : Strictness) (part : Part) (start : Nat) (declared : UInt32) :
    Reader.Forward (checkSize rules part start declared) := by
  unfold checkSize; infer_instance

end RiteImage
