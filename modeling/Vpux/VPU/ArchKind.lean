import Vpux.Const.Types

/-! The architectures, and what `utils/swizzling_utils.cpp` knows of them. -/
namespace Vpux.VPU
open Vpux.Const

inductive ArchKind where
  | UNKNOWN
  | VPUX30XX
  | VPUX37XX
  deriving DecidableEq, Repr

def SWIZZLING_SIZE_ALIGNMENT_VPUX37XX : ℕ := 512

def getSizeAlignmentForSwizzling : ArchKind → Except Fault ℕ
  | .VPUX37XX => .ok SWIZZLING_SIZE_ALIGNMENT_VPUX37XX
  | _ => .error (.exception "Architecture does not support swizzling")

def alignSizeForSwizzling (size : ℕ) (archKind : ArchKind) : Except Fault ℕ := do
  let swizzlingSizeAlignment ← getSizeAlignmentForSwizzling archKind
  .ok (if size % swizzlingSizeAlignment ≠ 0 then
    size + (swizzlingSizeAlignment - size % swizzlingSizeAlignment)
  else size)

theorem alignSizeForSwizzling_eq (size : ℕ) :
    alignSizeForSwizzling size .VPUX37XX = .ok ((size + 511) / 512 * 512) := by
  change Except.ok (if size % 512 ≠ 0 then size + (512 - size % 512) else size) = _
  congr 1
  split <;> omega

end Vpux.VPU
