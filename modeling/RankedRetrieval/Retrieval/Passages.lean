import RankedRetrieval.Failure
import RankedRetrieval.Setting.Levels
import RankedRetrieval.Span.Basic

set_option autoImplicit false

namespace RankedRetrieval

def maxPosition : Nat := 0xFFFFFFFF

structure PassageScheme where
  size : Nat
  shift : Nat
  size_pos : 0 < size
  shift_pos : 0 < shift

namespace PassageScheme

/-- The passages from `start` on. Positions do not go beyond the largest. -/
def passagesFrom (s : PassageScheme) (length : Nat) (bounded : length ≤ maxPosition)
    (start : Nat) : List Span :=
  let stop := min (min (start + s.size) maxPosition) length
  if _last : length ≤ stop then [{ start, stop }]
  else { start, stop } :: s.passagesFrom length bounded (min (start + s.shift) maxPosition)
termination_by length - start
decreasing_by
  have := s.size_pos
  have := s.shift_pos
  omega

def passages (s : PassageScheme) (length : Nat) : List Span :=
  s.passagesFrom (min length maxPosition) (Nat.min_le_right _ _) 0

def clamp (n : Nat) : Nat := min n maxPosition

theorem clamp_pos {n : Nat} (h : n ≠ 0) : 0 < clamp n := by
  unfold clamp maxPosition
  omega

def ofSettings (levels : List Parameters) : Except QueryError PassageScheme :=
  let size := Setting.value levels Json.asCount "passageSize" 100
  let shift := Setting.value levels Json.asCount "passageShift" 50
  if hs : size = 0 then .error (.invalidConfig (.notPositive "passageSize"))
  else if ht : shift = 0 then .error (.invalidConfig (.notPositive "passageShift"))
  else
    .ok
      { size := clamp size
        shift := clamp shift
        size_pos := clamp_pos hs
        shift_pos := clamp_pos ht }

end PassageScheme

end RankedRetrieval
