import Mathlib.Algebra.Ring.Int.Defs

/-!
# Time values

A `TimeTicks` or `TimeDelta` is one `int64` of microseconds in the source and an
`Int` here. Sums saturate (`SaturatedAdd`), so no sum of in-range values wraps.
The null `TimeTicks` is zero.
-/

namespace Mdgate.Base

def int64Max : Int := 2 ^ 63 - 1

def TimeTicks.isNull (t : Int) : Bool := t == 0

@[simp] theorem TimeTicks.isNull_zero : TimeTicks.isNull 0 = true := rfl

@[simp] theorem TimeTicks.isNull_iff {t : Int} : TimeTicks.isNull t = true ↔ t = 0 := by
  simp [TimeTicks.isNull]

@[simp] theorem TimeTicks.isNull_eq_false {t : Int} : TimeTicks.isNull t = false ↔ t ≠ 0 := by
  simp [TimeTicks.isNull]

/-- `TimeDelta::SaturatedAdd`: overflow gives the maximum, underflow its negation. -/
def TimeDelta.saturatedAdd (delta value : Int) : Int :=
  let sum := delta + value
  if sum < -2 ^ 63 then -int64Max else if int64Max < sum then int64Max else sum

/-- `TimeDelta::InMilliseconds`: C++ division truncates. -/
def TimeDelta.inMilliseconds (delta : Int) : Int :=
  if delta == int64Max then int64Max else delta.tdiv 1000

def minLowResolutionThresholdMs : Int := 16

end Mdgate.Base
