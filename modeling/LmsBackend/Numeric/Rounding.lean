import Mathlib.Data.Rat.Floor
import Mathlib.Tactic.FieldSimp
import Mathlib.Tactic.Linarith
import Mathlib.Tactic.Ring

/-!
# Rounding half up

A rounded number is compared with an integer without rounding.
-/

namespace Numeric

/-- The nearest integer, halves upwards. -/
def roundHalfUp (x : Rat) : Int := ⌊x + 1 / 2⌋

theorem roundHalfUp_mono {x y : Rat} (h : x ≤ y) : roundHalfUp x ≤ roundHalfUp y := by
  unfold roundHalfUp
  apply Int.floor_le_floor
  linarith

theorem le_roundHalfUp {k : Int} {x : Rat} : k ≤ roundHalfUp x ↔ (2 * k - 1 : Rat) ≤ 2 * x := by
  unfold roundHalfUp
  rw [Int.le_floor]
  constructor
  · intro h
    linarith
  · intro h
    linarith

@[simp] theorem roundHalfUp_intCast (k : Int) : roundHalfUp k = k := by
  apply le_antisymm
  · apply Int.lt_add_one_iff.mp
    by_contra h
    have hle := le_roundHalfUp.mp (Int.not_lt.mp h)
    push_cast at hle
    linarith
  · apply le_roundHalfUp.mpr
    linarith

theorem roundHalfUp_nonneg {x : Rat} (hx : 0 ≤ x) : 0 ≤ roundHalfUp x := by
  apply le_roundHalfUp.mpr
  push_cast
  linarith

end Numeric
