import Mathlib.Analysis.SpecialFunctions.Pow.Real
import Mathlib.Data.Rat.Floor

/-!
# The numbers the controller computes with

Clock readings, confidences and quality figures are floats in the source.
Every definition here takes the type `K` they live in as a parameter, so that
a theorem about exact arithmetic reads it as `ℝ` and a run can be evaluated
over `ℚ`.
-/

namespace Wifucked

/-- `0.5 ** x`, the only step of the source that leaves the field operations. -/
class HalfPow (K : Type) where
  halfPow : K → K

export HalfPow (halfPow)

noncomputable instance : HalfPow ℝ := ⟨fun x => (1 / 2 : ℝ) ^ x⟩

/-- Over `ℚ` only whole exponents have an exact value; others round down. -/
instance : HalfPow ℚ := ⟨fun x => (1 / 2 : ℚ) ^ ⌊x⌋⟩

/-- `int(x)` of a float: rounds towards zero. -/
def trunc {K : Type} [Ring K] [LinearOrder K] [FloorRing K] (x : K) : Int :=
  if 0 ≤ x then ⌊x⌋ else ⌈x⌉

@[simp] theorem trunc_intCast {K : Type} [Ring K] [LinearOrder K] [IsStrictOrderedRing K]
    [FloorRing K] (i : ℤ) : trunc (i : K) = i := by
  unfold trunc
  split
  · exact Int.floor_intCast i
  · exact Int.ceil_intCast i

theorem halfPow_real (x : ℝ) : halfPow x = (1 / 2 : ℝ) ^ x := rfl

theorem halfPow_real_pos (x : ℝ) : 0 < halfPow x := Real.rpow_pos_of_pos (by norm_num) x

@[simp] theorem halfPow_real_zero : halfPow (0 : ℝ) = 1 := Real.rpow_zero _

theorem halfPow_real_lt_one (h : 0 < x) : halfPow (x : ℝ) < 1 :=
  Real.rpow_lt_one (by norm_num) (by norm_num) h

theorem halfPow_real_add (x y : ℝ) : halfPow (x + y) = halfPow x * halfPow y :=
  Real.rpow_add (by norm_num) x y

theorem halfPow_real_anti (h : x ≤ y) : halfPow (y : ℝ) ≤ halfPow x :=
  Real.rpow_le_rpow_of_exponent_ge (by norm_num) (by norm_num) h

end Wifucked
