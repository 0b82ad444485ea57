import Mathlib.Tactic.Linarith
import Wifucked.Probe

/-!
# Hints from history

A hint stands in for an estimate where nothing has been measured. Its confidence
is capped, and a measurement's begins at what was left of the one before it.
-/

namespace Wifucked

variable {K : Type} [Field K] [LinearOrder K]

structure HistoricalHint (K : Type) where
  atomicId : String
  downBps : Int
  upBps : Int
  confidence : K
  basis : String

def blend (measured : Capacity K) (hint : Option (HistoricalHint K)) : Capacity K :=
  if measured.known then measured
  else
    match hint with
    | none => measured
    | some hint =>
      { downBps := hint.downBps
        upBps := hint.upBps
        confidence := min hint.confidence 0.4
        measuredAt := measured.measuredAt }

theorem blend_of_unknown {measured : Capacity K} (h : measured.known = false)
    (hint : HistoricalHint K) :
    (blend measured (some hint)).confidence = min hint.confidence 0.4 := by
  rw [blend, if_neg (by simp [h])]

variable [FloorRing K] [HalfPow K]

theorem confidence_fold_saturated {o : Observation K} (h : o.saturated = true) (c : Capacity K)
    (now : K) : (fold c o now).confidence = min 1 (decayConfidence c now + 0.3) := by
  simp [fold, h]

variable [IsStrictOrderedRing K]

/-- A recollection is trusted less than a measurement exactly where the hint is,
or where more than the difference of the cap and the least measurement is left of
the estimate that was measured before. -/
theorem blend_lt_fold_iff {unmeasured : Capacity K} (h : unmeasured.known = false)
    (hint : HistoricalHint K) (c : Capacity K) {o : Observation K} (hsat : o.saturated = true)
    (now : K) :
    (blend unmeasured (some hint)).confidence < (fold c o now).confidence ↔
      hint.confidence < decayConfidence c now + 0.3 ∨ 0.1 < decayConfidence c now := by
  rw [blend_of_unknown h, confidence_fold_saturated hsat, lt_min_iff, min_lt_iff, min_lt_iff]
  have hone : (0.4 : K) < 1 := by norm_num
  have hcap : 0.4 < decayConfidence c now + 0.3 ↔ 0.1 < decayConfidence c now := by
    constructor <;>
    · intro hlt
      norm_num at hlt ⊢
      linarith
  rw [hcap]
  exact and_iff_right (.inr hone)

def campsite (confidence : ℚ) : HistoricalHint ℚ where
  atomicId := "wifi:campsite"
  downBps := 40000000
  upBps := 10000000
  confidence := confidence
  basis := ""

def busy : Observation ℚ where
  atomicId := "wifi:campsite"
  downBps := 2000000
  upBps := 500000
  rttMs := none
  jitterMs := none
  lossPct := none
  bloatMs := none
  saturated := true

theorem vague_hint_below :
    (blend (.unmeasured : Capacity ℚ) (some (campsite (1 / 5)))).confidence <
      (fold .unmeasured busy 0).confidence :=
  (blend_lt_fold_iff rfl (campsite (1 / 5)) .unmeasured rfl 0).mpr (by decide +kernel)

/-- The first measurement is trusted less than a hint that is sure. -/
theorem sure_hint_above :
    ¬(blend (.unmeasured : Capacity ℚ) (some (campsite 1))).confidence <
      (fold .unmeasured busy 0).confidence := by
  decide +kernel

end Wifucked
