import Wifucked.Clock
import Wifucked.Atomics.Model

/-!
# Capacity estimates and how they age

An estimate is folded from observations and loses confidence with age. Only a
saturated observation says anything about capacity.
-/

namespace Wifucked

variable {K : Type} [Field K] [LinearOrder K] [FloorRing K] [HalfPow K]

def confidenceHalfLifeS (K : Type) [DivisionRing K] : K := 1800

structure Observation (K : Type) where
  atomicId : String
  downBps : Int
  upBps : Int
  rttMs : Option K
  jitterMs : Option K
  lossPct : Option K
  bloatMs : Option K
  /-- Whether the link was busy; an idle link says nothing about capacity. -/
  saturated : Bool
  deriving DecidableEq

def decayConfidence (capacity : Capacity K) (now : K) : K :=
  match capacity.measuredAt with
  | none => 0
  | some measuredAt =>
    if capacity.known then
      capacity.confidence * halfPow (max 0 (now - measuredAt) / confidenceHalfLifeS K)
    else 0

/-- `int(old * (1 - weight) + new * weight)`. -/
def ewma (weight : K) (old new : Int) : Int := trunc ((old : K) * (1 - weight) + (new : K) * weight)

def fold (capacity : Capacity K) (observation : Observation K) (now : K) : Capacity K :=
  let decayed := decayConfidence capacity now
  if observation.saturated then
    let weight : K := if 0.5 < decayed then 0.4 else 0.7
    { downBps := ewma weight capacity.downBps observation.downBps
      upBps := ewma weight capacity.upBps observation.upBps
      confidence := min 1 (decayed + 0.3)
      measuredAt := some now }
  else
    { capacity with confidence := decayed }

def qualityOf (observation : Observation K) : Quality K where
  rttMs := observation.rttMs
  jitterMs := observation.jitterMs
  lossPct := observation.lossPct
  bloatMs := observation.bloatMs

end Wifucked
