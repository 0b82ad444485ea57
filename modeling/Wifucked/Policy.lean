import Mathlib.Algebra.Field.Defs
import Mathlib.Order.Nat

/-!
# Service profiles and thresholds

What the user wants protected, and the tunables of the allocator.
-/

namespace Wifucked

inductive Priority where
  | critical
  | bestEffort
  deriving DecidableEq, Repr

/-- The enumeration's numbers: lower is protected first. -/
def Priority.value : Priority → Nat
  | .critical => 1
  | .bestEffort => 2

structure ServiceProfile where
  name : String
  priority : Priority
  /-- Whether this class may cause a metered connection to activate. -/
  mayUseBackup : Bool
  vlan : Int
  dscp : Nat
  ssidSuffix : String
  deriving DecidableEq, Repr

def critical : ServiceProfile where
  name := "Stable_critical"
  priority := .critical
  mayUseBackup := true
  vlan := 10
  dscp := 0x2E
  ssidSuffix := "critical"

def bestEffort : ServiceProfile where
  name := "Stable_besteffort"
  priority := .bestEffort
  mayUseBackup := false
  vlan := 20
  dscp := 0x00
  ssidSuffix := "besteffort"

def defaultProfiles : List ServiceProfile := [critical, bestEffort]

/-- All a single undifferentiated hotspot can offer. -/
def singleLanProfiles : List ServiceProfile := [bestEffort]

def profilesForLanMode (lanMode : String) : List ServiceProfile :=
  if lanMode = "single" then singleLanProfiles else defaultProfiles

theorem bestEffort_mem_profilesForLanMode (lanMode : String) :
    bestEffort ∈ profilesForLanMode lanMode := by
  unfold profilesForLanMode
  split <;> simp [singleLanProfiles, defaultProfiles]

structure Thresholds (K : Type) where
  activationDeficitBps : Int
  activationDwellS : K
  recoveryMarginBps : Int
  recoveryDwellS : K
  degradedRttMs : K
  degradedLossPct : K
  livenessIntervalS : K
  livenessBytes : Int
  minConfidence : K
  deriving DecidableEq

def Thresholds.defaults (K : Type) [DivisionRing K] : Thresholds K where
  activationDeficitBps := 500000
  activationDwellS := 120
  recoveryMarginBps := 1000000
  recoveryDwellS := 300
  degradedRttMs := 400
  degradedLossPct := 5
  livenessIntervalS := 900
  livenessBytes := 300
  minConfidence := 1 / 4

end Wifucked
