import Mathlib.Data.List.MinMax
import Mathlib.Data.List.Dedup
import Wifucked.Lib.Keyed
import Wifucked.Policy
import Wifucked.Atomics.Registry
import Wifucked.Probe

/-!
# The allocator

Decides which connection carries what, from what is present, what is believed
of its capacity, and what the classes ask for. Spending on a backup goes
through a dwell-based state machine.
-/

namespace Wifucked

variable {K : Type} [Field K] [LinearOrder K] [HalfPow K]

def bootstrapHeadroomBps : Int := 256000

structure ClassDemand where
  profileName : String
  downBps : Int
  upBps : Int
  constrained : Bool
  deriving DecidableEq, Repr

abbrev Demand := String → Option ClassDemand

inductive BackupState where
  | idle
  /-- Deficit seen; waiting out the activation dwell. -/
  | arming
  | active
  /-- Recovered; waiting out the recovery dwell. -/
  | releasing
  deriving DecidableEq, Repr

structure Share where
  atomicId : String
  profileName : String
  /-- 0 means not routed here. -/
  ceilingBps : Int
  deriving DecidableEq, Repr

structure Allocation where
  primaryId : Option String
  backupActive : Bool
  shares : List Share
  quiesced : List String
  deriving DecidableEq, Repr

def Share.sortKey (s : Share) : String ×ₗ String ×ₗ Int :=
  toLex (s.atomicId, toLex (s.profileName, s.ceilingBps))

def Allocation.key (a : Allocation) : Option String × Bool × List Share :=
  (a.primaryId, a.backupActive, a.shares.insertionSort fun s t => s.sortKey ≤ t.sortKey)

structure Hysteresis (K : Type) where
  state : BackupState
  since : K
  transitions : Nat
  lastLiveness : Keyed (String × K) Prod.fst

structure DecisionRecord (K : Type) where
  action : String
  reason : String
  normalCapacityBps : Int
  criticalDemandBps : Int
  deficitBps : Int
  primaryId : Option String
  backupState : BackupState
  thresholds : Thresholds K

structure Allocator (K : Type) where
  t : Thresholds K
  profiles : List ServiceProfile
  h : Hysteresis K
  last : Option Allocation

structure DecideInput (K : Type) where
  now : K
  atomics : List (Atomic K)
  demand : Demand

namespace Allocator

def init (thresholds : Thresholds K) (profiles : List ServiceProfile) (now : K) : Allocator K where
  t := thresholds
  profiles := profiles
  h := { state := .idle, since := now, transitions := 0, lastLiveness := .empty }
  last := none

-- ---------------------------------------------------------------------------
-- Hysteresis
-- ---------------------------------------------------------------------------

def enter (h : Hysteresis K) (state : BackupState) (now : K) : Hysteresis K :=
  if state = h.state then h else { h with state, since := now }

def inDeficit (t : Thresholds K) (deficit : Int) : Prop := deficit > t.activationDeficitBps

def recovered (t : Thresholds K) (normalCapacity criticalDemand : Int) : Prop :=
  normalCapacity ≥ criticalDemand + t.recoveryMarginBps

def haveBackup (backups : List (Atomic K)) : Prop := ∃ b ∈ backups, b.health ≠ .down

instance (t : Thresholds K) : Decidable (inDeficit t deficit) := inferInstanceAs (Decidable (_ > _))

instance (t : Thresholds K) : Decidable (recovered t normalCapacity criticalDemand) :=
  inferInstanceAs (Decidable (_ ≥ _))

instance (backups : List (Atomic K)) : Decidable (haveBackup backups) :=
  inferInstanceAs (Decidable (∃ b ∈ _, _))

def stepHysteresis (t : Thresholds K) (h : Hysteresis K) (now : K)
    (deficit normalCapacity criticalDemand : Int) (backups : List (Atomic K)) : Hysteresis K :=
  let elapsed := now - h.since
  match h.state with
  | .idle =>
    if inDeficit t deficit ∧ haveBackup backups then enter h .arming now else h
  | .arming =>
    if ¬inDeficit t deficit ∨ ¬haveBackup backups then enter h .idle now
    else if elapsed ≥ t.activationDwellS then
      { enter h .active now with transitions := h.transitions + 1 }
    else h
  | .active =>
    -- Nothing is left to release once the backup is gone.
    if ¬haveBackup backups then enter h .idle now
    else if recovered t normalCapacity criticalDemand then enter h .releasing now
    else h
  | .releasing =>
    if ¬recovered t normalCapacity criticalDemand then enter h .arming now
    else if elapsed ≥ t.recoveryDwellS then
      { enter h .idle now with transitions := h.transitions + 1 }
    else h

-- ---------------------------------------------------------------------------
-- Helpers
-- ---------------------------------------------------------------------------

def confident (t : Thresholds K) (a : Atomic K) (now : K) : Bool :=
  t.minConfidence ≤ decayConfidence a.capacity now

/-- The capacity of one NORMAL connection we are willing to believe; one that
was never measured gets enough to open a first route. -/
def believedBps (t : Thresholds K) (a : Atomic K) (now : K) : Int :=
  if confident t a now then a.capacity.downBps
  else if a.capacity.measuredAt = none then bootstrapHeadroomBps
  else 0

def usableCapacity (t : Thresholds K) (pool : List (Atomic K)) (now : K) : Int :=
  (pool.map fun a => believedBps t a now).sum

/-- `rtt_ms or 9999`, where a zero counts as missing too. -/
def rttOr9999 (q : Quality K) : K :=
  match q.rttMs with
  | none => 9999
  | some rtt => if rtt = 0 then 9999 else rtt

-- Without these the lattice the real numbers put on `Int` is found first, and it does not compute.
local instance : PartialOrder Int := Int.instLinearOrder.toPartialOrder

local instance : Preorder Int := Int.instLinearOrder.toPreorder

def bestKey (t : Thresholds K) (now : K) (a : Atomic K) : Bool ×ₗ Int ×ₗ K :=
  toLex (confident t a now, toLex (a.capacity.downBps, -rttOr9999 a.quality))

/-- The best NORMAL connection: failover, not aggregation. -/
def best (t : Thresholds K) (pool : List (Atomic K)) (now : K) : Option (Atomic K) :=
  let good := pool.filter fun a => a.health = .good
  let healthy := if good = [] then pool else good
  healthy.argmax (bestKey t now)

def chosenBackup (backups : List (Atomic K)) : Option (Atomic K) :=
  (backups.filter fun b => b.health ≠ .down).argmax (·.capacity.downBps)

def demandFor (profiles : List ServiceProfile) (demand : Demand) (priority : Priority) : Int :=
  (profiles.map fun p =>
    if p.priority = priority then ((demand p.name).map (·.downBps)).getD 0 else 0).sum

def primaryShares (id : String) (demand : Demand) : Int → List ServiceProfile → List Share
  | _, [] => []
  | headroom, p :: ps =>
    let wantBps := ((demand p.name).map fun want => max want.downBps want.upBps).getD 0
    let give := if headroom ≠ 0 then min wantBps headroom else 0
    ⟨id, p.name, give⟩ :: primaryShares id demand (max 0 (headroom - give)) ps

def backupShares (id : String) (demand : Demand) (profiles : List ServiceProfile) : List Share :=
  profiles.map fun p =>
    ⟨id, p.name, if p.mayUseBackup then ((demand p.name).map (·.downBps)).getD 0 else 0⟩

/-- A backup promoted to primary gets its shares as a backup only. -/
def normalShares (profiles : List ServiceProfile) (primary backup : Option (Atomic K))
    (normalCapacity : Int) (demand : Demand) : List Share :=
  match primary with
  | none => []
  | some p =>
    if primary ≠ backup then
      primaryShares p.id demand (max 0 normalCapacity)
        (profiles.insertionSort fun p q => p.priority.value ≤ q.priority.value)
    else []

def spendingShares (profiles : List ServiceProfile) (backup : Option (Atomic K))
    (backupActive : Bool) (demand : Demand) : List Share :=
  match backup with
  | none => []
  | some b => if backupActive then backupShares b.id demand profiles else []

def quiescedIds (pool : List (Atomic K)) (primary backup : Option (Atomic K))
    (backupActive : Bool) : List String :=
  let resting := if backupActive then [] else (backup.map (·.id)).toList
  let passedOver := (pool.filter fun a => some a.id ≠ primary.map (·.id)).map (·.id)
  (resting ++ passedOver).dedup.insertionSort (· ≤ ·)

def build (profiles : List ServiceProfile) (pool : List (Atomic K))
    (primary backup : Option (Atomic K)) (backupActive : Bool) (normalCapacity : Int)
    (demand : Demand) : Allocation where
  primaryId := primary.map (·.id)
  backupActive := backupActive
  shares := normalShares profiles primary backup normalCapacity demand ++
    spendingShares profiles backup backupActive demand
  quiesced := quiescedIds pool primary backup backupActive

def record (t : Thresholds K) (state : BackupState) (allocation : Allocation)
    (normalCapacity criticalDemand deficit : Int) : DecisionRecord K :=
  let (action, reason) :=
    if allocation.backupActive then
      ("activate_backup", "NORMAL capacity below critical demand beyond the activation threshold")
    else if state = .arming then
      ("arming_backup",
        "NORMAL capacity below critical demand; BACKUP arming, dwell not yet elapsed")
    else if allocation.primaryId = none then
      ("no_connectivity", "no usable NORMAL or BACKUP connection")
    else ("allocate_normal", "NORMAL capacity is sufficient for critical demand")
  { action := action
    reason := reason
    normalCapacityBps := normalCapacity
    criticalDemandBps := criticalDemand
    deficitBps := deficit
    primaryId := allocation.primaryId
    backupState := state
    thresholds := t }

-- ---------------------------------------------------------------------------
-- Deciding
-- ---------------------------------------------------------------------------

def poolOf (atomics : List (Atomic K)) : List (Atomic K) := atomics.filter (·.inNormalPool)

def backupsOf (atomics : List (Atomic K)) : List (Atomic K) :=
  atomics.filter fun a => a.mode = .backup && a.present

def startLiveness (now : K) (lastLiveness : Keyed (String × K) Prod.fst) (backup : Atomic K) :
    Keyed (String × K) Prod.fst :=
  match lastLiveness.get? backup.id with
  | none => lastLiveness.put (backup.id, now)
  | some _ => lastLiveness

def normalCapacity (a : Allocator K) (i : DecideInput K) : Int :=
  usableCapacity a.t (poolOf i.atomics) i.now

def criticalDemand (a : Allocator K) (i : DecideInput K) : Int :=
  demandFor a.profiles i.demand .critical

def baseline (a : Allocator K) (i : DecideInput K) : Hysteresis K :=
  { a.h with lastLiveness := (backupsOf i.atomics).foldl (startLiveness i.now) a.h.lastLiveness }

def nextHysteresis (a : Allocator K) (i : DecideInput K) : Hysteresis K :=
  stepHysteresis a.t (a.baseline i) i.now (a.criticalDemand i - a.normalCapacity i)
    (a.normalCapacity i) (a.criticalDemand i) (backupsOf i.atomics)

def backupOf (i : DecideInput K) : Option (Atomic K) := chosenBackup (backupsOf i.atomics)

def backupActiveIn (state : BackupState) (i : DecideInput K) : Bool :=
  state = .active && (backupOf i).isSome

def primaryOf (a : Allocator K) (state : BackupState) (i : DecideInput K) : Option (Atomic K) :=
  (best a.t (poolOf i.atomics) i.now).or (if backupActiveIn state i then backupOf i else none)

def allocate (a : Allocator K) (state : BackupState) (i : DecideInput K) : Allocation :=
  build a.profiles (poolOf i.atomics) (a.primaryOf state i) (backupOf i) (backupActiveIn state i)
    (a.normalCapacity i) i.demand

def decide (a : Allocator K) (i : DecideInput K) : Allocator K :=
  let h := a.nextHysteresis i
  { a with h, last := some (a.allocate h.state i) }

def recordOf (a : Allocator K) (i : DecideInput K) : Option (DecisionRecord K) :=
  let h := a.nextHysteresis i
  let allocation := a.allocate h.state i
  if a.last.map (·.key) ≠ some allocation.key then
    some (record a.t h.state allocation (a.normalCapacity i) (a.criticalDemand i)
      (a.criticalDemand i - a.normalCapacity i))
  else none

-- ---------------------------------------------------------------------------
-- Liveness
-- ---------------------------------------------------------------------------

def dueForLiveness (a : Allocator K) (now : K) (atomic : Atomic K) : Bool :=
  atomic.mode = .backup && atomic.present && a.h.state ≠ .active &&
    match a.h.lastLiveness.get? atomic.id with
    | none => false
    | some (_, last) => now - last ≥ a.t.livenessIntervalS

def markLivenessProbed (a : Allocator K) (now : K) (atomic : Atomic K) : Allocator K :=
  { a with h := { a.h with lastLiveness := a.h.lastLiveness.put (atomic.id, now) } }

end Allocator

end Wifucked
