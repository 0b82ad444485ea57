import Wifucked.Lib.Runs
import Wifucked.Allocator
import Wifucked.Atomics.Registry
import Wifucked.Enforce.Render
import Wifucked.LanOut
import Wifucked.Probe
import Wifucked.Tunnel

/-!
# The daemon

The state the loops share, what each part of a loop does to it, and the loops
themselves. `step` takes the daemon's actions one at a time, in any order and
with the user's calls in between; `acts_tick` reads one pass of the scheduler
as such actions. A user's call that lands while an action runs has the effect
of one right before or after it, for no action writes back a mode that it read
to the registry. `persist` is one step here, from the snapshot to the file.
-/

namespace Wifucked

structure Config (K : Type) where
  thresholds : Thresholds K
  lanMode : String
  lanOutEnabled : Bool
  gatewayPrefix : String
  baseThirdOctet : Int
  tunnelInterface : String
  /-- Whether there is a state file. -/
  persist : Bool

structure Daemon (K : Type) where
  config : Config K
  registry : Registry K
  file : Option (StateFile K)
  lanOutClassifier : Option (LanOutClassifier K)
  /-- Outcomes the classifier returned that are not applied yet. -/
  outcomes : List ClassificationOutcome
  allocator : Allocator K
  allocation : Option Allocation
  tunnel : Tunnel
  /-- What the last fast loop handed to the enforcer. -/
  handed : Option DesiredState

structure Reading (K : Type) where
  now : K
  wall : K

structure World (K : Type) where
  discovered : List (Atomic K)
  pipelines : String → Option PipelineEnd
  prober : Atomic K → Option (Observation K)
  demand : Demand
  tunnel : TunnelEnv

variable {K : Type} [Field K] [LinearOrder K] [FloorRing K] [HalfPow K]

namespace Daemon

def profiles (d : Daemon K) : List ServiceProfile := profilesForLanMode d.config.lanMode

/-- `Daemon.__init__`, over the state file an earlier process left. -/
def init (config : Config K) (file : Option (StateFile K)) (r : Reading K) : Daemon K :=
  let file := if config.persist then file else none
  { config := config
    registry := (file.map fun f => Registry.load f r.now r.wall).getD .empty
    file := file
    lanOutClassifier :=
      if config.lanOutEnabled then
        some (LanOutClassifier.init config.gatewayPrefix config.baseThirdOctet)
      else none
    outcomes := []
    allocator := Allocator.init config.thresholds (profilesForLanMode config.lanMode) r.now
    allocation := none
    tunnel := Tunnel.init config.tunnelInterface
    handed := none }

-- ---------------------------------------------------------------------------
-- Steps
-- ---------------------------------------------------------------------------

def persist (d : Daemon K) (r : Reading K) : Daemon K :=
  if d.config.persist then { d with file := some (Registry.persist d.registry r.now r.wall) } else d

/-- `Registry.set_mode`, which persists what it changed. -/
def setMode (d : Daemon K) (r : Reading K) (id : String) (mode : Mode) : Daemon K :=
  match d.registry.get? id with
  | none => d
  | some _ => persist { d with registry := d.registry.setMode id mode } r

def setRoleAndMode (d : Daemon K) (r : Reading K) (id : String) (role : PortRole) (mode : Mode) :
    Daemon K :=
  match d.registry.get? id with
  | none => d
  | some _ => persist { d with registry := d.registry.setRoleAndMode id role mode } r

def discoverOnce (d : Daemon K) (r : Reading K) (seen : List (Atomic K)) : Daemon K :=
  { d with registry := d.registry.observe r.now seen }

def considerPorts (d : Daemon K) (pipelines : String → Option PipelineEnd) : Daemon K :=
  match d.lanOutClassifier with
  | none => d
  | some c =>
    let (c, outcomes) := c.consider d.registry.all pipelines
    { d with lanOutClassifier := some c, outcomes := d.outcomes ++ outcomes }

def applyOutcome (d : Daemon K) (r : Reading K) : Daemon K :=
  match d.outcomes with
  | [] => d
  | o :: outcomes => setRoleAndMode { d with outcomes } r o.atomicId o.role o.mode

def applyOutcomes (d : Daemon K) (r : Reading K) : ℕ → Daemon K
  | 0 => d
  | n + 1 => applyOutcomes (d.applyOutcome r) r n

def classifyLanOutPorts (d : Daemon K) (r : Reading K) (pipelines : String → Option PipelineEnd) :
    Daemon K :=
  let d := d.considerPorts pipelines
  d.applyOutcomes r d.outcomes.length

def healthOf (t : Thresholds K) (observation : Observation K) : Health :=
  if observation.rttMs.any (t.degradedRttMs < ·) then .degraded
  else if observation.lossPct.any (t.degradedLossPct < ·) then .degraded
  else .good

/-- One connection of a measuring pass, as the pass read it at its start. -/
def measureOne (d : Daemon K) (r : Reading K) (atomic : Atomic K) (observation : Observation K) :
    Daemon K :=
  let registry := d.registry.updateCapacity atomic.id (fold atomic.capacity observation r.now)
  let registry := Registry.setQuality registry atomic.id (qualityOf observation)
  let registry := registry.updateHealth atomic.id (healthOf d.config.thresholds observation)
  { d with registry }

def measure (d : Daemon K) (r : Reading K) (prober : Atomic K → Option (Observation K)) :
    Daemon K :=
  d.registry.present.foldl
    (fun d atomic =>
      match prober atomic with
      | none => d
      | some observation => d.measureOne r atomic observation) d

def decide (d : Daemon K) (r : Reading K) (demand : Demand) : Daemon K :=
  let allocator := d.allocator.decide ⟨r.now, d.registry.all, demand⟩
  { d with allocator, allocation := allocator.last }

def spendOn (r : Reading K) (d : Daemon K) (atomic : Atomic K) : Daemon K :=
  if d.allocator.dueForLiveness r.now atomic then
    { d with
      allocator := d.allocator.markLivenessProbed r.now atomic
      registry := d.registry.addCost atomic.id 0 d.config.thresholds.livenessBytes }
  else d

def spendLivenessBudget (d : Daemon K) (r : Reading K) : Daemon K :=
  d.registry.backups.foldl (spendOn r) d

def bindTunnel (d : Daemon K) (env : TunnelEnv) (byId : Registry K) : Daemon K :=
  match (d.allocation.bind (·.primaryId)).bind byId.get? with
  | none => d
  | some primary =>
    match primary.iface with
    | none => d
    | some ifname => { d with tunnel := (d.tunnel.bindTo env primary.id ifname).1 }

/-- An error of `render` leaves the loop before anything is enforced. -/
def fastLoop (d : Daemon K) (env : TunnelEnv) : Daemon K :=
  match d.allocation with
  | none => d
  | some allocation =>
    match render allocation d.registry.byId d.profiles d.tunnel.interface with
    | .error _ => { d with handed := none }
    | .ok desired => bindTunnel { d with handed := some desired } env d.registry.byId

def mediumLoop (d : Daemon K) (r : Reading K) (w : World K) : Daemon K :=
  ((((d.discoverOnce r w.discovered).classifyLanOutPorts r w.pipelines).measure r w.prober).decide
    r w.demand).spendLivenessBudget r

def restart (d : Daemon K) (r : Reading K) : Daemon K := init d.config d.file r

-- ---------------------------------------------------------------------------
-- The scheduler
-- ---------------------------------------------------------------------------

structure Loops (K : Type) where
  fastS : K
  mediumS : K
  slowS : K

structure Next (K : Type) where
  fast : K
  medium : K
  slow : K

/-- One pass: whichever loops are due, the medium one before the fast one. -/
def tick (loops : Loops K) (next : Next K) (d : Daemon K) (r : Reading K) (w : World K) :
    Next K × Daemon K :=
  let d := if next.medium ≤ r.now then d.mediumLoop r w else d
  let d := if next.fast ≤ r.now then d.fastLoop w.tunnel else d
  let d := if next.slow ≤ r.now then d.persist r else d
  ({ medium := if next.medium ≤ r.now then r.now + loops.mediumS else next.medium
     fast := if next.fast ≤ r.now then r.now + loops.fastS else next.fast
     slow := if next.slow ≤ r.now then r.now + loops.slowS else next.slow }, d)

-- ---------------------------------------------------------------------------
-- One action at a time
-- ---------------------------------------------------------------------------

end Daemon

inductive Action (K : Type) where
  | discover (seen : List (Atomic K))
  | consider (pipelines : String → Option PipelineEnd)
  | applyOutcome
  | measure (atomic : Atomic K) (observation : Observation K)
  | decide (demand : Demand)
  | spend (atomic : Atomic K)
  | fast (env : TunnelEnv)
  | persist
  | setMode (id : String) (mode : Mode)
  | restart

structure Event (K : Type) where
  reading : Reading K
  action : Action K

namespace Daemon

def step (d : Daemon K) (e : Event K) : Daemon K :=
  match e.action with
  | .discover seen => d.discoverOnce e.reading seen
  | .consider pipelines => d.considerPorts pipelines
  | .applyOutcome => d.applyOutcome e.reading
  | .measure atomic observation => d.measureOne e.reading atomic observation
  | .decide demand => d.decide e.reading demand
  | .spend atomic => spendOn e.reading d atomic
  | .fast env => d.fastLoop env
  | .persist => d.persist e.reading
  | .setMode id mode => d.setMode e.reading id mode
  | .restart => d.restart e.reading

/-- What the daemon does by itself: neither a user's call nor a restart. -/
def Event.own (e : Event K) : Prop :=
  match e.action with
  | .setMode .. | .restart => False
  | _ => True

def Acts (d d' : Daemon K) : Prop :=
  ∃ es, (∀ e ∈ es, Event.own e) ∧ Runs.exec step d es = d'

theorem Acts.refl (d : Daemon K) : Acts d d := ⟨[], by simp, rfl⟩

theorem Acts.trans {a b c : Daemon K} (h : Acts a b) (h' : Acts b c) : Acts a c := by
  obtain ⟨es, hes, rfl⟩ := h
  obtain ⟨fs, hfs, rfl⟩ := h'
  refine ⟨es ++ fs, fun e he => ?_, Runs.exec_append step a es fs⟩
  rcases List.mem_append.mp he with he | he
  · exact hes e he
  · exact hfs e he

theorem acts_step (d : Daemon K) {e : Event K} (h : Event.own e) : Acts d (d.step e) :=
  ⟨[e], by simpa using h, rfl⟩

theorem acts_foldl {α : Type} {f : Daemon K → α → Daemon K} (hf : ∀ d a, Acts d (f d a))
    (l : List α) (d : Daemon K) : Acts d (l.foldl f d) := by
  induction l generalizing d with
  | nil => exact .refl d
  | cons a l ih => exact (hf d a).trans (ih (f d a))

theorem acts_applyOutcomes (d : Daemon K) (r : Reading K) (n : ℕ) :
    Acts d (d.applyOutcomes r n) := by
  induction n generalizing d with
  | zero => exact .refl d
  | succ n ih => exact (acts_step d (e := ⟨r, .applyOutcome⟩) trivial).trans (ih _)

theorem acts_mediumLoop (d : Daemon K) (r : Reading K) (w : World K) :
    Acts d (d.mediumLoop r w) := by
  have hdiscover := acts_step d (e := ⟨r, .discover w.discovered⟩) trivial
  refine hdiscover.trans ?_
  have hclassify : ∀ d : Daemon K, Acts d (d.classifyLanOutPorts r w.pipelines) := fun d =>
    (acts_step d (e := ⟨r, .consider w.pipelines⟩) trivial).trans (acts_applyOutcomes _ r _)
  have hmeasure : ∀ d : Daemon K, Acts d (d.measure r w.prober) := fun d =>
    acts_foldl (fun d a => by
      cases w.prober a with
      | none => exact .refl d
      | some o => exact acts_step d (e := ⟨r, .measure a o⟩) trivial) _ d
  have hdecide : ∀ d : Daemon K, Acts d (d.decide r w.demand) := fun d =>
    acts_step d (e := ⟨r, .decide w.demand⟩) trivial
  have hspend : ∀ d : Daemon K, Acts d (d.spendLivenessBudget r) := fun d =>
    acts_foldl (fun d a => acts_step d (e := ⟨r, .spend a⟩) trivial) _ d
  exact (((hclassify _).trans (hmeasure _)).trans (hdecide _)).trans (hspend _)

/-- One pass of the scheduler is a run of the daemon's own actions. -/
theorem acts_tick (loops : Loops K) (next : Next K) (d : Daemon K) (r : Reading K) (w : World K) :
    Acts d (d.tick loops next r w).2 := by
  have hmedium : Acts d (if next.medium ≤ r.now then d.mediumLoop r w else d) := by
    split
    · exact d.acts_mediumLoop r w
    · exact .refl d
  have hfast : ∀ d : Daemon K,
      Acts d (if next.fast ≤ r.now then d.fastLoop w.tunnel else d) := by
    intro d
    split
    · exact acts_step d (e := ⟨r, .fast w.tunnel⟩) trivial
    · exact .refl d
  have hslow : ∀ d : Daemon K, Acts d (if next.slow ≤ r.now then d.persist r else d) := by
    intro d
    split
    · exact acts_step d (e := ⟨r, .persist⟩) trivial
    · exact .refl d
  exact (hmedium.trans (hfast _)).trans (hslow _)

end Daemon

-- ---------------------------------------------------------------------------
-- A device with one adapter
-- ---------------------------------------------------------------------------

def dock (carrier : Bool) : Atomic ℚ where
  id := "usb:dock"
  kind := .usbEthernet
  label := "USB Ethernet"
  mode := .normal
  health := if carrier then .good else .down
  role := .wan
  capacity := .unmeasured
  quality := .unmeasured
  cost := .zero
  ifname := some "eth1"
  present := true
  firstSeen := none
  lastSeen := none
  everConnected := carrier
  attributes := []

def hotspot : Config ℚ where
  thresholds := .defaults ℚ
  lanMode := "single"
  lanOutEnabled := true
  gatewayPrefix := "10.44"
  baseThirdOctet := 0
  tunnelInterface := "wg0"
  persist := true

def leases : String → Option PipelineEnd := fun _ =>
  some (.returned ⟨fun _ => true, fun _ => false, fun _ _ _ => false⟩)

def during (now : ℚ) (actions : List (Action ℚ)) : List (Event ℚ) :=
  actions.map fun action => ⟨⟨now, now⟩, action⟩

def browsing : Demand := fun name =>
  if name = bestEffort.name then some ⟨name, 1000000, 0, false⟩ else none

def wired : TunnelEnv := ⟨some "203.0.113.5", fun _ => none, true⟩

end Wifucked
