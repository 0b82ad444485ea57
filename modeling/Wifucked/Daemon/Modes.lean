import Wifucked.Allocator.Hysteresis
import Wifucked.Daemon

/-!
# Who writes a mode

Two actions write the mode of a connection that is known: the user's call and
the outcome of a pipeline. A sweep gives modes to new connections, a restart
brings back those of the file, and nothing else touches one.
-/

namespace Wifucked.Daemon

variable {K : Type}

/-- The mode an action writes to a known connection. -/
def modeWrite (d : Daemon K) (e : Event K) : Option (String × Mode) :=
  match e.action with
  | .setMode id mode => (d.registry.modeOf id).map fun _ => (id, mode)
  | .applyOutcome => d.outcomes.head?.bind fun o =>
      (d.registry.modeOf o.atomicId).map fun _ => (o.atomicId, o.mode)
  | _ => none

def written (w : Option (String × Mode)) (id : String) : Option Mode :=
  w.bind fun w => if w.1 = id then some w.2 else none

def sweptMode (e : Event K) (id : String) : Option Mode :=
  match e.action with
  | .discover seen => Registry.freshMode seen id
  | _ => none

theorem modeOf_rewritten (reg : Registry K) (id j : String) (mode : Mode) :
    (if j = id then (reg.modeOf id).map fun _ => mode else reg.modeOf j) =
      (written ((reg.modeOf id).map fun _ => (id, mode)) j).or (reg.modeOf j) := by
  by_cases hj : j = id
  · subst hj
    cases reg.modeOf j <;> simp [written]
  · have hne : id ≠ j := fun h => hj h.symm
    cases reg.modeOf id <;> simp [written, hj, hne]

/-- The allocator goes by the daemon's own configuration. -/
structure Configured (config : Config K) (d : Daemon K) : Prop where
  same : d.config = config
  thresholds : d.allocator.t = config.thresholds
  profiles : d.allocator.profiles = profilesForLanMode config.lanMode

theorem Configured.profiles_eq {config : Config K} {d : Daemon K} (h : Configured config d) :
    d.allocator.profiles = d.profiles := by
  rw [h.profiles, Daemon.profiles, h.same]

theorem considerPorts_frame (d : Daemon K) (p : String → Option PipelineEnd) :
    (d.considerPorts p).registry = d.registry ∧ (d.considerPorts p).file = d.file ∧
      (d.considerPorts p).config = d.config ∧ (d.considerPorts p).allocation = d.allocation ∧
      (d.considerPorts p).allocator = d.allocator := by
  unfold considerPorts
  split <;> exact ⟨rfl, rfl, rfl, rfl, rfl⟩

section

variable [Field K] [LinearOrder K]

@[simp] theorem persist_registry (d : Daemon K) (r : Reading K) :
    (d.persist r).registry = d.registry := by
  unfold persist; split <;> rfl

@[simp] theorem outcomes_persist (d : Daemon K) (r : Reading K) :
    (d.persist r).outcomes = d.outcomes := by
  unfold persist; split <;> rfl

@[simp] theorem outcomes_setMode (d : Daemon K) (r : Reading K) (id : String) (mode : Mode) :
    (d.setMode r id mode).outcomes = d.outcomes := by
  unfold setMode
  split
  · rfl
  · exact outcomes_persist ..

@[simp] theorem outcomes_setRoleAndMode (d : Daemon K) (r : Reading K) (id : String)
    (role : PortRole) (mode : Mode) : (d.setRoleAndMode r id role mode).outcomes = d.outcomes := by
  unfold setRoleAndMode
  split
  · rfl
  · exact outcomes_persist ..

@[simp] theorem outcomes_spendOn (d : Daemon K) (r : Reading K) (a : Atomic K) :
    (spendOn r d a).outcomes = d.outcomes := by
  unfold spendOn; split <;> rfl

theorem persist_frame (d : Daemon K) (r : Reading K) :
    (d.persist r).allocation = d.allocation ∧
      (d.persist r).allocator.h.timer = d.allocator.h.timer := by
  unfold persist; split <;> exact ⟨rfl, rfl⟩

theorem setMode_frame (d : Daemon K) (r : Reading K) (id : String) (mode : Mode) :
    (d.setMode r id mode).allocation = d.allocation ∧
      (d.setMode r id mode).allocator.h.timer = d.allocator.h.timer := by
  unfold setMode
  split
  · exact ⟨rfl, rfl⟩
  · exact persist_frame ..

theorem setRoleAndMode_frame (d : Daemon K) (r : Reading K) (id : String) (role : PortRole)
    (mode : Mode) : (d.setRoleAndMode r id role mode).allocation = d.allocation ∧
      (d.setRoleAndMode r id role mode).allocator.h.timer = d.allocator.h.timer := by
  unfold setRoleAndMode
  split
  · exact ⟨rfl, rfl⟩
  · exact persist_frame ..

theorem setMode_modeOf (d : Daemon K) (r : Reading K) (id j : String) (mode : Mode) :
    (d.setMode r id mode).registry.modeOf j =
      (written ((d.registry.modeOf id).map fun _ => (id, mode)) j).or (d.registry.modeOf j) := by
  unfold setMode
  cases hk : d.registry.get? id with
  | none => simp [Registry.modeOf, hk, written]
  | some a => simp only [persist_registry, Registry.modeOf_setMode, modeOf_rewritten]

theorem setRoleAndMode_modeOf (d : Daemon K) (r : Reading K) (id j : String) (role : PortRole)
    (mode : Mode) : (d.setRoleAndMode r id role mode).registry.modeOf j =
      (written ((d.registry.modeOf id).map fun _ => (id, mode)) j).or (d.registry.modeOf j) := by
  unfold setRoleAndMode
  cases hk : d.registry.get? id with
  | none => simp [Registry.modeOf, hk, written]
  | some a => simp only [persist_registry, Registry.modeOf_setRoleAndMode, modeOf_rewritten]

theorem spendOn_frame (d : Daemon K) (r : Reading K) (a : Atomic K) :
    (∀ id, (spendOn r d a).registry.modeOf id = d.registry.modeOf id) ∧
      (spendOn r d a).file = d.file ∧ (spendOn r d a).config = d.config ∧
      (spendOn r d a).allocation = d.allocation ∧
      (spendOn r d a).allocator.h.timer = d.allocator.h.timer := by
  unfold spendOn
  split
  · exact ⟨fun id => Registry.modeOf_addCost .., rfl, rfl, rfl, rfl⟩
  · exact ⟨fun _ => rfl, rfl, rfl, rfl, rfl⟩

theorem fastLoop_frame (d : Daemon K) (env : TunnelEnv) :
    (d.fastLoop env).registry = d.registry ∧ (d.fastLoop env).file = d.file ∧
      (d.fastLoop env).config = d.config ∧ (d.fastLoop env).allocation = d.allocation ∧
      (d.fastLoop env).allocator = d.allocator := by
  unfold fastLoop
  split
  · exact ⟨rfl, rfl, rfl, rfl, rfl⟩
  · split
    · exact ⟨rfl, rfl, rfl, rfl, rfl⟩
    · unfold bindTunnel
      split
      · exact ⟨rfl, rfl, rfl, rfl, rfl⟩
      · split <;> exact ⟨rfl, rfl, rfl, rfl, rfl⟩

theorem outcomes_fastLoop (d : Daemon K) (env : TunnelEnv) :
    (d.fastLoop env).outcomes = d.outcomes := by
  unfold fastLoop bindTunnel
  split
  · rfl
  · split
    · rfl
    · split
      · rfl
      · split <;> rfl

end

section

variable [Field K] [LinearOrder K] [FloorRing K] [HalfPow K]

theorem measureOne_modeOf (d : Daemon K) (r : Reading K) (a : Atomic K) (o : Observation K)
    (id : String) : (d.measureOne r a o).registry.modeOf id = d.registry.modeOf id := by
  simp [measureOne]

/-- The mode of a connection after an action: what the action writes to it,
else the one it had, else the one a sweep found it with. -/
theorem modeOf_step {d : Daemon K} {e : Event K} (he : e.action ≠ .restart) (id : String) :
    (d.step e).registry.modeOf id =
      (written (d.modeWrite e) id).or ((d.registry.modeOf id).or (sweptMode e id)) := by
  obtain ⟨r, action⟩ := e
  cases action with
  | discover seen => exact Registry.modeOf_observe d.registry r.now seen id
  | consider p => simp [step, modeWrite, sweptMode, written, (considerPorts_frame d p).1]
  | applyOutcome =>
    simp only [step, modeWrite, sweptMode, applyOutcome, Option.or_none]
    cases d.outcomes with
    | nil => simp [written]
    | cons o outcomes =>
      exact setRoleAndMode_modeOf { d with outcomes } r o.atomicId id o.role o.mode
  | measure a o => simp [step, modeWrite, sweptMode, written, measureOne_modeOf]
  | decide demand => simp [step, modeWrite, sweptMode, written, decide]
  | spend a => simp [step, modeWrite, sweptMode, written, (spendOn_frame d r a).1]
  | fast env => simp [step, modeWrite, sweptMode, written, (fastLoop_frame d env).1]
  | persist => simp [step, modeWrite, sweptMode, written]
  | setMode j mode =>
    simp only [step, modeWrite, sweptMode, setMode_modeOf, Option.or_none]
  | restart => exact absurd rfl he

/-- Only a decision and a restart change the allocation and the backup state. -/
theorem step_frame (d : Daemon K) {e : Event K} (hd : ∀ demand, e.action ≠ .decide demand)
    (hr : e.action ≠ .restart) : (d.step e).allocation = d.allocation ∧
      (d.step e).allocator.h.timer = d.allocator.h.timer := by
  obtain ⟨r, action⟩ := e
  cases action with
  | discover | measure => exact ⟨rfl, rfl⟩
  | consider p =>
    obtain ⟨-, -, -, hal, ha⟩ := considerPorts_frame d p
    exact ⟨hal, congrArg (·.h.timer) ha⟩
  | applyOutcome =>
    simp only [step, applyOutcome]
    cases d.outcomes with
    | nil => exact ⟨rfl, rfl⟩
    | cons o outcomes => exact setRoleAndMode_frame { d with outcomes } r o.atomicId o.role o.mode
  | decide demand => exact absurd rfl (hd demand)
  | spend a =>
    obtain ⟨-, -, -, hal, ha⟩ := spendOn_frame d r a
    exact ⟨hal, ha⟩
  | fast env =>
    obtain ⟨-, -, -, hal, ha⟩ := fastLoop_frame d env
    exact ⟨hal, congrArg (·.h.timer) ha⟩
  | persist => exact persist_frame d r
  | setMode id mode => exact setMode_frame ..
  | restart => exact absurd rfl hr

theorem configured_step {config : Config K} {d : Daemon K} (h : Configured config d)
    (e : Event K) : Configured config (d.step e) := by
  have hpersist : ∀ {d : Daemon K} r, Configured config d → Configured config (d.persist r) := by
    intro d r h
    unfold persist
    split
    · exact ⟨h.same, h.thresholds, h.profiles⟩
    · exact h
  obtain ⟨r, action⟩ := e
  cases action with
  | consider p =>
    obtain ⟨-, -, hc, -, ha⟩ := considerPorts_frame d p
    exact ⟨hc.trans h.same, ha ▸ h.thresholds, ha ▸ h.profiles⟩
  | applyOutcome =>
    simp only [step, applyOutcome]
    cases d.outcomes with
    | nil => exact h
    | cons o outcomes =>
      simp only [setRoleAndMode]
      split
      · exact ⟨h.same, h.thresholds, h.profiles⟩
      · exact hpersist r ⟨h.same, h.thresholds, h.profiles⟩
  | fast env =>
    obtain ⟨-, -, hc, -, ha⟩ := fastLoop_frame d env
    exact ⟨hc.trans h.same, ha ▸ h.thresholds, ha ▸ h.profiles⟩
  | spend a =>
    simp only [step, spendOn]
    split
    · exact ⟨h.same, h.thresholds, h.profiles⟩
    · exact h
  | persist => exact hpersist r h
  | setMode id mode =>
    simp only [step, setMode]
    split
    · exact h
    · exact hpersist r ⟨h.same, h.thresholds, h.profiles⟩
  | discover | measure | decide => exact ⟨h.same, h.thresholds, h.profiles⟩
  | restart =>
    obtain rfl := h.same
    exact ⟨rfl, rfl, rfl⟩

theorem configured_run (config : Config K) (file : Option (StateFile K)) (r : Reading K)
    (es : List (Event K)) : Configured config (Runs.exec step (init config file r) es) :=
  Runs.exec_keeps (fun _ e _ h => configured_step h e) ⟨rfl, rfl, rfl⟩

end

end Wifucked.Daemon
