import Wifucked.Daemon.Remembered
import Wifucked.Daemon.Standing
import Wifucked.Discovery

/-!
# A LAN-out port is never an upstream

Outcomes of the classifier, sweeps and restarts keep every LAN-out port
UNUSED, which is all that a decision or the liveness budget looks at.
-/

namespace Wifucked

variable {K : Type}

/-- What a sweep brings in says nothing of what is remembered. -/
def Event.Swept [Zero K] (e : Event K) : Prop :=
  match e.action with
  | .discover seen => ∀ a ∈ seen, a.Fresh
  | _ => True

namespace LanOutClassifier

theorem mode_of_lanOut {c : LanOutClassifier K} {dhcp : DhcpHal} {a : Atomic K} :
    (c.runPipeline dhcp a).role = .lanOut → (c.runPipeline dhcp a).mode = .unused := by
  unfold runPipeline
  cases a.iface with
  | none => exact fun h => nomatch h
  | some ifname =>
    simp only
    split
    · exact fun h => nomatch h
    · split
      · exact fun h => nomatch h
      · split
        · exact fun _ => rfl
        · exact fun h => nomatch h

theorem mode_of_consider {c : LanOutClassifier K} {atomics : List (Atomic K)}
    (h : o ∈ (c.consider atomics ended).2) (hr : o.role = .lanOut) : o.mode = .unused := by
  obtain ⟨⟨a, e⟩, -, rfl⟩ := List.mem_map.mp h
  cases e with
  | raised => cases hr
  | returned dhcp => exact mode_of_lanOut hr

end LanOutClassifier

namespace Daemon

variable [Field K] [LinearOrder K]

theorem get?_spendOn (d : Daemon K) (r : Reading K) (b : Atomic K) {id : String} (h : b.id ≠ id) :
    (spendOn r d b).registry.get? id = d.registry.get? id := by
  unfold spendOn
  split
  · simp only [Registry.addCost]
    rw [Keyed.get?_modify, if_neg (Ne.symm h)]
    exact fun _ => rfl
  · rfl

theorem get?_spendLivenessBudget (d : Daemon K) (r : Reading K) {id : String}
    (h : ∀ b ∈ d.registry.backups, b.id ≠ id) :
    (d.spendLivenessBudget r).registry.get? id = d.registry.get? id := by
  unfold spendLivenessBudget
  generalize d.registry.backups = backups at h
  induction backups generalizing d with
  | nil => rfl
  | cons b backups ih =>
    obtain ⟨hb, hbackups⟩ := List.forall_mem_cons.mp h
    rw [List.foldl_cons, ih _ hbackups, get?_spendOn d r b hb]

theorem get?_setMode (d : Daemon K) (r : Reading K) {id : String} {mode : Mode}
    (ha : d.registry.get? id = some a) :
    (d.setMode r id mode).registry.get? id = some { a with mode } := by
  simp only [setMode, ha, persist_registry, Registry.setMode]
  rw [Keyed.get?_modify, if_pos rfl, ha]
  · rfl
  · exact fun _ => rfl

def Shut (a : Atomic K) : Prop := a.role = .lanOut → a.mode = .unused

def ShutStored (e : StoredAtomic K) : Prop := e.role = .lanOut → e.mode = .unused

theorem durable_shut : Durable (K := K) Shut ShutStored where
  seen _ h _ _ _ _ _ _ _ := h
  quality _ h _ := h
  cost _ h _ := h
  stored _ h _ := h
  restored _ h _ _ _ := h

structure ShutIn (d : Daemon K) : Prop where
  keeps : d.Keeps Shut ShutStored
  outcomes : ∀ o ∈ d.outcomes, o.role = .lanOut → o.mode = .unused

theorem shutIn_init (config : Config K) (r : Reading K) : (init config none r).ShutIn where
  keeps := keeps_init durable_shut config (by simp) r
  outcomes := by simp [init]

variable [HalfPow K]

/-- Nothing the daemon can decide next uses the port. -/
structure Unspent (d : Daemon K) (a : Atomic K) : Prop where
  allocation : ∀ r demand al, (d.decide r demand).allocation = some al → ¬ al.Uses a.id
  backup : ∀ r demand b,
    Allocator.backupOf ⟨r, d.registry.all, demand⟩ = some b → b.id ≠ a.id
  liveness : ∀ r, (d.spendLivenessBudget r).registry.get? a.id = some a

def NeverUpstream (d : Daemon K) : Prop :=
  ∀ id a, d.registry.get? id = some a → a.role = .lanOut → a.mode = .unused ∧ d.Unspent a

theorem unspent_of_unused {d : Daemon K} {a : Atomic K} (ha : d.registry.get? a.id = some a)
    (hm : a.mode = .unused) : d.Unspent a := by
  refine ⟨fun r demand al hal huses => ?_, fun r demand b hb hid => ?_, fun r => ?_⟩
  · obtain rfl := Option.some.inj hal
    obtain ⟨c, hc, hid, hpermits⟩ := Allocator.permits_of_uses huses
    obtain rfl := Registry.eq_of_mem_all hc ha hid
    exact hpermits.1 hm
  · have hb := Allocator.mem_of_backupOf hb
    obtain ⟨hall, hmode, -⟩ := Allocator.mem_backupsOf.mp hb
    obtain rfl := Registry.eq_of_mem_all hall ha hid
    cases hm.symm.trans hmode
  · refine (get?_spendLivenessBudget d r fun b hb hid => ?_).trans ha
    obtain ⟨hall, hb⟩ := List.mem_filter.mp hb
    obtain rfl := Registry.eq_of_mem_all hall ha hid
    simp [hm] at hb

theorem neverUpstream_iff {d : Daemon K} :
    d.NeverUpstream ↔ d.registry.All Shut := by
  constructor
  · intro h a ha hr
    exact (h a.id a (Keyed.mem_values.mp ha) hr).1
  · intro h id a ha hr
    have hm := h.of_get? ha hr
    obtain rfl := Keyed.key_of_get? ha
    exact ⟨hm, unspent_of_unused ha hm⟩

variable [FloorRing K]

/-- The user gives a LAN-out port back as a connection. -/
def Reopens (d : Daemon K) (e : Event K) : Prop :=
  match e.action with
  | .setMode id mode => mode ≠ .unused ∧ ∃ a, d.registry.get? id = some a ∧ a.role = .lanOut
  | _ => False

theorem respects_shut {d : Daemon K} (h : d.ShutIn) {e : Event K} (he : e.Swept)
    (hr : ¬ d.Reopens e) : d.Respects Shut e := by
  obtain ⟨r, action⟩ := e
  cases action with
  | discover seen =>
    intro a ha _ hrole
    rw [show (a.discovered r.now).role = .wan from (he a ha).role] at hrole
    cases hrole
  | applyOutcome =>
    intro o ho a _ hrole
    exact h.outcomes o (List.mem_of_mem_head? ho) hrole
  | measure atomic observation => exact fun a ha => (h.keeps.registry.of_get? ha : Shut a)
  | setMode id mode =>
    intro a ha hrole
    by_contra hm
    exact hr ⟨hm, a, ha, hrole⟩
  | _ => trivial

/-- Where each outcome that is pending after an action comes from. -/
theorem outcomes_step {d : Daemon K} {e : Event K} (h : o ∈ (d.step e).outcomes) :
    o ∈ d.outcomes ∨ ∃ c pipelines, d.lanOutClassifier = some c ∧
      e.action = .consider pipelines ∧ o ∈ (c.consider d.registry.all pipelines).2 := by
  obtain ⟨r, action⟩ := e
  cases action with
  | consider pipelines =>
    simp only [step, considerPorts] at h
    cases hc : d.lanOutClassifier with
    | none =>
      rw [hc] at h
      exact .inl h
    | some c =>
      rw [hc] at h
      rcases List.mem_append.mp h with h | h
      · exact .inl h
      · exact .inr ⟨c, pipelines, rfl, rfl, h⟩
  | applyOutcome =>
    simp only [step, applyOutcome] at h
    cases ho : d.outcomes with
    | nil =>
      rw [ho] at h
      exact .inl (ho ▸ h)
    | cons o' outcomes =>
      rw [ho] at h
      rw [outcomes_setRoleAndMode] at h
      exact .inl (List.mem_cons_of_mem _ h)
  | discover seen => exact .inl h
  | measure a o => exact .inl h
  | decide demand => exact .inl h
  | spend a => exact .inl (outcomes_spendOn d r a ▸ h)
  | fast env => exact .inl (outcomes_fastLoop d env ▸ h)
  | persist => exact .inl (outcomes_persist d r ▸ h)
  | setMode id mode => exact .inl (outcomes_setMode d r id mode ▸ h)
  | restart => cases h

theorem shutIn_step {d : Daemon K} (h : d.ShutIn) {e : Event K} (he : e.Swept)
    (hr : ¬ d.Reopens e) : (d.step e).ShutIn := by
  refine ⟨keeps_step durable_shut h.keeps (respects_shut h he hr), fun o ho hrole => ?_⟩
  rcases outcomes_step ho with ho | ⟨c, pipelines, -, -, ho⟩
  · exact h.outcomes o ho hrole
  · exact LanOutClassifier.mode_of_consider ho hrole

theorem neverUpstream_step_iff {d : Daemon K} (h : d.ShutIn) {e : Event K} (he : e.Swept) :
    (d.step e).NeverUpstream ↔ ¬ d.Reopens e := by
  constructor
  · intro hnever hr
    obtain ⟨r, action⟩ := e
    cases action with
    | setMode id mode =>
      obtain ⟨hm, a, ha, hrole⟩ := hr
      exact hm (hnever id _ (get?_setMode d r ha) hrole).1
    | _ => exact hr
  · intro hr
    exact neverUpstream_iff.mpr (shutIn_step h he hr).keeps.registry

/-- In any order of sweeps, outcomes, mode changes and restarts. -/
theorem neverUpstream_run_iff (config : Config K) (r : Reading K) {es : List (Event K)}
    (hes : ∀ e ∈ es, e.Swept) :
    Runs.Along step (fun d e => (d.step e).NeverUpstream) (init config none r) es ↔
      Runs.Along step (fun d e => ¬ d.Reopens e) (init config none r) es := by
  have hstep : ∀ (d : Daemon K) (e : Event K), e.Swept → d.ShutIn →
      (d.step e).NeverUpstream → (d.step e).ShutIn :=
    fun _ _ he h hnever => shutIn_step h he ((neverUpstream_step_iff h he).mp hnever)
  exact Runs.along_iff_of hstep (fun _ _ he h => neverUpstream_step_iff h he)
    (shutIn_init config r) hes

def servesNext : String → Option PipelineEnd := fun _ =>
  some (.returned ⟨fun _ => false, fun _ => false, fun _ _ _ => true⟩)

/-- A port starts to serve, and the user then takes it for a backup. -/
def reopened : List (Event ℚ) :=
  during 0 [.discover [dock true], .consider fun _ => none] ++
    during 10 [.discover [dock true], .consider servesNext, .applyOutcome] ++
    during 15 [.setMode "usb:dock" .backup]

theorem reopened_swept : ∀ e ∈ reopened, e.Swept := by
  have hdock : (dock true).Fresh := ⟨rfl, rfl, rfl, rfl⟩
  simp [reopened, during, Event.Swept, hdock]

theorem neverUpstream_run_iff_reopened :
    Runs.Along step (fun d e => (d.step e).NeverUpstream) (init hotspot none ⟨0, 0⟩) reopened ↔
      Runs.Along step (fun d e => ¬ d.Reopens e) (init hotspot none ⟨0, 0⟩) reopened :=
  neverUpstream_run_iff hotspot ⟨0, 0⟩ reopened_swept

theorem lanOut_backup :
    ¬ (Runs.exec step (init hotspot none ⟨0, 0⟩) reopened).NeverUpstream := by
  have h : ((Runs.exec step (init hotspot none ⟨0, 0⟩) reopened).registry.get? "usb:dock").map
      (fun a => (a.role, a.mode)) = some (.lanOut, .backup) := by decide +kernel
  obtain ⟨a, ha, hroleMode⟩ := Option.map_eq_some_iff.mp h
  obtain ⟨hrole, hmode⟩ := Prod.mk.inj hroleMode
  intro hnever
  cases hmode.symm.trans (hnever _ a ha hrole).1

end Daemon

end Wifucked
