import Wifucked.Daemon.Egress
import Wifucked.Daemon.Learning

/-!
# What an idle connection costs

Runs that keep, of each decision, its time and whether it still believed the
estimate of one connection. While that connection stays and nothing but idle
observations of it come in, no decision that believes it goes without it.
-/

namespace Wifucked

variable {K : Type}

/-- The daemon, the last reading of the clock, and for each decision, the last
one first, its time and whether the estimate was believed at it. -/
structure Watched (K : Type) where
  daemon : Daemon K
  clock : K
  decisions : List (K × Bool)

namespace Watched

variable [Field K] [LinearOrder K] [HalfPow K]

def believes (d : Daemon K) (id : String) (now : K) : Bool :=
  (d.registry.get? id).any fun a => Allocator.confident d.allocator.t a now

variable [FloorRing K]

def step (id : String) (s : Watched K) (e : Event K) : Watched K where
  daemon := s.daemon.step e
  clock := e.reading.now
  decisions :=
    match e.action with
    | .decide _ => (e.reading.now, believes s.daemon id e.reading.now) :: s.decisions
    | _ => s.decisions

/-- The connection stays a good one of the pool and is observed idle at most; the
critical demand does not pass its peak. -/
structure Idles (id : String) (peak : Int) (s : Watched K) (e : Event K) : Prop where
  genuine : s.daemon.Genuine e
  clock : s.clock ≤ e.reading.now
  present : ((s.daemon.registry.get? id).any fun a => a.inNormalPool && a.health = .good) = true
  idle : ∀ atomic observation, e.action = .measure atomic observation → atomic.id = id →
    observation.saturated = false
  demand : ∀ demand, e.action = .decide demand →
    s.daemon.allocator.criticalDemand ⟨e.reading.now, s.daemon.registry.all, demand⟩ ≤ peak

def Activates (s : Watched K) (e : Event K) : Prop :=
  (∃ demand, e.action = .decide demand) ∧ s.daemon.allocator.h.state ≠ .active ∧
    (s.daemon.step e).allocator.h.state = .active

/-- The estimate is not believed, nor was it at any decision a dwell back. -/
def LongFaded (id : String) (dwell : K) (s : Watched K) (e : Event K) : Prop :=
  believes s.daemon id e.reading.now = false ∧
    ∀ p ∈ s.decisions, e.reading.now - dwell < p.1 → p.2 = false

-- ---------------------------------------------------------------------------
-- What a believed estimate covers
-- ---------------------------------------------------------------------------

omit [FloorRing K] in
theorem le_normalCapacity {d : Daemon K} (hcapacity : d.registry.All Daemon.Capacious)
    {a : Atomic K} (ha : a ∈ Allocator.poolOf d.registry.all) {now : K} {demand : Demand}
    (hb : Allocator.confident d.allocator.t a now = true) :
    a.capacity.downBps ≤ d.allocator.normalCapacity ⟨now, d.registry.all, demand⟩ := by
  have hbelieved : Allocator.believedBps d.allocator.t a now = a.capacity.downBps := by
    simp [Allocator.believedBps, hb]
  rw [← hbelieved]
  refine List.single_le_sum ?_ _ (List.mem_map_of_mem ha)
  rw [List.forall_mem_map]
  intro b hb
  have hb := d.registry.perm_all.mem_iff.mp (List.mem_of_mem_filter hb)
  exact Allocator.believedBps_nonneg _ (hcapacity b hb).1 _

/-- While the connection is there its estimate stands, and once the backup is
arming no later decision has believed it. -/
structure Standby (id : String) (estimate : Int) (config : Config K) (s : Watched K) : Prop where
  capacity : s.daemon.Keeps Daemon.Capacious Daemon.CapaciousStored
  configured : Daemon.Configured config s.daemon
  estimate : s.daemon.registry.All fun a => a.id = id → a.capacity.downBps = estimate
  arming : s.daemon.allocator.h.state = .arming →
    ∀ p ∈ s.decisions, s.daemon.allocator.h.since < p.1 → p.2 = false
  clock : ∀ p ∈ s.decisions, p.1 ≤ s.clock

variable {id : String} {estimate peak : Int} {config : Config K} {s : Watched K} {e : Event K}

omit [FloorRing K] in
theorem covers (h : Standby id estimate config s)
    (hpeak : peak ≤ estimate + config.thresholds.activationDeficitBps)
    (hpresent :
      ((s.daemon.registry.get? id).any fun a => a.inNormalPool && a.health = .good) = true)
    (hdemand : s.daemon.allocator.criticalDemand ⟨now, s.daemon.registry.all, demand⟩ ≤ peak)
    (hb : believes s.daemon id now = true) :
    ¬ s.daemon.allocator.InDeficit ⟨now, s.daemon.registry.all, demand⟩ := by
  obtain ⟨a, ha, hpool⟩ := (Option.any_eq_true _ _).mp hpresent
  simp only [Bool.and_eq_true] at hpool
  have hb : Allocator.confident s.daemon.allocator.t a now = true := by
    simpa [believes, ha] using hb
  have hid : a.id = id := Keyed.key_of_get? ha
  have hmem : a ∈ s.daemon.registry.all := Registry.mem_all.mpr (hid.symm ▸ ha)
  have hle : a.capacity.downBps ≤
      s.daemon.allocator.normalCapacity ⟨now, s.daemon.registry.all, demand⟩ :=
    le_normalCapacity h.capacity.registry (List.mem_filter.mpr ⟨hmem, hpool.1⟩) hb
  rw [h.estimate.of_get? ha hid] at hle
  unfold Allocator.InDeficit Allocator.inDeficit
  rw [h.configured.thresholds]
  omega

variable {r : Reading K}

theorem arming_decide (h : Standby id estimate config s)
    (hpeak : peak ≤ estimate + config.thresholds.activationDeficitBps)
    (he : Idles id peak s ⟨r, .decide demand⟩)
    (harming : (s.step id ⟨r, .decide demand⟩).daemon.allocator.h.state = .arming) :
    ∀ p ∈ (s.step id ⟨r, .decide demand⟩).decisions,
      (s.step id ⟨r, .decide demand⟩).daemon.allocator.h.since < p.1 → p.2 = false := by
  intro p hp hlate
  have hp : p = (r.now, believes s.daemon id r.now) ∨ p ∈ s.decisions := List.mem_cons.mp hp
  have hclock : p.1 ≤ r.now := by
    rcases hp with rfl | hp
    · exact le_rfl
    · exact (h.clock p hp).trans he.clock
  rcases (Allocator.decide_move _ _).to_arming harming with hsince | ⟨hbefore, hsince, hdeficit⟩
  · -- Armed by this very decision, after which there is none yet.
    exact absurd (hsince.symm.trans_lt hlate) (not_lt.mpr hclock)
  · rcases hp with rfl | hp
    · cases hb : believes s.daemon id r.now with
      | false => rfl
      | true => exact absurd hdeficit (covers h hpeak he.present (he.demand _ rfl) hb)
    · exact h.arming hbefore p hp (hsince.symm.trans_lt hlate)

theorem respects_estimate (h : Standby id estimate config s) (he : Idles id peak s e) :
    s.daemon.Respects (fun a => a.id = id → a.capacity.downBps = estimate) e := by
  obtain ⟨r, action⟩ := e
  have hheld : ∀ {j} (a : Atomic K), s.daemon.registry.get? j = some a →
      a.id = id → a.capacity.downBps = estimate := fun _ ha => h.estimate.of_get? ha
  cases action with
  | discover seen =>
    intro a _ hn hid
    obtain ⟨b, hb, -⟩ := (Option.any_eq_true _ _).mp he.present
    have hid : a.id = id := hid
    rw [hid, hb] at hn
    cases hn
  | applyOutcome => exact fun o _ a ha => hheld a ha
  | measure atomic observation =>
    intro a ha hid
    have hid : a.id = id := hid
    have hsame := he.genuine.1 a ha
    have hidle := he.idle _ _ rfl ((Keyed.key_of_get? ha).symm.trans hid)
    simpa [fold, hidle, ← hsame] using hheld a ha hid
  | setMode j mode => exact fun a ha => hheld a ha
  | _ => trivial

def Gone (id : String) (s : Watched K) : Prop :=
  ∀ a, s.daemon.registry.get? id = some a → a.present = false

theorem gone_of_restart (s : Watched K) (hr : e.action = .restart) : Gone id (s.step id e) := by
  intro a ha
  have hnew : (s.step id e).daemon = s.daemon.restart e.reading := by
    simp only [step, Daemon.step, hr]
  rw [hnew] at ha
  simp only [Daemon.restart, Daemon.init] at ha
  cases hf : (if s.daemon.config.persist then s.daemon.file else none) with
  | none => rw [hf] at ha; cases ha
  | some f =>
    rw [hf] at ha
    simp only [Option.map_some, Option.getD_some, Registry.load, Keyed.get?_map] at ha
    obtain ⟨entry, -, rfl⟩ := Option.map_eq_some_iff.mp ha
    rfl

variable [IsStrictOrderedRing K]

theorem longFaded_of_activates (h : Standby id estimate config s)
    (hpeak : peak ≤ estimate + config.thresholds.activationDeficitBps)
    (he : Idles id peak s e) (hactivates : Activates s e) :
    LongFaded id config.thresholds.activationDwellS s e := by
  obtain ⟨⟨demand, hdemand⟩, hinactive, hactive⟩ := hactivates
  obtain ⟨r, action⟩ := e
  obtain rfl : action = .decide demand := hdemand
  obtain ⟨-, ⟨hstate, -⟩ | ⟨harming, hdeficit, hdwell⟩⟩ :=
    (Allocator.decide_move _ _).to_active hactive
  · exact absurd hstate hinactive
  refine ⟨?_, fun p hp hlate => h.arming harming p hp ?_⟩
  · cases hb : believes s.daemon id r.now with
    | false => rfl
    | true => exact absurd hdeficit (covers h hpeak he.present (he.demand _ rfl) hb)
  · rw [h.configured.thresholds] at hdwell
    exact (le_sub_comm.mp hdwell).trans_lt hlate

theorem standby_step (h : Standby id estimate config s)
    (hpeak : peak ≤ estimate + config.thresholds.activationDeficitBps)
    (he : Idles id peak s e) (hr : e.action ≠ .restart) :
    Standby id estimate config (s.step id e) := by
  have hkeeps := Daemon.keeps_step Daemon.durable_capacious h.capacity
    (Daemon.respects_capacious h.capacity he.genuine)
  have hestimate := Daemon.all_step (Q := fun a => a.id = id → a.capacity.downBps = estimate)
    ⟨fun _ h _ _ _ _ _ _ _ => h, fun _ h _ => h, fun _ h _ => h⟩ h.estimate
    (respects_estimate h he) hr
  obtain ⟨r, action⟩ := e
  by_cases hd : ∃ demand, action = .decide demand
  · obtain ⟨demand, rfl⟩ := hd
    refine ⟨hkeeps, Daemon.configured_step h.configured ⟨r, .decide demand⟩, hestimate,
      arming_decide h hpeak he, fun p hp => ?_⟩
    rcases List.mem_cons.mp hp with rfl | hp
    · exact le_rfl
    · exact (h.clock p hp).trans he.clock
  · have hdecisions : (s.step id ⟨r, action⟩).decisions = s.decisions := by
      cases action with
      | decide demand => exact absurd ⟨demand, rfl⟩ hd
      | _ => rfl
    obtain ⟨-, htimer⟩ := Daemon.step_frame s.daemon (e := ⟨r, action⟩)
      (fun demand hdemand => hd ⟨demand, hdemand⟩) hr
    refine ⟨hkeeps, Daemon.configured_step h.configured ⟨r, action⟩, hestimate,
      fun harming => ?_, ?_⟩
    · rw [hdecisions]
      have hsince := congrArg Timer.since htimer
      exact fun p hp hlate => h.arming ((congrArg Timer.state htimer).symm.trans harming) p hp
        (hsince.symm.trans_lt hlate)
    · rw [hdecisions]
      exact fun p hp => (h.clock p hp).trans he.clock

/-- Where the estimate of an idle connection leaves no deficit, spending starts a
whole dwell after it was last believed. -/
theorem spends_after_fading {es₀ es : List (Event K)} (config : Config K) (r : Reading K)
    (hpeak : peak ≤ estimate + config.thresholds.activationDeficitBps)
    (hes₀ : Runs.Along Daemon.step Daemon.Genuine (Daemon.init config none r) es₀)
    (hs : s = ⟨Runs.exec Daemon.step (Daemon.init config none r) es₀, now, []⟩)
    (hestimate : ∀ a, s.daemon.registry.get? id = some a → a.capacity.downBps = estimate)
    (hes : Runs.Along (step id) (Idles id peak) s es) :
    Runs.Along (step id) (fun s e => Activates s e →
      LongFaded id config.thresholds.activationDwellS s e) s es := by
  subst hs
  have hstandby : Standby id estimate config
      ⟨Runs.exec Daemon.step (Daemon.init config none r) es₀, now, []⟩ := by
    refine ⟨?_, Daemon.configured_run config none r es₀, fun a ha hid => ?_, by simp, by simp⟩
    · exact Runs.exec_of_along
        (P := Daemon.Keeps Daemon.Capacious Daemon.CapaciousStored)
        (fun _ _ _ h he => Daemon.keeps_step Daemon.durable_capacious h
          (Daemon.respects_capacious h he)) hes₀
        (Daemon.keeps_init Daemon.durable_capacious config (by simp) r)
    · exact hestimate a (hid ▸ Keyed.mem_values.mp ha)
  have hstep : ∀ s e, Standby id estimate config s ∨ Gone id s → Idles id peak s e →
      (Standby id estimate config (s.step id e) ∨ Gone id (s.step id e)) ∧
        (Activates s e → LongFaded id config.thresholds.activationDwellS s e) := by
    rintro s e (h | h) he
    · refine ⟨?_, longFaded_of_activates h hpeak he⟩
      by_cases hr : e.action = .restart
      · exact .inr (gone_of_restart s hr)
      · exact .inl (standby_step h hpeak he hr)
    · obtain ⟨a, ha, hpool⟩ := (Option.any_eq_true _ _).mp he.present
      have hgone := h a ha
      simp [Atomic.inNormalPool, Atomic.usable, hgone] at hpool
  exact Runs.along_of hstep (.inl hstandby) hes

omit [IsStrictOrderedRing K] [HalfPow K] [FloorRing K] in
theorem idles_decide (hclock : s.clock ≤ r.now)
    (hpresent :
      ((s.daemon.registry.get? id).any fun a => a.inNormalPool && a.health = .good) = true)
    (hdemand : s.daemon.allocator.criticalDemand ⟨r.now, s.daemon.registry.all, demand⟩ ≤ peak) :
    Idles id peak s ⟨r, .decide demand⟩ := by
  refine ⟨trivial, hclock, hpresent, fun _ _ h => ?_, fun _ h => ?_⟩
  · cases h
  · cases h
    exact hdemand

def busyBeside : List (Event ℚ) :=
  during 0 [.discover [dock true, phone], .setMode "wifi:phone" .backup,
    .measure (dock true) Daemon.busyOnce]

def spending (activationDeficitBps : Int) : Config ℚ :=
  { hotspot with
    lanMode := "two_bss"
    thresholds := { Thresholds.defaults ℚ with activationDeficitBps } }

def learned (activationDeficitBps : Int) : Watched ℚ :=
  ⟨Runs.exec Daemon.step (.init (spending activationDeficitBps) none ⟨0, 0⟩) busyBeside, 0, []⟩

def evening : List (Event ℚ) := during 7200 [.decide calling] ++ during 9000 [.decide calling]

def twoMinutes : List (Event ℚ) := during 0 [.decide calling] ++ during 120 [.decide calling]

theorem busyBeside_genuine (activationDeficitBps : Int) :
    Runs.Along Daemon.step Daemon.Genuine (.init (spending activationDeficitBps) none ⟨0, 0⟩)
      busyBeside := by
  refine ⟨?_, trivial, ⟨fun a ha => ?_, by decide, by decide⟩, trivial⟩
  · intro a ha
    rcases List.mem_pair.mp ha with rfl | rfl <;> exact ⟨rfl, rfl, rfl, rfl⟩
  · -- The thresholds play no part before the first decision.
    have hheld : (Keyed.get? (Runs.exec Daemon.step
        (Daemon.init (spending activationDeficitBps) none ⟨0, 0⟩) (busyBeside.take 2)).registry
        "usb:dock").map (·.capacity) = some (dock true).capacity := by rfl
    have ha : Keyed.get? (Runs.exec Daemon.step
        (Daemon.init (spending activationDeficitBps) none ⟨0, 0⟩) (busyBeside.take 2)).registry
        "usb:dock" = some a := ha
    rw [ha] at hheld
    exact Option.some.inj hheld

/-- The most that the adapter's ten megabits at a weight of seven tenths cover
with the recovery margin. -/
def covered : Int := 7000000 - (Thresholds.defaults ℚ).recoveryMarginBps

theorem evening_idles :
    Runs.Along (step "usb:dock") (Idles "usb:dock" covered) (learned 500000) evening := by
  refine ⟨idles_decide ?_ ?_ ?_, idles_decide ?_ ?_ ?_, trivial⟩ <;> decide +kernel

theorem twoMinutes_idles :
    Runs.Along (step "usb:dock") (Idles "usb:dock" covered) (learned (-6000000)) twoMinutes := by
  refine ⟨idles_decide ?_ ?_ ?_, idles_decide ?_ ?_ ?_, trivial⟩ <;> decide +kernel

theorem spends_after_fading_evening :
    Runs.Along (step "usb:dock") (fun s e => Activates s e →
      LongFaded "usb:dock" 120 s e) (learned 500000) evening :=
  have hpeak : covered ≤ 7000000 + (spending 500000).thresholds.activationDeficitBps := by decide
  spends_after_fading (spending 500000) ⟨0, 0⟩ hpeak (busyBeside_genuine 500000) rfl
    (by decide +kernel) evening_idles

/-- Two hours of an idle adapter, and the call is put on the backup. So it is
after two minutes where a surplus was set to be a deficit. -/
theorem activated_though_covered :
    (Runs.Along Daemon.step Daemon.Genuine (.init (spending 500000) none ⟨0, 0⟩) busyBeside ∧
      Runs.Along (step "usb:dock") (Idles "usb:dock" covered) (learned 500000) evening ∧
      ¬ Runs.Along (step "usb:dock") (fun s e => ¬ Activates s e) (learned 500000) evening) ∧
    Runs.Along Daemon.step Daemon.Genuine (.init (spending (-6000000)) none ⟨0, 0⟩) busyBeside ∧
      Runs.Along (step "usb:dock") (Idles "usb:dock" covered) (learned (-6000000)) twoMinutes ∧
      ¬ Runs.Along (step "usb:dock") (fun s e => ¬ Activates s e) (learned (-6000000))
        twoMinutes := by
  refine ⟨⟨busyBeside_genuine _, evening_idles, ?_⟩, busyBeside_genuine _, twoMinutes_idles, ?_⟩
  · rintro ⟨-, h, -⟩
    exact h ⟨⟨calling, rfl⟩, by decide +kernel, by decide +kernel⟩
  · rintro ⟨-, h, -⟩
    exact h ⟨⟨calling, rfl⟩, by decide +kernel, by decide +kernel⟩

end Watched

end Wifucked
