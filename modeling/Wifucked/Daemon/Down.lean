import Wifucked.Atomics.Merging
import Wifucked.Daemon.Measured

/-!
# Links without carrier

Two parts of a medium loop write a connection's health: the sweep, which sees
the carrier, and the measuring pass, which does not. A sweep is listened to of a
connection that was away and of no other, and whatever is observed of one
takes it for a link that carries traffic.
-/

namespace Wifucked

variable {K : Type}

-- ---------------------------------------------------------------------------
-- What may be used
-- ---------------------------------------------------------------------------

/-- What `_chosen_backup` chooses among. -/
def Allocator.eligible (atomics : List (Atomic K)) : List (Atomic K) :=
  (backupsOf atomics).filter fun b => b.health ≠ .down

theorem Allocator.chosenBackup_backupsOf (atomics : List (Atomic K)) :
    chosenBackup (backupsOf atomics) = (eligible atomics).argmax (·.capacity.downBps) := rfl

namespace Registry

variable {reg : Registry K} {a : Atomic K}

theorem mem_poolOf_iff (ha : reg.get? a.id = some a) : a ∈ Allocator.poolOf reg.all ↔
    a.mode = .normal ∧ a.role = .wan ∧
      (reg.held a.id = some .good ∨ reg.held a.id = some .degraded) := by
  have hall : a ∈ reg.all := mem_all.mpr ha
  simp only [Allocator.poolOf, List.mem_filter, hall, true_and, Atomic.inNormalPool, Atomic.usable,
    held, ha, Option.bind_some, Atomic.held]
  cases a.present <;> cases a.mode <;> simp

theorem mem_eligible_iff (ha : reg.get? a.id = some a) : a ∈ Allocator.eligible reg.all ↔
    a.mode = .backup ∧ ∃ health, reg.held a.id = some health ∧ health ≠ .down := by
  have hall : a ∈ reg.all := mem_all.mpr ha
  simp only [Allocator.eligible, Allocator.backupsOf, List.mem_filter, hall, true_and, held, ha,
    Option.bind_some, Atomic.held]
  cases a.present <;> simp

end Registry

-- ---------------------------------------------------------------------------
-- Actions
-- ---------------------------------------------------------------------------

namespace Daemon

variable [Field K] [LinearOrder K] [FloorRing K] [HalfPow K]

theorem held_step {d : Daemon K} {e : Event K} (hdiscover : ∀ seen, e.action ≠ .discover seen)
    (hmeasure : ∀ a o, e.action ≠ .measure a o) (hrestart : e.action ≠ .restart) (id : String) :
    (d.step e).registry.held id = d.registry.held id := by
  obtain ⟨r, action⟩ := e
  rw [Registry.held_eq, Registry.held_eq, map_get?_step hdiscover hrestart fun f hf a => ?_]
  cases action with
  | applyOutcome =>
    obtain ⟨role, mode, rfl⟩ := hf
    rfl
  | measure a o => exact absurd rfl (hmeasure a o)
  | spend =>
    obtain ⟨cost, rfl⟩ := hf
    rfl
  | setMode =>
    obtain rfl := hf
    rfl
  | _ => cases hf

theorem held_measureOne (d : Daemon K) (r : Reading K) (atomic : Atomic K)
    (observation : Observation K) (id : String) :
    (d.measureOne r atomic observation).registry.held id =
      if id = atomic.id then
        (d.registry.held id).map fun _ => healthOf d.config.thresholds observation
      else d.registry.held id := by
  simp only [Registry.held_eq, get?_measureOne]
  split
  · cases d.registry.get? id with
    | none => rfl
    | some a => cases hp : a.present <;> simp [Atomic.held, hp]
  · rfl

omit [Field K] [FloorRing K] [HalfPow K] in
theorem healthOf_cases (t : Thresholds K) (observation : Observation K) :
    healthOf t observation = .good ∨ healthOf t observation = .degraded := by
  unfold healthOf
  split
  · exact .inr rfl
  · split
    · exact .inr rfl
    · exact .inl rfl

end Daemon

-- ---------------------------------------------------------------------------
-- Runs
-- ---------------------------------------------------------------------------

/-- The daemon with its latest sweep, the registry that it was merged into and
what was observed since. -/
structure Surveyed (K : Type) where
  daemon : Daemon K
  sweep : List (Atomic K)
  before : Registry K
  observed : List String

namespace Surveyed

def ReportedDown (s : Surveyed K) (id : String) : Prop :=
  ∃ fresh ∈ s.sweep, fresh.id = id ∧ fresh.health = .down

/-- The health with which the latest sweep left a connection: the one that it was
held with, else the one reported. -/
def swept (s : Surveyed K) (id : String) : Option Health :=
  (s.before.held id).or (Registry.freshHealth s.sweep id)

/-- The decision sees no connection that the latest sweep reported as down. -/
def NotUsed (s : Surveyed K) (e : Event K) : Prop :=
  ∀ demand, e.action = .decide demand → ∀ a ∈ s.daemon.registry.all, s.ReportedDown a.id →
    a ∉ Allocator.poolOf s.daemon.registry.all ∧ a ∉ Allocator.eligible s.daemon.registry.all

/-- Of a connection that the latest sweep reported as down, and that may be used
otherwise, nothing was observed since, nor was it held as anything better. -/
def LeftDown (s : Surveyed K) (e : Event K) : Prop :=
  ∀ demand, e.action = .decide demand → ∀ a ∈ s.daemon.registry.all, s.ReportedDown a.id →
    (a.mode = .normal → a.role = .wan →
      a.id ∉ s.observed ∧ s.swept a.id ≠ some .good ∧ s.swept a.id ≠ some .degraded) ∧
    (a.mode = .backup → a.id ∉ s.observed ∧ s.swept a.id = some .down)

variable [Field K] [LinearOrder K]

def init (config : Config K) (file : Option (StateFile K)) (r : Reading K) : Surveyed K :=
  ⟨Daemon.init config file r, [], .empty, []⟩

variable [FloorRing K] [HalfPow K]

def step (s : Surveyed K) (e : Event K) : Surveyed K :=
  match e.action with
  | .discover seen => ⟨s.daemon.step e, seen, s.daemon.registry, []⟩
  | .measure atomic _ => ⟨s.daemon.step e, s.sweep, s.before, atomic.id :: s.observed⟩
  | .restart => ⟨s.daemon.step e, [], .empty, []⟩
  | _ => { s with daemon := s.daemon.step e }

/-- The registry holds what was swept with the health the sweep left it, or
with one that was observed since. -/
structure Known (s : Surveyed K) : Prop where
  swept : ∀ id ∈ s.sweep.map (·.id), id ∉ s.observed → s.daemon.registry.held id = s.swept id
  observed : ∀ id ∈ s.sweep.map (·.id), id ∈ s.observed →
    s.daemon.registry.held id = some .good ∨ s.daemon.registry.held id = some .degraded

variable {s : Surveyed K}

omit [FloorRing K] [HalfPow K] in
theorem known_init (config : Config K) (file : Option (StateFile K)) (r : Reading K) :
    (init config file r).Known := by
  constructor <;> intro id hid <;> cases hid

omit [Field K] [LinearOrder K] [FloorRing K] [HalfPow K] in
theorem Known.isSome (h : s.Known) {id : String} (hid : id ∈ s.sweep.map (·.id)) :
    (s.daemon.registry.held id).isSome := by
  by_cases ho : id ∈ s.observed
  · rcases h.observed id hid ho with hheld | hheld <;> simp [hheld]
  · have hfresh : (Registry.freshHealth s.sweep id).isSome := Registry.isSome_freshHealth hid
    simp [h.swept id hid ho, Surveyed.swept, hfresh]

theorem known_measure (h : s.Known) (r : Reading K) (atomic : Atomic K)
    (observation : Observation K) : (s.step ⟨r, .measure atomic observation⟩).Known := by
  have hheld := Daemon.held_measureOne s.daemon r atomic observation
  constructor
  · intro id hid ho
    obtain ⟨hne, ho⟩ : id ≠ atomic.id ∧ id ∉ s.observed := by
      simpa [step] using ho
    exact ((hheld id).trans (if_neg hne)).trans (h.swept id hid ho)
  · intro id hid ho
    simp only [step, Daemon.step, hheld]
    rcases List.mem_cons.mp ho with heq | ho
    · obtain ⟨health, hsome⟩ := Option.isSome_iff_exists.mp (h.isSome hid)
      simp only [if_pos heq, hsome, Option.map_some, Option.some.injEq]
      exact Daemon.healthOf_cases s.daemon.config.thresholds observation
    · split
      · obtain ⟨health, hsome⟩ := Option.isSome_iff_exists.mp (h.isSome hid)
        simp only [hsome, Option.map_some, Option.some.injEq]
        exact Daemon.healthOf_cases s.daemon.config.thresholds observation
      · exact h.observed id hid ho

theorem known_step (h : s.Known) (e : Event K) : (s.step e).Known := by
  obtain ⟨r, action⟩ := e
  have hframe : ∀ {e : Event K}, (∀ seen, e.action ≠ .discover seen) →
      (∀ a o, e.action ≠ .measure a o) → e.action ≠ .restart →
      Known { s with daemon := s.daemon.step e } := by
    intro e hdiscover hmeasure hrestart
    have hheld := Daemon.held_step (d := s.daemon) hdiscover hmeasure hrestart
    exact ⟨fun id hid ho => (hheld id).trans (h.swept id hid ho), fun id hid ho => by
      simpa only [hheld] using h.observed id hid ho⟩
  cases action with
  | discover seen =>
    refine ⟨fun id hid _ => ?_, fun id _ ho => by cases ho⟩
    exact Registry.held_observe s.daemon.registry r.now hid
  | measure atomic observation => exact known_measure h r atomic observation
  | restart => constructor <;> intro id hid <;> cases hid
  | _ => exact hframe (fun _ => nofun) (fun _ _ => nofun) nofun

omit [Field K] [LinearOrder K] [FloorRing K] [HalfPow K] in
theorem notUsed_iff (h : s.Known) (e : Event K) : s.NotUsed e ↔ s.LeftDown e := by
  refine forall₂_congr fun demand _ => forall₃_congr fun a ha hdown => ?_
  have hget : s.daemon.registry.get? a.id = some a := Registry.mem_all.mp ha
  have hid : a.id ∈ s.sweep.map (·.id) := by
    obtain ⟨fresh, hfresh, heq, -⟩ := hdown
    exact List.mem_map.mpr ⟨fresh, hfresh, heq⟩
  rw [Registry.mem_poolOf_iff hget, Registry.mem_eligible_iff hget]
  by_cases ho : a.id ∈ s.observed
  · rcases h.observed a.id hid ho with hheld | hheld
    · simp [ho, hheld]
    · simp [ho, hheld]
  · obtain ⟨health, hsome⟩ := Option.isSome_iff_exists.mp (h.isSome hid)
    have hswept : s.swept a.id = some health := (h.swept a.id hid ho).symm.trans hsome
    simp [ho, hsome, hswept]

/-- No decision of a run sees a link that was reported as down exactly when none
of them was held as anything better, or observed in between. -/
theorem notUsed_run_iff (config : Config K) (file : Option (StateFile K)) (r : Reading K)
    (es : List (Event K)) :
    Runs.Along step NotUsed (init config file r) es ↔
      Runs.Along step LeftDown (init config file r) es :=
  Runs.along_iff (fun _ e h _ => known_step h e) (fun _ e h => notUsed_iff h e)
    (known_init config file r)

-- ---------------------------------------------------------------------------
-- Medium loops
-- ---------------------------------------------------------------------------

end Surveyed

namespace Daemon

variable [Field K] [LinearOrder K] [FloorRing K] [HalfPow K]

def beforeDecision (d : Daemon K) (r : Reading K) (w : World K) : Daemon K :=
  ((d.discoverOnce r w.discovered).classifyLanOutPorts r w.pipelines).measure r w.prober

def preparations (d : Daemon K) (r : Reading K) (w : World K) : List (Event K) :=
  let swept := d.discoverOnce r w.discovered
  let ports := (swept.considerPorts w.pipelines).outcomes.map fun _ => ⟨r, .applyOutcome⟩
  ⟨r, .consider w.pipelines⟩ ::
    (ports ++
      measurements r w.prober (swept.classifyLanOutPorts r w.pipelines).registry.present)

def pass (d : Daemon K) (r : Reading K) (w : World K) : List (Event K) :=
  let decided := (d.beforeDecision r w).decide r w.demand
  ⟨r, .discover w.discovered⟩ ::
    (d.preparations r w ++
      ⟨r, .decide w.demand⟩ :: decided.registry.backups.map fun a => ⟨r, .spend a⟩)

def passes : Daemon K → List (Reading K × World K) → List (Event K)
  | _, [] => []
  | d, (r, w) :: loops => d.pass r w ++ passes (d.mediumLoop r w) loops

/-- The decision of a medium loop sees no connection that its sweep reported as down. -/
def LeavesDown (d : Daemon K) (loop : Reading K × World K) : Prop :=
  let atomics := (d.beforeDecision loop.1 loop.2).registry.all
  ∀ a ∈ atomics, (∃ fresh ∈ loop.2.discovered, fresh.id = a.id ∧ fresh.health = .down) →
    a ∉ Allocator.poolOf atomics ∧ a ∉ Allocator.eligible atomics

theorem exec_applyOutcomes (d : Daemon K) (r : Reading K) (outcomes : List ClassificationOutcome) :
    Runs.exec step d (outcomes.map fun _ => ⟨r, .applyOutcome⟩) =
      d.applyOutcomes r outcomes.length := by
  induction outcomes generalizing d with
  | nil => rfl
  | cons o outcomes ih => exact ih (d.applyOutcome r)

theorem exec_spends (d : Daemon K) (r : Reading K) (backups : List (Atomic K)) :
    Runs.exec step d (backups.map fun a => ⟨r, .spend a⟩) = backups.foldl (spendOn r) d := by
  induction backups generalizing d with
  | nil => rfl
  | cons a backups ih => exact ih (spendOn r d a)

theorem exec_preparations (d : Daemon K) (r : Reading K) (w : World K) :
    Runs.exec step (d.discoverOnce r w.discovered) (d.preparations r w) = d.beforeDecision r w := by
  unfold preparations beforeDecision
  rw [Runs.exec_cons, Runs.exec_append]
  have hports : Runs.exec step ((d.discoverOnce r w.discovered).step ⟨r, .consider w.pipelines⟩)
      (((d.discoverOnce r w.discovered).considerPorts w.pipelines).outcomes.map
        fun _ => ⟨r, .applyOutcome⟩) =
      (d.discoverOnce r w.discovered).classifyLanOutPorts r w.pipelines :=
    exec_applyOutcomes _ r _
  rw [hports]
  exact exec_measurements _ r w.prober

theorem exec_pass (d : Daemon K) (r : Reading K) (w : World K) :
    Runs.exec step d (d.pass r w) = d.mediumLoop r w := by
  unfold pass
  rw [Runs.exec_cons, Runs.exec_append]
  have hbefore : Runs.exec step (d.step ⟨r, .discover w.discovered⟩) (d.preparations r w) =
      d.beforeDecision r w := exec_preparations d r w
  rw [hbefore, Runs.exec_cons]
  exact exec_spends _ r _

def Event.between (e : Event K) : Prop :=
  match e.action with
  | .discover _ | .decide _ | .restart => False
  | _ => True

omit [FloorRing K] [HalfPow K] in
theorem between_preparations (d : Daemon K) (r : Reading K) (w : World K) :
    ∀ e ∈ d.preparations r w, Event.between e := by
  intro e he
  rcases List.mem_cons.mp he with rfl | he
  · trivial
  · rcases List.mem_append.mp he with he | he
    · obtain ⟨o, -, rfl⟩ := List.mem_map.mp he
      trivial
    · obtain ⟨a, -, ha⟩ := List.mem_filterMap.mp he
      obtain ⟨o, -, rfl⟩ := Option.map_eq_some_iff.mp ha
      trivial

end Daemon

namespace Surveyed

variable [Field K] [LinearOrder K] [FloorRing K] [HalfPow K]

theorem daemon_step (s : Surveyed K) (e : Event K) : (s.step e).daemon = s.daemon.step e := by
  unfold step
  split <;> rfl

theorem daemon_exec (s : Surveyed K) (es : List (Event K)) :
    (Runs.exec step s es).daemon = Runs.exec Daemon.step s.daemon es :=
  Runs.map_exec daemon daemon_step

theorem sweep_step (s : Surveyed K) {e : Event K} (h : Daemon.Event.between e) :
    (s.step e).sweep = s.sweep := by
  obtain ⟨r, action⟩ := e
  cases action with
  | discover | restart => cases h
  | _ => rfl

theorem sweep_exec (s : Surveyed K) {es : List (Event K)} (h : ∀ e ∈ es, Daemon.Event.between e) :
    (Runs.exec step s es).sweep = s.sweep :=
  Runs.exec_keeps (P := fun t => t.sweep = s.sweep)
    (fun t e he ht => (sweep_step t (h e he)).trans ht) rfl

theorem along_notUsed (s : Surveyed K) {es : List (Event K)}
    (h : ∀ e ∈ es, ∀ demand, e.action ≠ .decide demand) : Runs.Along step NotUsed s es := by
  induction es generalizing s with
  | nil => trivial
  | cons e es ih =>
    obtain ⟨he, hes⟩ := List.forall_mem_cons.mp h
    exact ⟨fun demand hd => absurd hd (he demand), ih _ hes⟩

theorem along_pass_iff (s : Surveyed K) (r : Reading K) (w : World K) :
    Runs.Along step NotUsed s (s.daemon.pass r w) ↔ s.daemon.LeavesDown (r, w) := by
  let swept := s.step ⟨r, .discover w.discovered⟩
  have hbetween := s.daemon.between_preparations r w
  have hquiet : ∀ e ∈ s.daemon.preparations r w, ∀ demand, e.action ≠ .decide demand := by
    intro e he demand hd
    have hevent := hbetween e he
    simp only [Daemon.Event.between, hd] at hevent
  have hdaemon : (Runs.exec step swept (s.daemon.preparations r w)).daemon =
      s.daemon.beforeDecision r w :=
    (daemon_exec swept _).trans (s.daemon.exec_preparations r w)
  have hsweep : (Runs.exec step swept (s.daemon.preparations r w)).sweep = w.discovered :=
    sweep_exec swept hbetween
  have hspends : ∀ (t : Surveyed K) (backups : List (Atomic K)),
      Runs.Along step NotUsed t (backups.map fun a => ⟨r, .spend a⟩) := by
    refine fun t backups => along_notUsed t fun e he demand hd => ?_
    obtain ⟨a, -, rfl⟩ := List.mem_map.mp he
    cases hd
  unfold Daemon.pass
  rw [Runs.along_cons, Runs.along_append, Runs.along_cons]
  constructor
  · rintro ⟨-, -, h, -⟩
    have h := h w.demand rfl
    unfold ReportedDown at h
    rw [hdaemon, hsweep] at h
    exact h
  · intro h
    refine ⟨nofun, along_notUsed swept hquiet, ?_, hspends _ _⟩
    rintro demand -
    unfold ReportedDown
    rw [hdaemon, hsweep]
    exact h

theorem along_passes_iff (s : Surveyed K) (loops : List (Reading K × World K)) :
    Runs.Along step NotUsed s (s.daemon.passes loops) ↔
      Runs.Along (fun d loop => d.mediumLoop loop.1 loop.2) Daemon.LeavesDown s.daemon loops := by
  induction loops generalizing s with
  | nil => rfl
  | cons loop loops ih =>
    obtain ⟨r, w⟩ := loop
    have hdaemon : (Runs.exec step s (s.daemon.pass r w)).daemon = s.daemon.mediumLoop r w :=
      (daemon_exec s _).trans (s.daemon.exec_pass r w)
    have ih := ih (Runs.exec step s (s.daemon.pass r w))
    rw [hdaemon] at ih
    rw [Daemon.passes, Runs.along_append, along_pass_iff, ih, Runs.along_cons]

end Surveyed

-- ---------------------------------------------------------------------------
-- An adapter without a cable
-- ---------------------------------------------------------------------------

def unanswered : Observation ℚ := ⟨"usb:dock", 0, 0, none, none, some 100, none, false⟩

def adapterLoop (now : ℚ) (carrier : Bool) (answer : Option (Observation ℚ)) :
    Reading ℚ × World ℚ :=
  (⟨now, now⟩, ⟨[dock carrier], fun _ => none, fun _ => answer, browsing, wired⟩)

/-- It never had a cable, and from the second loop on its counters are compared. -/
def neverPlugged : List (Reading ℚ × World ℚ) :=
  [adapterLoop 0 false none, adapterLoop 5 false (some unanswered)]

def pulledOut : List (Reading ℚ × World ℚ) :=
  [adapterLoop 0 true none, adapterLoop 5 false (some unanswered)]

namespace Surveyed

theorem used_without_carrier :
    ¬Runs.Along step NotUsed (init hotspot none ⟨0, 0⟩)
        ((Daemon.init hotspot none ⟨0, 0⟩).passes neverPlugged) ∧
      ¬Runs.Along step NotUsed (init hotspot none ⟨0, 0⟩)
        ((Daemon.init hotspot none ⟨0, 0⟩).passes pulledOut) := by
  have hused : ∀ {d : Daemon ℚ} {answer : Option (Observation ℚ)},
      (∃ a ∈ (d.beforeDecision ⟨5, 5⟩ (adapterLoop 5 false answer).2).registry.all,
        a.id = "usb:dock" ∧ a.inNormalPool = true) →
      ¬d.LeavesDown (adapterLoop 5 false answer) := by
    rintro d answer ⟨a, ha, hid, hpool⟩ h
    exact (h a ha ⟨dock false, by simp [adapterLoop], hid.symm, rfl⟩).1
      (List.mem_filter.mpr ⟨ha, hpool⟩)
  constructor
  · intro h
    obtain ⟨-, h, -⟩ := (along_passes_iff (init hotspot none ⟨0, 0⟩) neverPlugged).mp h
    exact hused (by decide +kernel) h
  · intro h
    obtain ⟨-, h, -⟩ := (along_passes_iff (init hotspot none ⟨0, 0⟩) pulledOut).mp h
    exact hused (by decide +kernel) h

end Surveyed

end Wifucked
