import Wifucked.Daemon.Upstream
import Wifucked.Probe.Estimates

/-!
# What sweeps and measuring passes promise

A sweep leaves what is remembered to the registry, a measuring pass folds into
the capacity that the registry holds, and no counter runs backwards. Under
these no capacity is ever negative.
-/

namespace Wifucked

variable {K : Type}

namespace Daemon

section

variable [Field K] [LinearOrder K] [FloorRing K] [HalfPow K]

def Genuine (d : Daemon K) (e : Event K) : Prop :=
  match e.action with
  | .discover seen => ∀ a ∈ seen, a.Fresh
  | .measure atomic observation =>
    (∀ a, d.registry.get? atomic.id = some a → a.capacity = atomic.capacity) ∧
      0 ≤ observation.downBps ∧ 0 ≤ observation.upBps
  | _ => True

def measurements (r : Reading K) (prober : Atomic K → Option (Observation K))
    (atomics : List (Atomic K)) : List (Event K) :=
  atomics.filterMap fun a => (prober a).map fun o => ⟨r, .measure a o⟩

theorem get?_measureOne (d : Daemon K) (r : Reading K) (atomic : Atomic K)
    (observation : Observation K) (id : String) :
    (d.measureOne r atomic observation).registry.get? id =
      if id = atomic.id then
        (d.registry.get? id).map fun a =>
          { a with
            capacity := fold atomic.capacity observation r.now
            quality := qualityOf observation
            health := healthOf d.config.thresholds observation }
      else d.registry.get? id := by
  simp only [measureOne, Registry.updateHealth_eq, Registry.setQuality, Registry.updateCapacity]
  by_cases h : id = atomic.id
  · subst h
    rw [Keyed.get?_modify, Keyed.get?_modify, Keyed.get?_modify]
    · simp only [if_true, Option.map_map]
      rfl
    · exact fun _ => rfl
    · exact fun _ => rfl
    · exact fun _ => rfl
  · rw [if_neg h, Keyed.get?_modify, if_neg h, Keyed.get?_modify, if_neg h, Keyed.get?_modify,
      if_neg h]
    · exact fun _ => rfl
    · exact fun _ => rfl
    · exact fun _ => rfl

theorem exec_measurements (d : Daemon K) (r : Reading K)
    (prober : Atomic K → Option (Observation K)) :
    Runs.exec step d (measurements r prober d.registry.present) = d.measure r prober := by
  unfold measure
  generalize d.registry.present = atomics
  induction atomics generalizing d with
  | nil => rfl
  | cons a atomics ih =>
    rw [List.foldl_cons, ← ih]
    unfold measurements
    rw [List.filterMap_cons]
    cases prober a with
    | none => rfl
    | some o => rfl

theorem genuine_measurements (d : Daemon K) (r : Reading K)
    {prober : Atomic K → Option (Observation K)}
    (hp : ∀ a o, prober a = some o → 0 ≤ o.downBps ∧ 0 ≤ o.upBps) :
    Runs.Along step Genuine d (measurements r prober d.registry.present) := by
  have hheld : ∀ a ∈ d.registry.present, d.registry.get? a.id = some a := fun a ha =>
    Registry.mem_all.mp (List.mem_of_mem_filter ha)
  have hids : (d.registry.present.map (·.id)).Nodup :=
    d.registry.nodup_all.sublist (List.filter_sublist.map _)
  generalize d.registry.present = atomics at hheld hids
  induction atomics generalizing d with
  | nil => trivial
  | cons a atomics ih =>
    obtain ⟨ha, hheld⟩ := List.forall_mem_cons.mp hheld
    obtain ⟨hnot, hids⟩ := List.nodup_cons.mp hids
    unfold measurements
    rw [List.filterMap_cons]
    cases ho : prober a with
    | none => exact ih d hheld hids
    | some o =>
      refine ⟨⟨fun b hb => ?_, hp a o ho⟩, ih _ (fun b hb => ?_) hids⟩
      · rw [ha] at hb
        rw [Option.some.inj hb]
      · have hne : a.id ≠ b.id := fun h => hnot (List.mem_map.mpr ⟨b, hb, h.symm⟩)
        exact (get?_measureOne d r a o b.id).trans ((if_neg hne.symm).trans (hheld b hb))

end

-- ---------------------------------------------------------------------------
-- No capacity is negative
-- ---------------------------------------------------------------------------

def Capacious (a : Atomic K) : Prop := 0 ≤ a.capacity.downBps ∧ 0 ≤ a.capacity.upBps

def CapaciousStored (e : StoredAtomic K) : Prop := 0 ≤ e.capacity.downBps ∧ 0 ≤ e.capacity.upBps

variable [Field K] [LinearOrder K]

theorem durable_capacious : Durable (K := K) Capacious CapaciousStored where
  seen _ h _ _ _ _ _ _ _ := h
  quality _ h _ := h
  cost _ h _ := h
  stored _ h _ := h
  restored _ h _ _ _ := h

variable [IsStrictOrderedRing K] [FloorRing K]

variable [HalfPow K]

theorem fold_nonneg {c : Capacity K} {o : Observation K} (hc : 0 ≤ c.downBps ∧ 0 ≤ c.upBps)
    (ho : 0 ≤ o.downBps ∧ 0 ≤ o.upBps) (now : K) :
    0 ≤ (fold c o now).downBps ∧ 0 ≤ (fold c o now).upBps := by
  obtain ⟨hdown, hup⟩ := fold_within ⟨hc.1, le_rfl⟩ ⟨hc.2, le_rfl⟩ ho now
  exact ⟨hdown.1, hup.1⟩

theorem respects_capacious {d : Daemon K} (h : d.Keeps Capacious CapaciousStored) {e : Event K}
    (he : d.Genuine e) : d.Respects Capacious e := by
  obtain ⟨r, action⟩ := e
  cases action with
  | discover seen =>
    intro a ha _
    have hc : (a.discovered r.now).capacity = .unmeasured := (he a ha).capacity
    simp [Capacious, hc, Capacity.unmeasured]
  | applyOutcome => exact fun o _ a ha => (h.registry.of_get? ha : Capacious a)
  | measure atomic observation =>
    intro a ha
    have hc : Capacious a := h.registry.of_get? ha
    exact fold_nonneg (he.1 a ha ▸ hc) he.2 r.now
  | setMode id mode => exact fun a ha => (h.registry.of_get? ha : Capacious a)
  | _ => trivial

theorem capacious_run (config : Config K) (r : Reading K) {es : List (Event K)}
    (hes : Runs.Along step Genuine (init config none r) es) :
    (Runs.exec step (init config none r) es).registry.All Capacious :=
  (Runs.exec_of_along (P := Keeps Capacious CapaciousStored)
    (fun _ _ _ h he => keeps_step durable_capacious h (respects_capacious h he)) hes
    (keeps_init durable_capacious config (by simp) r)).registry

end Daemon

end Wifucked
