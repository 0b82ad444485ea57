import Wifucked.Atomics.Merging
import Wifucked.Daemon.Learning
import Wifucked.Probe.Aging

/-!
# The age of an estimate across restarts

The monotonic clock starts anew with each process, and the file carries ages.
No measurement is dated after the clock it was read from, so writing a registry
and loading it elsewhere moves each date with the clock. What an estimate is
believed at then does not tell how often the daemon was restarted.
-/

namespace Wifucked

variable {K : Type}

def Dated [LE K] (now : K) (a : Atomic K) : Prop :=
  ∀ measuredAt, a.capacity.measuredAt = some measuredAt → measuredAt ≤ now

def AgedStored [LE K] [Zero K] (e : StoredAtomic K) : Prop :=
  ∀ age, e.capacity.measuredAgeS = some age → 0 ≤ age

/-- What a connection that comes back has of the one that was written. -/
structure Restored (a b : Atomic K) : Prop where
  kind : b.kind = a.kind
  label : b.label = a.label
  mode : b.mode = a.mode
  role : b.role = a.role
  everConnected : b.everConnected = a.everConnected
  cost : b.cost = a.cost
  attributes : b.attributes = a.attributes
  downBps : b.capacity.downBps = a.capacity.downBps
  upBps : b.capacity.upBps = a.capacity.upBps
  confidence : b.capacity.confidence = a.capacity.confidence
  present : b.present = false
  ifname : b.ifname = none

/-- The same estimate by a clock that is ahead. -/
def Capacity.ahead [Add K] (c : Capacity K) (lead : K) : Capacity K :=
  { c with measuredAt := c.measuredAt.map (· + lead) }

variable [Field K]

theorem Capacity.ahead_ahead (c : Capacity K) (lead further : K) :
    (c.ahead lead).ahead further = c.ahead (lead + further) := by
  simp [Capacity.ahead, Function.comp_def, add_assoc]

theorem Capacity.ahead_zero (c : Capacity K) : c.ahead 0 = c := by
  simp [Capacity.ahead]

variable [LinearOrder K]

def reload (reg : Registry K) (off on : Reading K) : Registry K :=
  Registry.load (reg.persist off.now off.wall) on.now on.wall

/-- A registry written at `off` and loaded at `on`. -/
structure Reloaded [HalfPow K] (reg : Registry K) (off on : Reading K) : Prop where
  ids : ∀ id, ((reload reg off on).get? id).isSome ↔
    ∃ a, reg.get? id = some a ∧ (a.mode ≠ .unused ∨ a.everConnected = true)
  restored : ∀ id a b, reg.get? id = some a → (reload reg off on).get? id = some b → Restored a b
  decay : ∀ id a b, reg.get? id = some a → (reload reg off on).get? id = some b → ∀ d,
    decayConfidence b.capacity (on.now + d) =
      decayConfidence a.capacity (off.now + (on.wall - off.wall) + d)

/-- The daemon and the last reading of its clock. -/
structure Timed (K : Type) where
  daemon : Daemon K
  clock : K

namespace Timed

variable [FloorRing K] [HalfPow K]

def init (config : Config K) (r : Reading K) : Timed K := ⟨.init config none r, r.now⟩

def step (s : Timed K) (e : Event K) : Timed K := ⟨s.daemon.step e, e.reading.now⟩

/-- The clock of a process does not run backwards, a sweep measures nothing, and
a measuring pass folds into what the registry holds. -/
def Steady (s : Timed K) (e : Event K) : Prop :=
  match e.action with
  | .restart => True
  | .discover seen => s.clock ≤ e.reading.now ∧ ∀ a ∈ seen, a.capacity = .unmeasured
  | .measure atomic _ => s.clock ≤ e.reading.now ∧
      ∀ a, s.daemon.registry.get? atomic.id = some a → a.capacity = atomic.capacity
  | _ => s.clock ≤ e.reading.now

def Past (s : Timed K) : Prop := s.daemon.Keeps (Dated s.clock) AgedStored

end Timed

inductive Turn (K : Type) where
  | call (c : Call K)
  | cycle (off on : Reading K)

/-- A registry through its processes: the last reading of the clock, and what an
uninterrupted process would read. -/
structure Lived (K : Type) where
  registry : Registry K
  clock : K
  uninterrupted : K

namespace Lived

def step (s : Lived K) : Turn K → Lived K
  | .call c => { s with registry := s.registry.call c }
  | .cycle off on =>
    { registry := reload s.registry off on
      clock := on.now
      uninterrupted := s.uninterrupted + (off.now - s.clock) + (on.wall - off.wall) }

/-- The connection is not measured anew, and it is there to be written. -/
def Unmeasured (id : String) (s : Lived K) : Turn K → Prop
  | .call (.updateCapacity j _) => j ≠ id
  | .call _ => True
  | .cycle off on => s.clock ≤ off.now ∧ off.wall ≤ on.wall ∧
      ((s.registry.get? id).any Registry.worthPersisting) = true

/-- The estimate is that of the uninterrupted process by the present clock. -/
structure Ages (id : String) (c : Capacity K) (s : Lived K) : Prop where
  capacity : (s.registry.get? id).map (·.capacity) = some (c.ahead (s.clock - s.uninterrupted))
  past : ∀ m, c.measuredAt = some m → m ≤ s.uninterrupted

end Lived

-- ---------------------------------------------------------------------------
-- One atomic
-- ---------------------------------------------------------------------------

theorem aged_store (now : K) (a : Atomic K) : AgedStored (Registry.store now a) := by
  intro age h
  obtain ⟨m, -, rfl⟩ := Option.map_eq_some_iff.mp h
  exact le_max_left _ _

omit [Field K] in
theorem remembered_dated (now : K) : Remembered (Dated now) where
  seen _ h _ _ _ _ _ _ _ := h
  quality _ h _ := h
  cost _ h _ := h

variable [IsStrictOrderedRing K]

theorem dated_restore {e : StoredAtomic K} (h : AgedStored e) (he : 0 ≤ elapsed) (now : K) :
    Dated now (Registry.restore elapsed now e) := by
  intro m hm
  obtain ⟨age, hage, rfl⟩ := Option.map_eq_some_iff.mp hm
  exact sub_le_self now (add_nonneg (h age hage) he)

theorem capacity_restore_store {a : Atomic K} (h : Dated now a) (elapsed later : K) :
    (Registry.restore elapsed later (Registry.store now a)).capacity =
      a.capacity.ahead (later - (now + elapsed)) := by
  have hage : ∀ m, a.capacity.measuredAt = some m →
      later - (max 0 (now - m) + elapsed) = m + (later - (now + elapsed)) := by
    intro m hm
    rw [max_eq_right (sub_nonneg.mpr (h m hm))]
    ring
  cases hm : a.capacity.measuredAt with
  | none =>
    simp [Registry.restore, Registry.reconstructCapacity, Registry.store, Capacity.ahead, hm]
  | some m =>
    simp [Registry.restore, Registry.reconstructCapacity, Registry.store, Capacity.ahead, hm,
      hage m hm]

variable [HalfPow K]

omit [IsStrictOrderedRing K] in
theorem decayConfidence_ahead (c : Capacity K) (lead now : K) :
    decayConfidence (c.ahead lead) (now + lead) = decayConfidence c now := by
  cases hm : c.measuredAt with
  | none => simp [decayConfidence, Capacity.ahead, hm]
  | some m => simp [decayConfidence, Capacity.ahead, Capacity.known, hm]

-- ---------------------------------------------------------------------------
-- Persisting and loading
-- ---------------------------------------------------------------------------

omit [IsStrictOrderedRing K] [HalfPow K] in
theorem get?_reload (reg : Registry K) (off on : Reading K) (id : String) :
    (reload reg off on).get? id = ((reg.get? id).filter Registry.worthPersisting).map fun a =>
      Registry.restore (max 0 (on.wall - off.wall)) on.now (Registry.store off.now a) := by
  simp [reload, Registry.load, Registry.persist, Keyed.get?_map, Keyed.get?_filter,
    Function.comp_def]

omit [IsStrictOrderedRing K] [HalfPow K] in
theorem of_get?_reload {reg : Registry K} {off on : Reading K} {id : String}
    (ha : reg.get? id = some a) (hb : (reload reg off on).get? id = some b) :
    b = Registry.restore (max 0 (on.wall - off.wall)) on.now (Registry.store off.now a) := by
  rw [get?_reload, ha] at hb
  obtain ⟨a', ha', rfl⟩ := Option.map_eq_some_iff.mp hb
  rw [Option.some.inj (Option.filter_eq_some_iff.mp ha').1]

omit [HalfPow K] in
theorem capacity_reload {reg : Registry K} {off on : Reading K} {id : String}
    (hdated : Dated off.now a) (hwall : off.wall ≤ on.wall)
    (ha : reg.get? id = some a) (hb : (reload reg off on).get? id = some b) :
    b.capacity = a.capacity.ahead (on.now - (off.now + (on.wall - off.wall))) := by
  rw [of_get?_reload ha hb, capacity_restore_store hdated,
    max_eq_right (sub_nonneg.mpr hwall)]

theorem reloaded {reg : Registry K} {off on : Reading K} (hdated : reg.All (Dated off.now))
    (hwall : off.wall ≤ on.wall) : Reloaded reg off on where
  ids id := by
    rw [get?_reload, Option.isSome_map]
    cases reg.get? id with
    | none => simp
    | some a => simp [Option.filter, Registry.worthPersisting, apply_ite]
  restored id a b ha hb := by
    obtain rfl := of_get?_reload ha hb
    exact ⟨rfl, rfl, rfl, rfl, rfl, rfl, rfl, rfl, rfl, rfl, rfl, rfl⟩
  decay id a b ha hb d := by
    have hnow : on.now + d = off.now + (on.wall - off.wall) + d +
        (on.now - (off.now + (on.wall - off.wall))) := by ring
    rw [capacity_reload (hdated.of_get? ha) hwall ha hb, hnow, decayConfidence_ahead]

-- ---------------------------------------------------------------------------
-- No measurement is dated in the future
-- ---------------------------------------------------------------------------

namespace Timed

variable [FloorRing K]

omit [HalfPow K] [FloorRing K] in
theorem past_init (config : Config K) (r : Reading K) : (init config r).Past :=
  Daemon.keeps_loaded (fun _ he _ helapsed => dated_restore he helapsed r.now) config
    fun f hf => by cases hf

omit [IsStrictOrderedRing K] in
theorem measuredAt_fold (c : Capacity K) (o : Observation K) (now : K) :
    (fold c o now).measuredAt = some now ∨ (fold c o now).measuredAt = c.measuredAt := by
  simp only [fold]
  split
  · exact .inl rfl
  · exact .inr rfl

omit [IsStrictOrderedRing K] in
theorem respects_dated {s : Timed K} (h : s.daemon.registry.All (Dated e.reading.now))
    (he : s.Steady e) : s.daemon.Respects (Dated e.reading.now) e := by
  obtain ⟨r, action⟩ := e
  cases action with
  | discover seen =>
    intro a ha _ m hm
    have hc : (a.discovered r.now).capacity = .unmeasured := he.2 a ha
    rw [hc] at hm
    cases hm
  | applyOutcome => exact fun o _ a ha => (h.of_get? ha : Dated r.now a)
  | measure atomic observation =>
    intro a ha m hm
    rcases measuredAt_fold atomic.capacity observation r.now with hnow | hkept
    · obtain rfl : r.now = m := Option.some.inj (hnow.symm.trans hm)
      exact le_refl _
    · have hheld : a.capacity.measuredAt = atomic.capacity.measuredAt := by rw [he.2 a ha]
      exact h.of_get? ha m (hheld.trans (hkept.symm.trans hm))
  | setMode id mode => exact fun a ha => (h.of_get? ha : Dated r.now a)
  | _ => trivial

theorem past_step {s : Timed K} (h : s.Past) {e : Event K} (he : s.Steady e) :
    (s.step e).Past := by
  obtain ⟨r, action⟩ := e
  by_cases hr : action = .restart
  · subst hr
    exact Daemon.keeps_loaded (fun _ he _ helapsed => dated_restore he helapsed r.now)
      s.daemon.config h.file
  · have hclock : s.clock ≤ r.now := by
      cases action with
      | restart => exact absurd rfl hr
      | discover seen => exact he.1
      | measure atomic observation => exact he.1
      | _ => exact he
    have hdated : s.daemon.registry.All (Dated r.now) :=
      fun a ha m hm => (h.registry a ha m hm).trans hclock
    have hregistry := Daemon.all_step (remembered_dated r.now) hdated (respects_dated hdated he) hr
    refine ⟨hregistry, fun f hf => ?_⟩
    rcases Daemon.file_step hf with hf | rfl
    · exact h.file f hf
    · exact Keyed.all_map (R := AgedStored) (Keyed.all_filter hregistry) (Registry.store_id _)
        fun a _ => aged_store r.now a

end Timed

-- ---------------------------------------------------------------------------
-- Any number of restarts
-- ---------------------------------------------------------------------------

namespace Lived

variable {id : String} {c : Capacity K} {s : Lived K}

omit [HalfPow K]

theorem ages_cycle (h : Ages id c s) {off on : Reading K} (hclock : s.clock ≤ off.now)
    (hwall : off.wall ≤ on.wall)
    (hworth : ((s.registry.get? id).any Registry.worthPersisting) = true) :
    Ages id c (s.step (.cycle off on)) := by
  obtain ⟨a, ha, hworth⟩ := (Option.any_eq_true _ _).mp hworth
  have hc : a.capacity = c.ahead (s.clock - s.uninterrupted) := by
    simpa [ha] using h.capacity
  have hdated : Dated off.now a := by
    intro m hm
    rw [hc] at hm
    obtain ⟨m', hm', rfl⟩ := Option.map_eq_some_iff.mp hm
    have hpast := h.past m' hm'
    linarith
  have hlead : s.clock - s.uninterrupted + (on.now - (off.now + (on.wall - off.wall))) =
      on.now - (s.uninterrupted + (off.now - s.clock) + (on.wall - off.wall)) := by ring
  obtain ⟨b, hb⟩ : ∃ b, (reload s.registry off on).get? id = some b := by
    rw [get?_reload, ha]
    simp [Option.filter, hworth]
  refine ⟨?_, ?_⟩
  · simp only [step, hb, Option.map_some]
    rw [capacity_reload hdated hwall ha hb, hc, Capacity.ahead_ahead, hlead]
  · intro m hm
    have hpast := h.past m hm
    simp only [step]
    linarith

theorem ages_step (h : Ages id c s) {turn : Turn K} (hturn : s.Unmeasured id turn) :
    Ages id c (s.step turn) := by
  cases turn with
  | call turn =>
    refine ⟨Registry.capacity_call h.capacity ?_, h.past⟩
    rintro j capacity rfl
    exact hturn
  | cycle off on => exact ages_cycle h hturn.1 hturn.2.1 hturn.2.2

omit [IsStrictOrderedRing K] in
theorem ages_start {reg : Registry K} (ha : reg.get? id = some a) (hdated : Dated now a) :
    Ages id a.capacity ⟨reg, now, now⟩ where
  capacity := by simp [ha, Capacity.ahead_zero]
  past := hdated

omit [IsStrictOrderedRing K] in
/-- Nothing tells the age from that in the uninterrupted process. -/
theorem Ages.decay [HalfPow K] (h : Ages id c s) : ∃ b, s.registry.get? id = some b ∧
    ∀ d, decayConfidence b.capacity (s.clock + d) = decayConfidence c (s.uninterrupted + d) := by
  obtain ⟨b, hb, hc⟩ := Option.map_eq_some_iff.mp h.capacity
  refine ⟨b, hb, ?_⟩
  intro d
  have hnow : s.clock + d = s.uninterrupted + d + (s.clock - s.uninterrupted) := by ring
  rw [hc, hnow, decayConfidence_ahead]

end Lived

variable [FloorRing K]

/-- A registry that the daemon can have comes back from the file with what is
remembered, and as old as it would be in a process that never stopped. -/
theorem persist_load_faithful (config : Config K) (r : Reading K) (es : List (Event K))
    (h : Runs.Along Timed.step Timed.Steady (.init config r) es) :
    let s := Runs.exec Timed.step (.init config r) es
    (∀ off on : Reading K, s.clock ≤ off.now → off.wall ≤ on.wall →
      Reloaded s.daemon.registry off on) ∧
    ∀ id a turns, s.daemon.registry.get? id = some a →
      Runs.Along Lived.step (Lived.Unmeasured id) ⟨s.daemon.registry, s.clock, s.clock⟩ turns →
      let t := Runs.exec Lived.step ⟨s.daemon.registry, s.clock, s.clock⟩ turns
      ∃ b, t.registry.get? id = some b ∧ ∀ d,
        decayConfidence b.capacity (t.clock + d) =
          decayConfidence a.capacity (t.uninterrupted + d) := by
  intro s
  have hpast : s.Past :=
    Runs.exec_of_along (P := Timed.Past) (fun _ _ _ h he => Timed.past_step h he) h
      (Timed.past_init config r)
  refine ⟨?_, ?_⟩
  · intro off on hclock hwall
    exact reloaded (fun a ha m hm => (hpast.registry a ha m hm).trans hclock) hwall
  · intro id a turns ha hturns t
    have hages : Lived.Ages id a.capacity t :=
      Runs.exec_of_along (P := Lived.Ages id a.capacity)
        (fun _ _ _ h he => Lived.ages_step h he) hturns
        (Lived.ages_start ha (hpast.registry.of_get? ha))
    exact hages.decay

theorem steady_measuredOnce :
    Runs.Along Timed.step Timed.Steady (.init hotspot ⟨0, 0⟩) Daemon.measuredOnce := by
  obtain ⟨hfresh, hheld, -⟩ := Daemon.measuredOnce_genuine
  refine ⟨⟨le_refl _, fun a ha => (hfresh a ha).capacity⟩, ⟨le_refl _, hheld.1⟩, trivial⟩

/-- Written after ten seconds, loaded ninety later by a clock that reads three. -/
theorem persist_load_measuredOnce :
    let s := Runs.exec Timed.step (.init hotspot ⟨0, 0⟩) Daemon.measuredOnce
    Reloaded s.daemon.registry ⟨10, 10⟩ ⟨3, 100⟩ ∧
      let t := Runs.exec Lived.step ⟨s.daemon.registry, 0, 0⟩ [.cycle ⟨10, 10⟩ ⟨3, 100⟩]
      ∃ b, t.registry.get? "usb:dock" = some b ∧
        decayConfidence b.capacity 3 = decayConfidence ⟨7000000, 700000, 0.3, some 0⟩ 100 := by
  intro s
  obtain ⟨hreloaded, hages⟩ :=
    persist_load_faithful hotspot ⟨0, 0⟩ Daemon.measuredOnce steady_measuredOnce
  refine ⟨hreloaded ⟨10, 10⟩ ⟨3, 100⟩ (by decide) (by decide), ?_⟩
  intro t
  have hclock : t.clock + 0 = 3 := by decide +kernel
  have huninterrupted : t.uninterrupted + 0 = 100 := by decide +kernel
  obtain ⟨a, ha, hc⟩ : ∃ a, s.daemon.registry.get? "usb:dock" = some a ∧
      a.capacity = ⟨7000000, 700000, 0.3, some 0⟩ := by
    refine ⟨_, rfl, ?_⟩
    decide +kernel
  obtain ⟨b, hb, hdecay⟩ := hages "usb:dock" a [.cycle ⟨10, 10⟩ ⟨3, 100⟩] ha
    ⟨⟨by decide, by decide, by decide +kernel⟩, trivial⟩
  refine ⟨b, hb, ?_⟩
  rw [← hclock, ← huninterrupted, ← hc]
  exact hdecay 0

end Wifucked
