import Wifucked.Atomics.Registry
import Wifucked.Probe.Aging

/-!
# The life of an estimate

An estimate is folded, written to the state file and read back by a process
whose clock starts anew. What keeps it in bounds is proved of each step; how much
of it is believed falls with time, but for a restart, which goes back to what was
written.
-/

namespace Wifucked

-- ---------------------------------------------------------------------------
-- Means
-- ---------------------------------------------------------------------------

section

variable {K : Type} [Field K] [LinearOrder K] [IsStrictOrderedRing K] [FloorRing K] {weight : K}
  {old new high : ℤ}

theorem mean_nonneg (h0 : 0 ≤ weight) (h1 : weight ≤ 1) (ho : 0 ≤ old) (hn : 0 ≤ new) :
    (0 : K) ≤ (old : K) * (1 - weight) + (new : K) * weight := by
  have hold : (0 : K) ≤ old := Int.cast_nonneg ho
  have hnew : (0 : K) ≤ new := Int.cast_nonneg hn
  exact add_nonneg (mul_nonneg hold (sub_nonneg.mpr h1)) (mul_nonneg hnew h0)

theorem ewma_eq_floor (h0 : 0 ≤ weight) (h1 : weight ≤ 1) (ho : 0 ≤ old) (hn : 0 ≤ new) :
    ewma weight old new = ⌊(old : K) * (1 - weight) + (new : K) * weight⌋ := by
  rw [ewma, trunc, if_pos (mean_nonneg h0 h1 ho hn)]

theorem ewma_nonneg (h0 : 0 ≤ weight) (h1 : weight ≤ 1) (ho : 0 ≤ old) (hn : 0 ≤ new) :
    0 ≤ ewma weight old new := by
  rw [ewma_eq_floor h0 h1 ho hn]
  exact Int.floor_nonneg.mpr (mean_nonneg h0 h1 ho hn)

theorem ewma_le (h0 : 0 ≤ weight) (h1 : weight ≤ 1) (ho : 0 ≤ old) (hn : 0 ≤ new)
    (hold : old ≤ high) (hnew : new ≤ high) : ewma weight old new ≤ high := by
  have hold' : (old : K) * (1 - weight) ≤ high * (1 - weight) :=
    mul_le_mul_of_nonneg_right (Int.cast_le.mpr hold) (sub_nonneg.mpr h1)
  have hnew' : (new : K) * weight ≤ high * weight :=
    mul_le_mul_of_nonneg_right (Int.cast_le.mpr hnew) h0
  have hmean : (old : K) * (1 - weight) + new * weight ≤ high := by
    calc (old : K) * (1 - weight) + new * weight ≤ high * (1 - weight) + high * weight :=
          add_le_add hold' hnew'
      _ = high := by ring
  rw [ewma_eq_floor h0 h1 ho hn]
  exact Int.cast_le.mp ((Int.floor_le _).trans hmean)

variable [HalfPow K]

theorem foldWeight_bounds (c : Capacity K) (now : K) :
    (0 : K) ≤ (if 0.5 < decayConfidence c now then 0.4 else 0.7) ∧
      (if 0.5 < decayConfidence c now then 0.4 else 0.7) ≤ (1 : K) := by
  split <;> norm_num

theorem fold_within {c : Capacity K} {o : Observation K} {down up : Int}
    (hdown : 0 ≤ c.downBps ∧ c.downBps ≤ down) (hup : 0 ≤ c.upBps ∧ c.upBps ≤ up)
    (ho : 0 ≤ o.downBps ∧ 0 ≤ o.upBps) (now : K) :
    (0 ≤ (fold c o now).downBps ∧
        (fold c o now).downBps ≤ if o.saturated then max down o.downBps else down) ∧
      0 ≤ (fold c o now).upBps ∧
        (fold c o now).upBps ≤ if o.saturated then max up o.upBps else up := by
  obtain ⟨h0, h1⟩ := foldWeight_bounds c now
  unfold fold
  split
  · refine ⟨⟨ewma_nonneg h0 h1 hdown.1 ho.1, ?_⟩, ewma_nonneg h0 h1 hup.1 ho.2, ?_⟩
    · exact ewma_le h0 h1 hdown.1 ho.1 (hdown.2.trans (le_max_left _ _)) (le_max_right _ _)
    · exact ewma_le h0 h1 hup.1 ho.2 (hup.2.trans (le_max_left _ _)) (le_max_right _ _)
  · exact ⟨hdown, hup⟩

end

-- ---------------------------------------------------------------------------
-- Folding, writing and reading back
-- ---------------------------------------------------------------------------

section

variable {K : Type} [Field K] [LinearOrder K]

def Capacity.stored (c : Capacity K) (now : K) : StoredCapacity K where
  downBps := c.downBps
  upBps := c.upBps
  confidence := c.confidence
  measuredAgeS := c.measuredAt.map fun measuredAt => max 0 (now - measuredAt)

theorem capacity_store (now : K) (a : Atomic K) :
    (Registry.store now a).capacity = a.capacity.stored now := rfl

theorem capacity_persist (reg : Registry K) (now wall : K) (id : String) :
    ((reg.persist now wall).atomics.get? id).map (·.capacity) =
      ((reg.get? id).filter Registry.worthPersisting).map (·.capacity.stored now) := by
  simp [Registry.persist, Keyed.get?_map, Keyed.get?_filter, Function.comp_def, capacity_store]

theorem capacity_load (file : StateFile K) (now wall : K) (id : String) :
    ((Registry.load file now wall).get? id).map (·.capacity) =
      (file.atomics.get? id).map fun e =>
        Registry.reconstructCapacity e.capacity (max 0 (wall - file.persistedAtWall)) now := by
  simp [Registry.load, Keyed.get?_map, Function.comp_def, Registry.restore]

/-- The last three fields are a record of the run that no step reads: the
largest rates of a saturated observation, and what was believed of the estimate
when its row was written. -/
structure Life (K : Type) where
  capacity : Capacity K
  /-- The row of the state file, with the wall clock it was written at. -/
  saved : Option (K × StoredCapacity K)
  now : K
  downSeen : Int
  upSeen : Int
  atPersist : K

namespace Life

inductive Action (K : Type) where
  | wait
  | fold (observation : Observation K)
  /-- Whether the connection is worth a row, and the wall clock. -/
  | persist (kept : Bool) (wall : K)
  /-- A new process, with a clock of its own. -/
  | load (wall : K)

structure Event (K : Type) where
  now : K
  action : Action K

def start (now : K) : Life K := ⟨.unmeasured, none, now, 0, 0, 0⟩

def elapsed (l : Life K) (wall : K) : K :=
  match l.saved with
  | none => 0
  | some (written, _) => max 0 (wall - written)

variable [FloorRing K] [HalfPow K]

def belief (l : Life K) : K := decayConfidence l.capacity l.now

def step (l : Life K) (e : Event K) : Life K :=
  match e.action with
  | .wait => { l with now := e.now }
  | .fold o =>
    { l with
      capacity := Wifucked.fold l.capacity o e.now
      now := e.now
      downSeen := if o.saturated then max l.downSeen o.downBps else l.downSeen
      upSeen := if o.saturated then max l.upSeen o.upBps else l.upSeen }
  | .persist kept wall =>
    { l with
      saved := if kept then some (wall, l.capacity.stored e.now) else none
      now := e.now
      atPersist := if kept then decayConfidence l.capacity e.now else 0 }
  | .load wall =>
    { l with
      capacity :=
        match l.saved with
        | none => .unmeasured
        | some (_, row) => Registry.reconstructCapacity row (l.elapsed wall) e.now
      now := e.now }

/-- The clock of a process does not run back, and no rate is negative. -/
structure Admissible (l : Life K) (e : Event K) : Prop where
  clock : (∀ wall, e.action ≠ .load wall) → l.now ≤ e.now
  rates : ∀ o, e.action = .fold o → 0 ≤ o.downBps ∧ 0 ≤ o.upBps

structure WellFormed (l : Life K) : Prop where
  confidence : 0 ≤ l.capacity.confidence ∧ l.capacity.confidence ≤ 1
  measured : ∀ m, l.capacity.measuredAt = some m → m ≤ l.now
  down : 0 ≤ l.capacity.downBps ∧ l.capacity.downBps ≤ l.downSeen
  up : 0 ≤ l.capacity.upBps ∧ l.capacity.upBps ≤ l.upSeen

def NeverRises (l : Life K) (e : Event K) : Prop :=
  (∀ o, e.action = .fold o → o.saturated = false) → (l.step e).belief ≤ l.belief

/-- The same within a process; a new one believes what was believed when the row
was written, aged by the wall clock. -/
def Ages (l : Life K) (e : Event K) : Prop :=
  match e.action with
  | .load wall => (l.step e).belief =
      l.atPersist * halfPow (l.elapsed wall / confidenceHalfLifeS K)
  | _ => l.NeverRises e

/-- The estimate of a connection, in the registry and in the file. -/
structure Shows (l : Life K) (reg : Registry K) (file : Option (StateFile K)) (id : String) :
    Prop where
  capacity : l.capacity = ((reg.get? id).map (·.capacity)).getD .unmeasured
  saved : l.saved = file.bind fun f =>
    (f.atomics.get? id).map fun e => (f.persistedAtWall, e.capacity)

variable {l : Life K} {reg : Registry K} {id : String}

theorem shows_fold {file : Option (StateFile K)} (h : l.Shows reg file id) {a : Atomic K}
    (ha : reg.get? id = some a) (o : Observation K) (now : K) :
    (l.step ⟨now, .fold o⟩).Shows
      (reg.updateCapacity id (Wifucked.fold a.capacity o now)) file id where
  capacity := by
    have hcapacity : l.capacity = a.capacity := by simp [h.capacity, ha]
    simp [step, Registry.updateCapacity, Keyed.get?_modify, ha, hcapacity]
  saved := h.saved

theorem shows_persist {file : Option (StateFile K)} (h : l.Shows reg file id) (now wall : K) :
    (l.step ⟨now, .persist ((reg.get? id).any Registry.worthPersisting) wall⟩).Shows reg
      (some (reg.persist now wall)) id where
  capacity := h.capacity
  saved := by
    have hrow : ((reg.persist now wall).atomics.get? id).map (fun e => (wall, e.capacity)) =
        (((reg.persist now wall).atomics.get? id).map (·.capacity)).map (Prod.mk wall) := by
      rw [Option.map_map]
      rfl
    refine Eq.trans ?_ hrow.symm
    rw [capacity_persist]
    have hcapacity := h.capacity
    cases ha : reg.get? id with
    | none => simp [step]
    | some a =>
      rw [ha, Option.map_some, Option.getD_some] at hcapacity
      by_cases hworth : Registry.worthPersisting a <;>
      simp [step, Option.filter, hworth, hcapacity]

theorem shows_load {file : StateFile K} (h : l.Shows reg (some file) id) (now wall : K) :
    (l.step ⟨now, .load wall⟩).Shows (Registry.load file now wall) (some file) id where
  capacity := by
    have hsaved := h.saved
    rw [capacity_load]
    cases hrow : file.atomics.get? id with
    | none =>
      rw [Option.bind_some, hrow, Option.map_none] at hsaved
      simp [step, hsaved]
    | some e =>
      rw [Option.bind_some, hrow, Option.map_some] at hsaved
      simp [step, elapsed, hsaved]
  saved := h.saved

end Life

end

-- ---------------------------------------------------------------------------
-- What one step keeps
-- ---------------------------------------------------------------------------

noncomputable def StoredCapacity.belief (row : StoredCapacity ℝ) : ℝ :=
  decayConfidence (Registry.reconstructCapacity row 0 0) 0

theorem belief_stored (c : Capacity ℝ) (now : ℝ) :
    (c.stored now).belief = decayConfidence c now := by
  cases hm : c.measuredAt with
  | none =>
    simp [StoredCapacity.belief, decayConfidence, Registry.reconstructCapacity, Capacity.stored, hm]
  | some m =>
    have hread : (Registry.reconstructCapacity (c.stored now) 0 0).measuredAt =
        some (0 - (max 0 (now - m) + 0)) := by
      simp [Registry.reconstructCapacity, Capacity.stored, hm]
    have hage : decayFactor (0 - (max 0 (now - m) + 0)) 0 = decayFactor m now := by
      simp [decayFactor]
    rw [StoredCapacity.belief, decayConfidence_eq hread, decayConfidence_eq hm, hage]
    rfl

/-- Reading a row back ages what was written by the time that passed since. -/
theorem decayConfidence_reconstruct {row : StoredCapacity ℝ} {elapsed : ℝ} (he : 0 ≤ elapsed)
    (hage : ∀ age, row.measuredAgeS = some age → 0 ≤ age) (now : ℝ) :
    decayConfidence (Registry.reconstructCapacity row elapsed now) now =
      row.belief * halfPow (elapsed / confidenceHalfLifeS ℝ) := by
  cases hm : row.measuredAgeS with
  | none =>
    simp [StoredCapacity.belief, decayConfidence, Registry.reconstructCapacity, hm]
  | some age =>
    have h0 : 0 ≤ age := hage age hm
    have hread : ∀ e t, (Registry.reconstructCapacity row e t).measuredAt =
        some (t - (age + e)) := by
      simp [Registry.reconstructCapacity, hm]
    have hfactor : ∀ e t, 0 ≤ e → decayFactor (t - (age + e)) t =
        halfPow (age / confidenceHalfLifeS ℝ) * halfPow (e / confidenceHalfLifeS ℝ) := by
      intro e t hpos
      rw [decayFactor, sub_sub_cancel, max_eq_right (add_nonneg h0 hpos), add_div,
        halfPow_real_add]
    rw [StoredCapacity.belief, decayConfidence_eq (hread elapsed now),
      decayConfidence_eq (hread 0 0), hfactor elapsed now he, hfactor 0 0 le_rfl]
    by_cases hc : 0 < row.confidence
    · simp [Registry.reconstructCapacity, hc, mul_assoc]
    · simp [Registry.reconstructCapacity, hc]

theorem fold_confidence {c : Capacity ℝ} (h : 0 ≤ c.confidence ∧ c.confidence ≤ 1)
    (o : Observation ℝ) (now : ℝ) :
    0 ≤ (fold c o now).confidence ∧ (fold c o now).confidence ≤ 1 := by
  obtain ⟨hlow, hhigh⟩ := decayConfidence_bounds h.1 now
  unfold fold
  split
  · exact ⟨le_min zero_le_one (add_nonneg hlow (by norm_num)), min_le_left _ _⟩
  · exact ⟨hlow, hhigh.trans h.2⟩

theorem fold_measuredAt (c : Capacity ℝ) (o : Observation ℝ) (now : ℝ) :
    (fold c o now).measuredAt = if o.saturated then some now else c.measuredAt := by
  unfold fold
  split <;> rfl

theorem decayConfidence_fold_idle_le {c : Capacity ℝ} (h : 0 ≤ c.confidence) {o : Observation ℝ}
    (hidle : o.saturated = false) (now : ℝ) :
    decayConfidence (fold c o now) now ≤ decayConfidence c now := by
  have hlow : 0 ≤ (fold c o now).confidence := by
    rw [fold_idle c hidle]
    exact (decayConfidence_bounds h now).1
  calc decayConfidence (fold c o now) now ≤ (fold c o now).confidence :=
        (decayConfidence_bounds hlow now).2
    _ = decayConfidence c now := by rw [fold_idle c hidle]

namespace Life

structure Kept (l : Life ℝ) (row : StoredCapacity ℝ) : Prop where
  confidence : 0 ≤ row.confidence ∧ row.confidence ≤ 1
  age : ∀ age, row.measuredAgeS = some age → 0 ≤ age
  down : 0 ≤ row.downBps ∧ row.downBps ≤ l.downSeen
  up : 0 ≤ row.upBps ∧ row.upBps ≤ l.upSeen
  belief : l.atPersist = row.belief

structure Sound (l : Life ℝ) : Prop where
  wellFormed : l.WellFormed
  fresh : l.saved = none → l.atPersist = 0
  kept : ∀ wall row, l.saved = some (wall, row) → l.Kept row

variable {l : Life ℝ}

theorem sound_start (now : ℝ) : (start now).Sound where
  wellFormed := by constructor <;> simp [start, Capacity.unmeasured]
  fresh _ := rfl
  kept := by simp [start]

theorem Kept.of_le {row : StoredCapacity ℝ} {m : Life ℝ} (h : l.Kept row)
    (hdown : l.downSeen ≤ m.downSeen) (hup : l.upSeen ≤ m.upSeen)
    (hbelief : m.atPersist = l.atPersist) : m.Kept row where
  confidence := h.confidence
  age := h.age
  down := ⟨h.down.1, h.down.2.trans hdown⟩
  up := ⟨h.up.1, h.up.2.trans hup⟩
  belief := hbelief.trans h.belief

theorem WellFormed.kept (h : l.WellFormed) (now wall : ℝ) :
    (l.step ⟨now, .persist true wall⟩).Kept (l.capacity.stored now) := by
  refine ⟨h.confidence, ?_, h.down, h.up, (belief_stored _ _).symm⟩
  intro age hage
  simp only [Capacity.stored, Option.map_eq_some_iff] at hage
  obtain ⟨measuredAt, -, rfl⟩ := hage
  exact le_max_left _ _

theorem elapsed_nonneg (l : Life ℝ) (wall : ℝ) : 0 ≤ l.elapsed wall := by
  unfold elapsed
  split
  · exact le_rfl
  · exact le_max_left _ _

theorem sound_wait (h : l.Sound) {now : ℝ} (hclock : l.now ≤ now) :
    (l.step ⟨now, .wait⟩).Sound where
  wellFormed :=
    { h.wellFormed with measured := fun m hm => (h.wellFormed.measured m hm).trans hclock }
  fresh := h.fresh
  kept wall row hrow := (h.kept wall row hrow).of_le le_rfl le_rfl rfl

theorem sound_fold (h : l.Sound) {now : ℝ} (hclock : l.now ≤ now) {o : Observation ℝ}
    (ho : 0 ≤ o.downBps ∧ 0 ≤ o.upBps) : (l.step ⟨now, .fold o⟩).Sound where
  wellFormed := by
    obtain ⟨hconfidence, hmeasured, hdown, hup⟩ := h.wellFormed
    obtain ⟨hdown', hup'⟩ := fold_within hdown hup ho now
    refine ⟨fold_confidence hconfidence o now, ?_, hdown', hup'⟩
    intro m hm
    have hm' : (if o.saturated then some now else l.capacity.measuredAt) = some m :=
      (fold_measuredAt l.capacity o now).symm.trans hm
    split at hm'
    · exact (Option.some.inj hm').symm.le
    · exact (hmeasured m hm').trans hclock
  fresh := h.fresh
  kept wall row hrow := by
    refine (h.kept wall row hrow).of_le ?_ ?_ rfl
    · simp only [step]
      split
      · exact le_max_left _ _
      · exact le_rfl
    · simp only [step]
      split
      · exact le_max_left _ _
      · exact le_rfl

theorem sound_persist (h : l.Sound) {now : ℝ} (hclock : l.now ≤ now) (kept : Bool) (wall : ℝ) :
    (l.step ⟨now, .persist kept wall⟩).Sound where
  wellFormed :=
    { h.wellFormed with measured := fun m hm => (h.wellFormed.measured m hm).trans hclock }
  fresh hnone := by
    cases kept with
    | true => cases hnone
    | false => rfl
  kept wall row hrow := by
    cases kept with
    | true =>
      cases hrow
      exact h.wellFormed.kept now wall
    | false => cases hrow

theorem step_load_none (hs : l.saved = none) (now wall : ℝ) :
    l.step ⟨now, .load wall⟩ = { l with capacity := .unmeasured, now := now } := by
  simp only [step, hs]

theorem step_load_some (hs : l.saved = some (written, row)) (now wall : ℝ) :
    l.step ⟨now, .load wall⟩ =
      { l with
        capacity := Registry.reconstructCapacity row (l.elapsed wall) now
        now := now } := by
  simp only [step, hs]

theorem sound_load (h : l.Sound) (now wall : ℝ) : (l.step ⟨now, .load wall⟩).Sound where
  wellFormed := by
    cases hs : l.saved with
    | none =>
      rw [step_load_none hs]
      have hdown := h.wellFormed.down.1.trans h.wellFormed.down.2
      have hup := h.wellFormed.up.1.trans h.wellFormed.up.2
      exact ⟨⟨le_rfl, zero_le_one⟩, nofun, ⟨le_rfl, hdown⟩, le_rfl, hup⟩
    | some saved =>
      obtain ⟨written, row⟩ := saved
      have hk := h.kept written row hs
      rw [step_load_some hs]
      refine ⟨hk.confidence, ?_, hk.down, hk.up⟩
      intro m hm
      obtain ⟨age, hage, rfl⟩ := Option.map_eq_some_iff.mp hm
      exact sub_le_self _ (add_nonneg (hk.age age hage) (l.elapsed_nonneg wall))
  fresh := h.fresh
  kept wall row hrow := (h.kept wall row hrow).of_le le_rfl le_rfl rfl

theorem sound_step (h : l.Sound) {e : Event ℝ} (he : l.Admissible e) : (l.step e).Sound := by
  obtain ⟨now, action⟩ := e
  cases action with
  | wait => exact sound_wait h (he.clock nofun)
  | fold o => exact sound_fold h (he.clock nofun) (he.rates o rfl)
  | persist kept wall => exact sound_persist h (he.clock nofun) kept wall
  | load wall => exact sound_load h now wall

theorem sound_exec {now₀ : ℝ} {events : List (Event ℝ)}
    (h : Runs.Along step Admissible (start now₀) events) :
    (Runs.exec step (start now₀) events).Sound :=
  Runs.exec_of_along (fun _ _ _ hs he => sound_step hs he) h (sound_start now₀)

-- ---------------------------------------------------------------------------
-- What is believed
-- ---------------------------------------------------------------------------

/-- Without a saturated observation, a process believes less and less. -/
theorem Sound.neverRises (h : l.Sound) {e : Event ℝ} (he : l.Admissible e)
    (hl : ∀ wall, e.action ≠ .load wall) : l.NeverRises e := by
  have hclock : l.now ≤ e.now := he.clock hl
  have hanti : decayConfidence l.capacity e.now ≤ l.belief := decayConfidence_anti _ hclock
  obtain ⟨now, action⟩ := e
  intro hidle
  cases action with
  | wait => exact hanti
  | fold o =>
    exact (decayConfidence_fold_idle_le h.wellFormed.confidence.1 (hidle o rfl) now).trans hanti
  | persist kept wall => exact hanti
  | load wall => exact absurd rfl (hl wall)

theorem Sound.belief_load (h : l.Sound) (now wall : ℝ) :
    (l.step ⟨now, .load wall⟩).belief =
      l.atPersist * halfPow (l.elapsed wall / confidenceHalfLifeS ℝ) := by
  cases hs : l.saved with
  | none =>
    rw [step_load_none hs, h.fresh hs, zero_mul]
    rfl
  | some saved =>
    obtain ⟨written, row⟩ := saved
    have hk := h.kept written row hs
    rw [step_load_some hs, hk.belief, belief]
    exact decayConfidence_reconstruct (l.elapsed_nonneg wall) hk.age now

theorem Sound.ages (h : l.Sound) {e : Event ℝ} (he : l.Admissible e) : l.Ages e := by
  cases ha : e.action with
  | load wall =>
    have hload : e = ⟨e.now, .load wall⟩ := by rw [← ha]
    rw [hload]
    exact h.belief_load e.now wall
  | wait => simpa only [Ages, ha] using h.neverRises he (by simp [ha])
  | fold o => simpa only [Ages, ha] using h.neverRises he (by simp [ha])
  | persist kept wall => simpa only [Ages, ha] using h.neverRises he (by simp [ha])

theorem estimates_wellFormed (now₀ : ℝ) (events : List (Event ℝ))
    (h : Runs.Along step Admissible (start now₀) events) :
    (Runs.exec step (start now₀) events).WellFormed ∧
      Runs.Along step Ages (start now₀) events :=
  ⟨(sound_exec h).wellFormed,
    Runs.along_of (fun _ _ hs he => ⟨sound_step hs he, hs.ages he⟩) (sound_start now₀) h⟩

def busyObservation (K : Type) : Observation K :=
  { idleObservation K with downBps := 10000000, upBps := 1000000, saturated := true }

def restarted (K : Type) [DivisionRing K] : List (Event K) :=
  [⟨0, .fold (busyObservation K)⟩, ⟨0, .persist true 0⟩, ⟨confidenceHalfLifeS K, .wait⟩,
    ⟨0, .load 0⟩]

theorem restarted_admissible : Runs.Along step Admissible (start (0 : ℝ)) (restarted ℝ) := by
  refine ⟨⟨fun _ => le_rfl, ?_⟩, ⟨fun _ => le_rfl, nofun⟩, ⟨fun _ => ?_, nofun⟩, ⟨?_, nofun⟩,
    trivial⟩
  · rintro o ⟨⟩
    decide
  · exact Nat.ofNat_nonneg 1800
  · exact fun h => absurd rfl (h 0)

theorem estimates_wellFormed_restarted :
    (Runs.exec step (start (0 : ℝ)) (restarted ℝ)).WellFormed ∧
      Runs.Along step Ages (start (0 : ℝ)) (restarted ℝ) :=
  estimates_wellFormed 0 (restarted ℝ) restarted_admissible

private noncomputable def measured : Capacity ℝ := fold .unmeasured (busyObservation ℝ) 0

private theorem belief_measured (now : ℝ) :
    decayConfidence measured now = 0.3 * decayFactor 0 now := by
  have hconfidence : measured.confidence = 0.3 := by
    norm_num [measured, fold, busyObservation, decayConfidence, Capacity.unmeasured]
  have hmeasured : measured.measuredAt = some 0 := by simp [measured, fold, busyObservation]
  rw [decayConfidence_eq hmeasured, hconfidence, if_pos (by norm_num)]

/-- A restart may believe more: the half of the confidence that was lost while the
wall clock stood still is back. -/
theorem belief_rises_restarted :
    ¬ ∀ (now₀ : ℝ) (events : List (Event ℝ)), Runs.Along step Admissible (start now₀) events →
      (Runs.exec step (start now₀) events).WellFormed ∧
        Runs.Along step NeverRises (start now₀) events := by
  intro hnever
  obtain ⟨-, -, -, -, hload, -⟩ := hnever 0 (restarted ℝ) restarted_admissible
  have hle :
      decayConfidence (Registry.reconstructCapacity (measured.stored 0) (max 0 (0 - 0)) 0) 0 ≤
        decayConfidence measured (confidenceHalfLifeS ℝ) := hload nofun
  have hage : ∀ age, (measured.stored 0).measuredAgeS = some age → 0 ≤ age := by
    rintro age ⟨⟩
    exact le_max_left _ _
  rw [decayConfidence_reconstruct (le_max_left _ _) hage, belief_stored, belief_measured,
    belief_measured] at hle
  norm_num [decayFactor, confidenceHalfLifeS, halfPow_real] at hle

end Life

end Wifucked
