import Mathlib.Algebra.Ring.Defs
import Mathlib.Data.List.Sort
import Mathlib.Data.Prod.Lex
import Mathlib.Data.String.Basic
import Wifucked.Lib.Keyed
import Wifucked.Atomics.Model

/-!
# The atomic registry

Every atomic ever seen, present or not. A discovery sweep is merged against
what is already known, and only the remembered fields are written to disk. The
file is modelled by the values it holds, not by its text.
-/

namespace Wifucked

variable {K : Type}

abbrev Registry (K : Type) := Keyed (Atomic K) Atomic.id

namespace Registry

-- ---------------------------------------------------------------------------
-- Access
-- ---------------------------------------------------------------------------

def sortKey (a : Atomic K) : Bool ×ₗ String := toLex (!a.present, a.label)

/-- Present ones first, then by label. -/
def all (reg : Registry K) : List (Atomic K) :=
  reg.values.insertionSort fun a b => sortKey a ≤ sortKey b

def present (reg : Registry K) : List (Atomic K) := reg.all.filter (·.present)

def normalPool (reg : Registry K) : List (Atomic K) := reg.all.filter (·.inNormalPool)

def backups (reg : Registry K) : List (Atomic K) :=
  reg.all.filter fun a => a.mode = .backup && a.present

def modeOf (reg : Registry K) (id : String) : Option Mode := (reg.get? id).map (·.mode)

theorem perm_all (reg : Registry K) : reg.all.Perm reg.values := List.perm_insertionSort _ _

theorem nodup_all (reg : Registry K) : (reg.all.map (·.id)).Nodup :=
  (reg.perm_all.map _).nodup_iff.mpr reg.nodup

theorem mem_all {reg : Registry K} : a ∈ reg.all ↔ reg.get? a.id = some a :=
  reg.perm_all.mem_iff.trans Keyed.mem_values

theorem eq_of_mem_all {reg : Registry K} (hc : c ∈ reg.all) (ha : reg.get? a.id = some a)
    (h : c.id = a.id) : c = a := by
  have hc := mem_all.mp hc
  rw [h, ha] at hc
  exact (Option.some.inj hc).symm

/-- `{a.id: a for a in registry.all()}`. -/
def byId (reg : Registry K) : Registry K := .ofList reg.all

@[simp] theorem get?_byId (reg : Registry K) (id : String) :
    reg.byId.get? id = Keyed.get? reg id := by
  ext a
  rw [Keyed.get?_eq_some, Keyed.get?_eq_some, byId, Keyed.values_ofList reg.nodup_all,
    reg.perm_all.mem_iff]

theorem modeOf_of_mem_all {reg : Registry K} (h : a ∈ reg.all) : reg.modeOf a.id = some a.mode := by
  simp [modeOf, mem_all.mp h]

-- ---------------------------------------------------------------------------
-- Mutation
-- ---------------------------------------------------------------------------

/-- One atomic of a sweep. What the sweep cannot see (mode, capacity, cost) is
kept from what was known. -/
def merge (now : K) (reg : Registry K) (fresh : Atomic K) : Registry K :=
  match reg.get? fresh.id with
  | none => reg.put { fresh with firstSeen := some now, lastSeen := some now, present := true }
  | some known =>
    reg.put { known with
      label := fresh.label
      ifname := fresh.ifname
      attributes := fresh.attributes
      present := true
      lastSeen := some now
      health := if !known.present then fresh.health else known.health
      everConnected := known.everConnected || fresh.everConnected }

def disappear (seenIds : List String) (atomic : Atomic K) : Atomic K :=
  if atomic.present && atomic.id ∉ seenIds then
    { atomic with present := false, health := .absent, ifname := none }
  else atomic

theorem disappear_id (seenIds : List String) (a : Atomic K) : (disappear seenIds a).id = a.id := by
  unfold disappear; split <;> rfl

theorem disappear_mode (seenIds : List String) (a : Atomic K) :
    (disappear seenIds a).mode = a.mode := by
  unfold disappear; split <;> rfl

def observe (reg : Registry K) (now : K) (seen : List (Atomic K)) : Registry K :=
  (seen.foldl (merge now) reg).map (disappear (seen.map (·.id))) (disappear_id _)

def setMode (reg : Registry K) (id : String) (mode : Mode) : Registry K :=
  reg.modify id fun a => { a with mode }

def setRoleAndMode (reg : Registry K) (id : String) (role : PortRole) (mode : Mode) : Registry K :=
  reg.modify id fun a => { a with role, mode }

def updateCapacity (reg : Registry K) (id : String) (capacity : Capacity K) : Registry K :=
  reg.modify id fun a => { a with capacity }

/-- The one field written in place: `updated.quality = …` on the atomic `get`
returned. -/
def setQuality (reg : Registry K) (id : String) (quality : Quality K) : Registry K :=
  reg.modify id fun a => { a with quality }

def updateHealth (reg : Registry K) (id : String) (health : Health) : Registry K :=
  reg.modify id fun a => if a.health = health then a else { a with health }

theorem updateHealth_eq (reg : Registry K) (id : String) (health : Health) :
    reg.updateHealth id health = reg.modify id fun a => { a with health } := by
  have hwrites : (fun a : Atomic K => if a.health = health then a else { a with health }) =
      fun a => { a with health } := by
    funext a
    split
    · rename_i h
      rw [← h]
    · rfl
  rw [updateHealth, hwrites]

def addCost (reg : Registry K) (id : String) (consumed liveness : Int) : Registry K :=
  reg.modify id fun a => { a with
    cost := { a.cost with
      consumedBytes := a.cost.consumedBytes + consumed
      livenessBytes := a.cost.livenessBytes + liveness } }

/-- The mode a sweep gives a connection nothing is known about: that of the
first atomic of the sweep with its id. -/
def freshMode (seen : List (Atomic K)) (id : String) : Option Mode :=
  (seen.find? fun a => a.id = id).map (·.mode)

theorem modeOf_put (reg : Registry K) (a : Atomic K) (id : String) :
    modeOf (Keyed.put reg a) id = if a.id = id then some a.mode else reg.modeOf id := by
  unfold modeOf
  rw [Keyed.get?_put]
  split <;> rfl

theorem modeOf_merge (now : K) (reg : Registry K) (fresh : Atomic K) (id : String) :
    (merge now reg fresh).modeOf id =
      if fresh.id = id then (reg.modeOf id).or (some fresh.mode) else reg.modeOf id := by
  unfold merge
  split
  · rename_i h
    rw [modeOf_put]
    by_cases hid : fresh.id = id
    · subst hid
      simp [modeOf, h]
    · simp [hid]
  · rename_i known h
    have hk : known.id = fresh.id := Keyed.key_of_get? h
    rw [modeOf_put]
    by_cases hid : fresh.id = id
    · subst hid
      simp [modeOf, h, hk]
    · simp [hid, hk]

theorem get?_merge (reg : Registry K) (now : K) (fresh : Atomic K) {id : String}
    (h : fresh.id ≠ id) : (merge now reg fresh).get? id = reg.get? id := by
  unfold merge
  cases hk : reg.get? fresh.id with
  | none => exact (Keyed.get?_put ..).trans (if_neg h)
  | some known =>
    have hne : known.id ≠ id := Keyed.key_of_get? hk ▸ h
    exact (Keyed.get?_put ..).trans (if_neg hne)

/-- Where one report counts only if nothing is held yet, so does the first of a sweep. -/
theorem foldl_merge_or {α : Type} {held : Registry K → String → Option α} {value : Atomic K → α}
    {now : K} (hmerge : ∀ reg fresh id, held (merge now reg fresh) id =
      if fresh.id = id then (held reg id).or (some (value fresh)) else held reg id)
    (reg : Registry K) (seen : List (Atomic K)) (id : String) :
    held (seen.foldl (merge now) reg) id =
      (held reg id).or ((seen.find? fun a => a.id = id).map value) := by
  induction seen generalizing reg with
  | nil => simp
  | cons fresh seen ih =>
    rw [List.foldl_cons, ih, hmerge]
    by_cases hid : fresh.id = id
    · simp [hid]
    · simp [hid]

theorem modeOf_foldl_merge (now : K) (reg : Registry K) (seen : List (Atomic K)) (id : String) :
    modeOf (seen.foldl (merge now) reg) id = (reg.modeOf id).or (freshMode seen id) :=
  foldl_merge_or (modeOf_merge now) reg seen id

theorem modeOf_observe (reg : Registry K) (now : K) (seen : List (Atomic K)) (id : String) :
    (reg.observe now seen).modeOf id = (reg.modeOf id).or (freshMode seen id) := by
  rw [← modeOf_foldl_merge now]
  simp [modeOf, observe, Keyed.get?_map, Function.comp_def, disappear_mode]

theorem modeOf_modify (reg : Registry K) (id j : String) {f : Atomic K → Atomic K}
    (hid : ∀ a, (f a).id = a.id) (hm : ∀ a, (f a).mode = a.mode) :
    modeOf (Keyed.modify reg id f) j = reg.modeOf j :=
  Keyed.map_get?_modify reg id j hid hm

theorem modeOf_rewrite (reg : Registry K) (id j : String) {f : Atomic K → Atomic K}
    (hid : ∀ a, (f a).id = a.id) (hm : ∀ a, (f a).mode = mode) :
    modeOf (Keyed.modify reg id f) j =
      if j = id then (reg.modeOf id).map fun _ => mode else reg.modeOf j := by
  unfold modeOf
  rw [Keyed.get?_modify reg id j hid]
  by_cases hj : j = id <;> simp [hj, Function.comp_def, hm]

theorem modeOf_setMode (reg : Registry K) (id j : String) (mode : Mode) :
    (reg.setMode id mode).modeOf j =
      if j = id then (reg.modeOf id).map fun _ => mode else reg.modeOf j :=
  modeOf_rewrite reg id j (fun _ => rfl) (fun _ => rfl)

theorem modeOf_setRoleAndMode (reg : Registry K) (id j : String) (role : PortRole) (mode : Mode) :
    (reg.setRoleAndMode id role mode).modeOf j =
      if j = id then (reg.modeOf id).map fun _ => mode else reg.modeOf j :=
  modeOf_rewrite reg id j (fun _ => rfl) (fun _ => rfl)

@[simp] theorem modeOf_updateCapacity (reg : Registry K) (id : String) (c : Capacity K)
    (j : String) : (reg.updateCapacity id c).modeOf j = reg.modeOf j :=
  modeOf_modify reg id j (fun _ => rfl) (fun _ => rfl)

@[simp] theorem modeOf_setQuality (reg : Registry K) (id : String) (q : Quality K) (j : String) :
    (reg.setQuality id q).modeOf j = reg.modeOf j :=
  modeOf_modify reg id j (fun _ => rfl) (fun _ => rfl)

@[simp] theorem modeOf_updateHealth (reg : Registry K) (id : String) (health : Health)
    (j : String) : (reg.updateHealth id health).modeOf j = reg.modeOf j :=
  modeOf_modify reg id j (fun a => by split <;> rfl) (fun a => by split <;> rfl)

@[simp] theorem modeOf_addCost (reg : Registry K) (id : String) (consumed liveness : Int)
    (j : String) : (reg.addCost id consumed liveness).modeOf j = reg.modeOf j :=
  modeOf_modify reg id j (fun _ => rfl) (fun _ => rfl)

end Registry

-- ---------------------------------------------------------------------------
-- Persistence
-- ---------------------------------------------------------------------------

/-- A capacity on disk: how stale the measurement already was, not when it was
made, since the monotonic clock does not survive a restart. -/
structure StoredCapacity (K : Type) where
  downBps : Int
  upBps : Int
  confidence : K
  measuredAgeS : Option K
  deriving DecidableEq

structure StoredAtomic (K : Type) where
  id : String
  kind : Kind
  label : String
  mode : Mode
  role : PortRole
  everConnected : Bool
  capacity : StoredCapacity K
  cost : Cost K
  attributes : List (String × String)
  deriving DecidableEq

structure StateFile (K : Type) where
  persistedAtWall : K
  atomics : Keyed (StoredAtomic K) StoredAtomic.id

def StateFile.modeOf (file : StateFile K) (id : String) : Option Mode :=
  (file.atomics.get? id).map (·.mode)

namespace Registry

/-- A connection glimpsed once and never joined is not written. -/
def worthPersisting (atomic : Atomic K) : Bool := atomic.mode ≠ .unused || atomic.everConnected

section

variable [Ring K]

def reconstructCapacity (entry : StoredCapacity K) (elapsedSincePersist now : K) : Capacity K where
  downBps := entry.downBps
  upBps := entry.upBps
  confidence := entry.confidence
  measuredAt := entry.measuredAgeS.map fun age => now - (age + elapsedSincePersist)

def restore (elapsedSincePersist now : K) (entry : StoredAtomic K) : Atomic K where
  id := entry.id
  kind := entry.kind
  label := entry.label
  mode := entry.mode
  health := .absent
  role := entry.role
  capacity := reconstructCapacity entry.capacity elapsedSincePersist now
  quality := .unmeasured
  cost := entry.cost
  ifname := none
  present := false
  firstSeen := none
  lastSeen := none
  everConnected := entry.everConnected
  attributes := entry.attributes

theorem restore_id (elapsed now : K) (e : StoredAtomic K) : (restore elapsed now e).id = e.id := rfl

variable [LinearOrder K]

def store (now : K) (atomic : Atomic K) : StoredAtomic K where
  id := atomic.id
  kind := atomic.kind
  label := atomic.label
  mode := atomic.mode
  role := atomic.role
  everConnected := atomic.everConnected
  capacity :=
    { downBps := atomic.capacity.downBps
      upBps := atomic.capacity.upBps
      confidence := atomic.capacity.confidence
      measuredAgeS := atomic.capacity.measuredAt.map fun measuredAt => max 0 (now - measuredAt) }
  cost := atomic.cost
  attributes := atomic.attributes

theorem store_id (now : K) (a : Atomic K) : (store now a).id = a.id := rfl

def persist (reg : Registry K) (now wall : K) : StateFile K where
  persistedAtWall := wall
  atomics := Keyed.map (Keyed.filter reg worthPersisting) (store now) (store_id now)

def load (file : StateFile K) (now wall : K) : Registry K :=
  file.atomics.map (restore (max 0 (wall - file.persistedAtWall)) now) (restore_id _ _)

theorem modeOf_load (file : StateFile K) (now wall : K) (id : String) :
    (load file now wall).modeOf id = file.modeOf id := by
  simp [modeOf, load, StateFile.modeOf, Keyed.get?_map, Function.comp_def, restore]

theorem modeOf_persist (reg : Registry K) (now wall : K) (id : String) :
    (reg.persist now wall).modeOf id =
      ((reg.get? id).filter worthPersisting).map (·.mode) := by
  simp [StateFile.modeOf, persist, Keyed.get?_map, Keyed.get?_filter, Function.comp_def, store]

theorem modeOf_of_modeOf_persist {reg : Registry K} {now wall : K} {id : String}
    (h : (reg.persist now wall).modeOf id = some mode) : reg.modeOf id = some mode := by
  rw [modeOf_persist] at h
  obtain ⟨a, ha, rfl⟩ := Option.map_eq_some_iff.mp h
  simp [modeOf, (Option.filter_eq_some_iff.mp ha).1]

end

end Registry

end Wifucked
