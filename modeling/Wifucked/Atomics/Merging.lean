import Wifucked.Lib.Runs
import Wifucked.Atomics.Registry

/-!
# What a sweep may change

The calls that change a registry, one at a time under its lock, from the state
file that it was loaded from on. A sweep decides what is present and by which
interface; what the user chose and what was learned is not its to write.
-/

namespace Wifucked

variable {K : Type}

/-- `persist`, which some of them end with, leaves the registry as it is. -/
inductive Call (K : Type) where
  | observe (now : K) (seen : List (Atomic K))
  | setMode (id : String) (mode : Mode)
  | setRoleAndMode (id : String) (role : PortRole) (mode : Mode)
  | updateCapacity (id : String) (capacity : Capacity K)
  | updateHealth (id : String) (health : Health)
  | addCost (id : String) (consumed liveness : Int)

namespace Registry

def call (reg : Registry K) : Call K → Registry K
  | .observe now seen => reg.observe now seen
  | .setMode id mode => reg.setMode id mode
  | .setRoleAndMode id role mode => reg.setRoleAndMode id role mode
  | .updateCapacity id capacity => reg.updateCapacity id capacity
  | .updateHealth id health => reg.updateHealth id health
  | .addCost id consumed liveness => reg.addCost id consumed liveness

def start [Ring K] [LinearOrder K] (file : Option (StateFile K)) (now wall : K) : Registry K :=
  (file.map fun f => load f now wall).getD .empty

-- ---------------------------------------------------------------------------
-- One atomic of a sweep
-- ---------------------------------------------------------------------------

structure Carried (a b : Atomic K) : Prop where
  mode : b.mode = a.mode
  role : b.role = a.role
  capacity : b.capacity = a.capacity
  cost : b.cost = a.cost
  firstSeen : b.firstSeen = a.firstSeen

theorem Carried.refl (a : Atomic K) : Carried a a := ⟨rfl, rfl, rfl, rfl, rfl⟩

theorem Carried.trans {a b c : Atomic K} (h : Carried a b) (h' : Carried b c) : Carried a c where
  mode := h'.mode.trans h.mode
  role := h'.role.trans h.role
  capacity := h'.capacity.trans h.capacity
  cost := h'.cost.trans h.cost
  firstSeen := h'.firstSeen.trans h.firstSeen

def Silent (a : Atomic K) : Prop := a.present = false → a.ifname = none

variable {reg : Registry K} {now : K} {fresh : Atomic K} {id : String}

theorem carried_merge (h : reg.get? id = some a) (now : K) (fresh : Atomic K) :
    ∃ b, (merge now reg fresh).get? id = some b ∧ Carried a b ∧
      (a.everConnected = true → b.everConnected = true) := by
  by_cases hid : fresh.id = id
  · subst hid
    unfold merge
    rw [h]
    refine ⟨_, (Keyed.get?_put ..).trans (if_pos (Keyed.key_of_get? h)), ?_, ?_⟩
    · exact ⟨rfl, rfl, rfl, rfl, rfl⟩
    · intro he
      simp [he]
  · exact ⟨a, (get?_merge reg now fresh hid).trans h, .refl a, fun he => he⟩

theorem present_merge (reg : Registry K) (now : K) (fresh : Atomic K) :
    ∃ b, (merge now reg fresh).get? fresh.id = some b ∧ b.present = true := by
  unfold merge
  cases hk : reg.get? fresh.id with
  | none => exact ⟨_, (Keyed.get?_put ..).trans (if_pos rfl), rfl⟩
  | some known => exact ⟨_, (Keyed.get?_put ..).trans (if_pos (Keyed.key_of_get? hk)), rfl⟩

theorem silent_merge (h : reg.All Silent) : (merge now reg fresh).All Silent := by
  unfold merge
  cases reg.get? fresh.id with
  | none => exact Keyed.all_put h fun hp => by cases hp
  | some known => exact Keyed.all_put h fun hp => by cases hp

-- ---------------------------------------------------------------------------
-- A sweep
-- ---------------------------------------------------------------------------

variable {seen : List (Atomic K)}

theorem carried_merged (h : reg.get? id = some a) (now : K) (seen : List (Atomic K)) :
    ∃ b, Keyed.get? (seen.foldl (merge now) reg) id = some b ∧ Carried a b ∧
      (a.everConnected = true → b.everConnected = true) := by
  induction seen generalizing reg a with
  | nil => exact ⟨a, h, .refl a, fun he => he⟩
  | cons fresh seen ih =>
    obtain ⟨b, hb, hcarried, hever⟩ := carried_merge h now fresh
    obtain ⟨c, hc, hrest, heverrest⟩ := ih hb
    exact ⟨c, hc, hcarried.trans hrest, fun he => heverrest (hever he)⟩

theorem get?_merged_of_not_mem (h : id ∉ seen.map (·.id)) :
    Keyed.get? (seen.foldl (merge now) reg) id = reg.get? id := by
  induction seen generalizing reg with
  | nil => rfl
  | cons fresh seen ih =>
    simp only [List.map_cons, List.mem_cons, not_or] at h
    exact (ih h.2).trans (get?_merge reg now fresh (Ne.symm h.1))

theorem present_merged (reg : Registry K) (now : K) (h : id ∈ seen.map (·.id)) :
    ∃ b, Keyed.get? (seen.foldl (merge now) reg) id = some b ∧ b.present = true := by
  induction seen generalizing reg with
  | nil => cases h
  | cons fresh seen ih =>
    by_cases hrest : id ∈ seen.map (·.id)
    · exact ih _ hrest
    · obtain rfl : id = fresh.id := by
        rcases List.mem_cons.mp h with h | h
        · exact h
        · exact absurd h hrest
      obtain ⟨b, hb, hpresent⟩ := present_merge reg now fresh
      exact ⟨b, (get?_merged_of_not_mem hrest).trans hb, hpresent⟩

theorem carried_disappear (ids : List String) (a : Atomic K) : Carried a (disappear ids a) := by
  unfold disappear
  split <;> exact ⟨rfl, rfl, rfl, rfl, rfl⟩

theorem everConnected_disappear (ids : List String) (a : Atomic K) :
    (disappear ids a).everConnected = a.everConnected := by
  unfold disappear
  split <;> rfl

/-- What a sweep makes of the registry before it. -/
structure Swept (reg : Registry K) (seen : List (Atomic K)) (swept : Registry K) : Prop where
  ids : ∀ id, (swept.get? id).isSome ↔ (reg.get? id).isSome ∨ id ∈ seen.map (·.id)
  present : ∀ id a, swept.get? id = some a → (a.present = true ↔ id ∈ seen.map (·.id))
  known : ∀ id a b, reg.get? id = some a → swept.get? id = some b → Carried a b

theorem isSome_merged : (Keyed.get? (seen.foldl (merge now) reg) id).isSome ↔
    (reg.get? id).isSome ∨ id ∈ seen.map (·.id) := by
  constructor
  · intro h
    by_cases hid : id ∈ seen.map (·.id)
    · exact .inr hid
    · rw [get?_merged_of_not_mem hid] at h
      exact .inl h
  · rintro (h | h)
    · obtain ⟨a, ha⟩ := Option.isSome_iff_exists.mp h
      obtain ⟨b, hb, -⟩ := carried_merged ha now seen
      simp [hb]
    · obtain ⟨b, hb, -⟩ := present_merged reg now h
      simp [hb]

theorem get?_observe (reg : Registry K) (now : K) (h : id ∈ seen.map (·.id)) :
    (reg.observe now seen).get? id = Keyed.get? (seen.foldl (merge now) reg) id := by
  rw [observe, Keyed.get?_map]
  cases hb : Keyed.get? (seen.foldl (merge now) reg) id with
  | none => rfl
  | some b =>
    have hid : b.id = id := Keyed.key_of_get? hb
    simp [disappear, hid, h]

theorem swept_observe (reg : Registry K) (now : K) (seen : List (Atomic K)) :
    Swept reg seen (reg.observe now seen) where
  ids id := by
    rw [observe, Keyed.get?_map, Option.isSome_map]
    exact isSome_merged
  present id a h := by
    rw [observe, Keyed.get?_map] at h
    obtain ⟨b, hb, rfl⟩ := Option.map_eq_some_iff.mp h
    have hid : b.id = id := Keyed.key_of_get? hb
    by_cases hmem : id ∈ seen.map (·.id)
    · obtain ⟨c, hc, hpresent⟩ := present_merged reg now hmem
      obtain rfl : c = b := Option.some.inj (hc.symm.trans hb)
      simp [disappear, hid, hmem, hpresent]
    · cases hpresent : b.present with
      | false => simp [disappear, hpresent, hmem]
      | true => simp [disappear, hpresent, hid, hmem]
  known id a b ha hb := by
    rw [observe, Keyed.get?_map] at hb
    obtain ⟨c, hc, rfl⟩ := Option.map_eq_some_iff.mp hb
    obtain ⟨c', hc', hcarried, -⟩ := carried_merged ha now seen
    obtain rfl : c' = c := Option.some.inj (hc'.symm.trans hc)
    exact hcarried.trans (carried_disappear _ _)

end Registry

-- ---------------------------------------------------------------------------
-- The health of what is present
-- ---------------------------------------------------------------------------

def Atomic.held (a : Atomic K) : Option Health := if a.present then some a.health else none

namespace Registry

def held (reg : Registry K) (id : String) : Option Health := (reg.get? id).bind Atomic.held

def freshHealth (seen : List (Atomic K)) (id : String) : Option Health :=
  (seen.find? fun a => a.id = id).map (·.health)

variable {reg : Registry K} {now : K} {seen : List (Atomic K)} {id : String}

theorem held_put (reg : Registry K) (a : Atomic K) (id : String) :
    held (Keyed.put reg a) id = if a.id = id then a.held else reg.held id := by
  unfold held
  rw [Keyed.get?_put]
  split <;> rfl

theorem held_merge (now : K) (reg : Registry K) (fresh : Atomic K) (id : String) :
    (merge now reg fresh).held id =
      if fresh.id = id then (reg.held id).or (some fresh.health) else reg.held id := by
  unfold merge
  cases hk : reg.get? fresh.id with
  | none =>
    simp only [held_put]
    split
    · rename_i hid
      simp [← hid, held, hk, Atomic.held]
    · rfl
  | some known =>
    have hid : known.id = fresh.id := Keyed.key_of_get? hk
    simp only [held_put, hid]
    split
    · rename_i hid
      cases hp : known.present <;> simp [← hid, held, hk, Atomic.held, hp]
    · rfl

theorem held_foldl_merge (now : K) (reg : Registry K) (seen : List (Atomic K)) (id : String) :
    held (seen.foldl (merge now) reg) id = (reg.held id).or (freshHealth seen id) :=
  foldl_merge_or (held_merge now) reg seen id

/-- What a sweep reports of a connection counts if it was away. -/
theorem held_observe (reg : Registry K) (now : K) (h : id ∈ seen.map (·.id)) :
    (reg.observe now seen).held id = (reg.held id).or (freshHealth seen id) := by
  rw [← held_foldl_merge now]
  unfold held
  rw [get?_observe reg now h]

theorem held_eq (reg : Registry K) (id : String) :
    reg.held id = ((reg.get? id).map Atomic.held).join := by
  rw [held]
  cases reg.get? id <;> rfl

theorem isSome_freshHealth (h : id ∈ seen.map (·.id)) : (freshHealth seen id).isSome := by
  simpa [freshHealth] using h

-- ---------------------------------------------------------------------------
-- Runs
-- ---------------------------------------------------------------------------

def Ever (reg : Registry K) (id : String) : Prop :=
  (reg.get? id).map (·.everConnected) = some true

theorem ever_observe (h : Ever reg id) (now : K) (seen : List (Atomic K)) :
    Ever (reg.observe now seen) id := by
  obtain ⟨a, ha, hever⟩ := Option.map_eq_some_iff.mp h
  obtain ⟨b, hb, -, hkept⟩ := carried_merged ha now seen
  rw [Ever, observe, Keyed.get?_map, hb]
  simp [everConnected_disappear, hkept hever]

theorem ever_modify (h : Ever reg id) (j : String) {f : Atomic K → Atomic K}
    (hid : ∀ a, (f a).id = a.id) (hf : ∀ a, (f a).everConnected = a.everConnected) :
    Ever (Keyed.modify reg j f) id :=
  (Keyed.map_get?_modify reg j id hid hf).trans h

theorem ever_call (h : Ever reg id) (c : Call K) : Ever (reg.call c) id := by
  cases c with
  | observe now seen => exact ever_observe h now seen
  | setMode j mode => exact ever_modify h j (fun _ => rfl) (fun _ => rfl)
  | setRoleAndMode j role mode => exact ever_modify h j (fun _ => rfl) (fun _ => rfl)
  | updateCapacity j capacity => exact ever_modify h j (fun _ => rfl) (fun _ => rfl)
  | updateHealth j health =>
    exact ever_modify h j (fun a => by split <;> rfl) (fun a => by split <;> rfl)
  | addCost j consumed liveness => exact ever_modify h j (fun _ => rfl) (fun _ => rfl)

theorem capacity_observe (h : (reg.get? id).map (·.capacity) = some c) (now : K)
    (seen : List (Atomic K)) : ((reg.observe now seen).get? id).map (·.capacity) = some c := by
  obtain ⟨a, ha, rfl⟩ := Option.map_eq_some_iff.mp h
  have hswept := swept_observe reg now seen
  have hsome : ((reg.observe now seen).get? id).isSome := (hswept.ids id).mpr (.inl (by simp [ha]))
  obtain ⟨b, hb⟩ := Option.isSome_iff_exists.mp hsome
  rw [hb, Option.map_some, (hswept.known id a b ha hb).capacity]

theorem capacity_call (h : (reg.get? id).map (·.capacity) = some c) {turn : Call K}
    (hturn : ∀ j capacity, turn = .updateCapacity j capacity → j ≠ id) :
    ((reg.call turn).get? id).map (·.capacity) = some c := by
  have hmodify : ∀ (j : String) {f : Atomic K → Atomic K}, (∀ a, (f a).id = a.id) →
      (∀ a, (f a).capacity = a.capacity) →
      ((Keyed.modify reg j f).get? id).map (·.capacity) = some c := by
    intro j f hid hf
    exact (Keyed.map_get?_modify reg j id hid hf).trans h
  cases turn with
  | observe now seen => exact capacity_observe h now seen
  | setMode j mode => exact hmodify j (fun _ => rfl) (fun _ => rfl)
  | setRoleAndMode j role mode => exact hmodify j (fun _ => rfl) (fun _ => rfl)
  | updateCapacity j capacity =>
    have hj : id ≠ j := Ne.symm (hturn j capacity rfl)
    have hkept : (reg.updateCapacity j capacity).get? id = reg.get? id := by
      rw [updateCapacity, Keyed.get?_modify, if_neg hj]
      exact fun _ => rfl
    exact (congrArg (Option.map _) hkept).trans h
  | updateHealth j health =>
    exact hmodify j (fun a => by split <;> rfl) (fun a => by split <;> rfl)
  | addCost j consumed liveness => exact hmodify j (fun _ => rfl) (fun _ => rfl)

theorem silent_observe (h : reg.All Silent) (now : K) (seen : List (Atomic K)) :
    (reg.observe now seen).All Silent := by
  have hmerged : (seen.foldl (merge now) reg : Registry K).All Silent := by
    induction seen generalizing reg with
    | nil => exact h
    | cons fresh seen ih => exact ih (silent_merge h)
  refine Keyed.all_map hmerged _ ?_
  intro a ha
  unfold disappear
  split
  · exact fun _ => rfl
  · exact ha

theorem silent_modify (h : reg.All Silent) (id : String) {f : Atomic K → Atomic K}
    (hf : ∀ a, (f a).present = a.present ∧ (f a).ifname = a.ifname) :
    (Keyed.modify reg id f).All Silent := by
  refine Keyed.all_modify h id ?_
  intro a ha hpresent
  rw [(hf a).1] at hpresent
  rw [(hf a).2]
  exact h.of_get? ha hpresent

theorem silent_call (h : reg.All Silent) (c : Call K) : (reg.call c).All Silent := by
  cases c with
  | observe now seen => exact silent_observe h now seen
  | setMode id mode => exact silent_modify h id fun _ => ⟨rfl, rfl⟩
  | setRoleAndMode id role mode => exact silent_modify h id fun _ => ⟨rfl, rfl⟩
  | updateCapacity id capacity => exact silent_modify h id fun _ => ⟨rfl, rfl⟩
  | updateHealth id health => exact silent_modify h id fun a => by split <;> exact ⟨rfl, rfl⟩
  | addCost id consumed liveness => exact silent_modify h id fun _ => ⟨rfl, rfl⟩

variable [Ring K] [LinearOrder K]

theorem silent_start (file : Option (StateFile K)) (now wall : K) :
    (start file now wall).All Silent := by
  cases file with
  | none => exact Keyed.all_empty
  | some f =>
    have hstored : f.atomics.All fun _ => True := fun _ _ => trivial
    exact Keyed.all_map hstored (restore_id _ _) fun _ _ _ => rfl

/-- Whatever calls came before it, a sweep adds to the connections that are known,
tells which are present and leaves what is remembered alone. -/
theorem observe_never_forgets (file : Option (StateFile K)) (now wall : K)
    (calls : List (Call K)) :
    let reg := Runs.exec call (start file now wall) calls
    (∀ now seen, Swept reg seen (reg.observe now seen)) ∧ reg.All Silent ∧
      ∀ later id, Ever reg id → Ever (Runs.exec call reg later) id := by
  intro reg
  refine ⟨swept_observe reg, ?_, ?_⟩
  · exact Runs.exec_keeps (P := fun reg : Registry K => reg.All Silent)
      (fun _ c _ h => silent_call h c) (silent_start file now wall)
  · intro later id h
    exact Runs.exec_keeps (P := fun reg => Ever reg id) (fun _ c _ h => ever_call h c) h

end Registry

end Wifucked
