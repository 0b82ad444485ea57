import Wifucked.Daemon.Modes

/-!
# What is remembered of every connection

A property of each atomic that says nothing of what only a sweep or a
measurement touches is carried through a run, into the state file and back,
by what the few actions that concern it keep of it.
-/

namespace Wifucked

variable {K : Type}

/-- A property of atomics that the fields written at every sweep and
measurement do not matter to. -/
structure Remembered (Q : Atomic K → Prop) : Prop where
  seen : ∀ a, Q a → ∀ label ifname attributes present lastSeen health everConnected,
    Q { a with label, ifname, attributes, present, lastSeen, health, everConnected }
  quality : ∀ a, Q a → ∀ quality, Q { a with quality }
  cost : ∀ a, Q a → ∀ cost, Q { a with cost }

/-- One that the state file carries over. -/
structure Durable [Ring K] [LinearOrder K] (Q : Atomic K → Prop) (S : StoredAtomic K → Prop) :
    Prop extends Remembered Q where
  stored : ∀ a, Q a → ∀ now, S (Registry.store now a)
  restored : ∀ e, S e → ∀ elapsed now, 0 ≤ elapsed → Q (Registry.restore elapsed now e)

def Atomic.discovered (now : K) (a : Atomic K) : Atomic K :=
  { a with firstSeen := some now, lastSeen := some now, present := true }

-- ---------------------------------------------------------------------------
-- The registry
-- ---------------------------------------------------------------------------

namespace Registry

variable {Q : Atomic K → Prop} {reg : Registry K} {now : K}

theorem all_merge (hq : Remembered Q) (h : reg.All Q) {fresh : Atomic K}
    (hf : reg.get? fresh.id = none → Q (fresh.discovered now)) :
    (merge now reg fresh).All Q := by
  unfold merge
  cases hk : reg.get? fresh.id with
  | none => exact Keyed.all_put h (hf hk)
  | some known => exact Keyed.all_put h (hq.seen known (h.of_get? hk) _ _ _ _ _ _ _)

theorem get?_merge_none {fresh : Atomic K} {id : String}
    (h : (merge now reg fresh).get? id = none) : reg.get? id = none := by
  have hmode : (merge now reg fresh).modeOf id = none := by simp [modeOf, h]
  rw [modeOf_merge] at hmode
  split at hmode
  · simp at hmode
  · simpa [modeOf] using hmode

theorem all_observe (hq : Remembered Q) {seen : List (Atomic K)} (h : reg.All Q)
    (hf : ∀ a ∈ seen, reg.get? a.id = none → Q (a.discovered now)) :
    (reg.observe now seen).All Q := by
  have hmerged : (seen.foldl (merge now) reg : Registry K).All Q := by
    induction seen generalizing reg with
    | nil => exact h
    | cons a seen ih =>
      obtain ⟨ha, hf⟩ := List.forall_mem_cons.mp hf
      exact ih (all_merge hq h ha) fun b hb hn => hf b hb (get?_merge_none hn)
  refine Keyed.all_map hmerged _ fun a ha => ?_
  unfold disappear
  split
  · exact hq.seen a ha a.label none a.attributes false a.lastSeen .absent a.everConnected
  · exact ha

end Registry

namespace Daemon

-- ---------------------------------------------------------------------------
-- Actions
-- ---------------------------------------------------------------------------

variable [Field K] [LinearOrder K] {Q : Atomic K → Prop} {S : StoredAtomic K → Prop}

/-- The property holds of every connection, in the registry and in the file. -/
structure Keeps (Q : Atomic K → Prop) (S : StoredAtomic K → Prop) (d : Daemon K) : Prop where
  registry : d.registry.All Q
  file : ∀ f, d.file = some f → f.atomics.All S

theorem keeps_loaded {r : Reading K}
    (hq : ∀ e, S e → ∀ elapsed, 0 ≤ elapsed → Q (Registry.restore elapsed r.now e))
    (config : Config K) {file : Option (StateFile K)}
    (hf : ∀ f, file = some f → f.atomics.All S) : (init config file r).Keeps Q S := by
  have hfile : ∀ f, (if config.persist then file else none) = some f → f.atomics.All S := by
    intro f h
    split at h
    · exact hf f h
    · cases h
  refine ⟨?_, hfile⟩
  simp only [init]
  cases hf : (if config.persist then file else none) with
  | none => exact Keyed.all_empty
  | some f =>
    exact Keyed.all_map (hfile f hf) (Registry.restore_id _ _)
      fun e he => hq e he _ (le_max_left _ _)

theorem keeps_init (hq : Durable Q S) (config : Config K) {file : Option (StateFile K)}
    (hf : ∀ f, file = some f → f.atomics.All S) (r : Reading K) :
    (init config file r).Keeps Q S :=
  keeps_loaded (fun e he elapsed => hq.restored e he elapsed r.now) config hf

variable [FloorRing K] [HalfPow K]

/-- What an action has to keep of the property. -/
def Respects (Q : Atomic K → Prop) (d : Daemon K) (e : Event K) : Prop :=
  match e.action with
  | .discover seen => ∀ a ∈ seen, d.registry.get? a.id = none → Q (a.discovered e.reading.now)
  | .applyOutcome => ∀ o, d.outcomes.head? = some o → ∀ a, d.registry.get? o.atomicId = some a →
      Q { a with role := o.role, mode := o.mode }
  | .measure atomic observation => ∀ a, d.registry.get? atomic.id = some a →
      Q { a with capacity := fold atomic.capacity observation e.reading.now }
  | .setMode id mode => ∀ a, d.registry.get? id = some a → Q { a with mode }
  | _ => True

theorem all_measureOne (hq : Remembered Q) {d : Daemon K} (h : d.registry.All Q)
    (hm : ∀ a, d.registry.get? atomic.id = some a →
      Q { a with capacity := fold atomic.capacity observation r.now }) :
    (d.measureOne r atomic observation).registry.All Q := by
  have hcapacity := Keyed.all_modify h atomic.id hm
  have hquality := Keyed.all_modify hcapacity atomic.id
    fun a ha => hq.quality a (hcapacity.of_get? ha) (qualityOf observation)
  refine Keyed.all_modify hquality atomic.id fun a ha => ?_
  have ha := hquality.of_get? ha
  split
  · exact ha
  · exact hq.seen a ha a.label a.ifname a.attributes a.present a.lastSeen _ a.everConnected

theorem all_step (hq : Remembered Q) {d : Daemon K} (h : d.registry.All Q) {e : Event K}
    (he : d.Respects Q e) (hr : e.action ≠ .restart) : (d.step e).registry.All Q := by
  obtain ⟨r, action⟩ := e
  cases action with
  | discover seen => exact Registry.all_observe hq h he
  | consider p => exact (considerPorts_frame d p).1 ▸ h
  | applyOutcome =>
    simp only [step, applyOutcome]
    cases ho : d.outcomes with
    | nil => exact h
    | cons o outcomes =>
      simp only [setRoleAndMode]
      split
      · exact h
      · rw [persist_registry]
        exact Keyed.all_modify h o.atomicId (he o (by rw [ho]; rfl))
  | measure a o => exact all_measureOne hq h he
  | decide demand => exact h
  | spend a =>
    simp only [step, spendOn]
    split
    · exact Keyed.all_modify h a.id fun b hb => hq.cost b (h.of_get? hb) _
    · exact h
  | fast env => exact (fastLoop_frame d env).1 ▸ h
  | persist => exact (persist_registry d r).symm ▸ h
  | setMode id mode =>
    simp only [step, setMode]
    split
    · exact h
    · rw [persist_registry]
      exact Keyed.all_modify h id he
  | restart => exact absurd rfl hr

/-- What an action that is neither a sweep nor a restart may do to a connection. -/
def Rewrites (e : Event K) (f : Atomic K → Atomic K) : Prop :=
  match e.action with
  | .applyOutcome => ∃ role mode, f = fun a => { a with role, mode }
  | .measure _ _ =>
    (∃ capacity, f = fun a => { a with capacity }) ∨ (∃ quality, f = fun a => { a with quality }) ∨
      ∃ health, f = fun a => if a.health = health then a else { a with health }
  | .spend _ => ∃ cost : Atomic K → Cost K, f = fun a => { a with cost := cost a }
  | .setMode _ mode => f = fun a => { a with mode }
  | _ => False

theorem map_get?_step {α : Type} {g : Atomic K → α} {d : Daemon K} {e : Event K}
    (hdiscover : ∀ seen, e.action ≠ .discover seen) (hrestart : e.action ≠ .restart)
    (hg : ∀ f, Rewrites e f → ∀ a, g (f a) = g a) (id : String) :
    ((d.step e).registry.get? id).map g = (d.registry.get? id).map g := by
  obtain ⟨r, action⟩ := e
  cases action with
  | discover seen => exact absurd rfl (hdiscover seen)
  | consider p => rw [step, (considerPorts_frame d p).1]
  | applyOutcome =>
    simp only [step, applyOutcome]
    cases d.outcomes with
    | nil => rfl
    | cons o outcomes =>
      simp only [setRoleAndMode]
      split
      · rfl
      · rw [persist_registry]
        exact Keyed.map_get?_modify _ _ _ (fun _ => rfl) (hg _ ⟨_, _, rfl⟩)
  | measure atomic observation =>
    simp only [step, measureOne, Registry.updateHealth, Registry.setQuality,
      Registry.updateCapacity]
    rw [Keyed.map_get?_modify, Keyed.map_get?_modify, Keyed.map_get?_modify]
    · exact fun _ => rfl
    · exact hg _ (.inl ⟨_, rfl⟩)
    · exact fun _ => rfl
    · exact hg _ (.inr (.inl ⟨_, rfl⟩))
    · exact fun a => by split <;> rfl
    · exact hg _ (.inr (.inr ⟨_, rfl⟩))
  | decide demand => rfl
  | spend a =>
    simp only [step, spendOn]
    split
    · exact Keyed.map_get?_modify _ _ _ (fun _ => rfl) (hg _ ⟨_, rfl⟩)
    · rfl
  | fast env => rw [step, (fastLoop_frame d env).1]
  | persist => rw [step, persist_registry]
  | setMode j mode =>
    simp only [step, setMode]
    split
    · rfl
    · rw [persist_registry]
      exact Keyed.map_get?_modify _ _ _ (fun _ => rfl) (hg _ rfl)
  | restart => exact absurd rfl hrestart

/-- The file after an action is the one before it, or holds the registry as it
then is. -/
theorem file_step {d : Daemon K} {e : Event K} (h : (d.step e).file = some f) :
    d.file = some f ∨ f = (d.step e).registry.persist e.reading.now e.reading.wall := by
  have hpersist : ∀ {d : Daemon K} {r}, (d.persist r).file = some f →
      d.file = some f ∨ f = (d.persist r).registry.persist r.now r.wall := by
    intro d r h
    rw [persist_registry]
    unfold persist at h
    split at h
    · exact .inr (Option.some.inj h).symm
    · exact .inl h
  obtain ⟨r, action⟩ := e
  cases action with
  | discover seen => exact .inl h
  | consider p => exact .inl ((considerPorts_frame d p).2.1 ▸ h)
  | applyOutcome =>
    simp only [step, applyOutcome] at h ⊢
    cases ho : d.outcomes with
    | nil => rw [ho] at h; exact .inl h
    | cons o outcomes =>
      rw [ho] at h
      simp only [setRoleAndMode] at h ⊢
      split at h
      · exact .inl h
      · exact hpersist h
  | measure a o => exact .inl h
  | decide demand => exact .inl h
  | spend a => exact .inl ((spendOn_frame d r a).2.1 ▸ h)
  | fast env => exact .inl ((fastLoop_frame d env).2.1 ▸ h)
  | persist => exact hpersist h
  | setMode id mode =>
    simp only [step, setMode] at h ⊢
    split at h
    · exact .inl h
    · exact hpersist h
  | restart =>
    simp only [step, restart, init] at h
    split at h
    · exact .inl h
    · cases h

theorem keeps_step (hq : Durable Q S) {d : Daemon K} (h : d.Keeps Q S) {e : Event K}
    (he : d.Respects Q e) : (d.step e).Keeps Q S := by
  by_cases hr : e.action = .restart
  · obtain ⟨r, action⟩ := e
    obtain rfl : action = .restart := hr
    exact keeps_init hq d.config h.file r
  · have hregistry := all_step hq.toRemembered h.registry he hr
    refine ⟨hregistry, fun f hf => ?_⟩
    rcases file_step hf with hf | rfl
    · exact h.file f hf
    · exact Keyed.all_map (Keyed.all_filter hregistry) (Registry.store_id _)
        fun a ha => hq.stored a ha _

end Daemon

end Wifucked
