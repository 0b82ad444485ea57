import Wifucked.Daemon.Upstream
import Wifucked.Ports.Verdicts

/-!
# The role of a port and the interface it is known by

Sweeps give interfaces to ports and keep their roles, outcomes write a role
and nothing else touches either. A port with a pipeline is still a WAN port.
-/

namespace Wifucked

variable {K : Type}

-- ---------------------------------------------------------------------------
-- Sweeps
-- ---------------------------------------------------------------------------

namespace Registry

variable {reg : Registry K} {now : K} {id : String}

theorem merge_seen (reg : Registry K) (now : K) (fresh : Atomic K) :
    ∃ b, (merge now reg fresh).get? fresh.id = some b ∧ b.ifname = fresh.ifname ∧
      (∀ a, reg.get? fresh.id = some a → b.role = a.role) ∧
      (reg.get? fresh.id = none → b.role = fresh.role) := by
  unfold merge
  cases hk : reg.get? fresh.id with
  | none =>
    refine ⟨_, (Keyed.get?_put ..).trans (if_pos rfl), rfl, fun a h => ?_, fun _ => rfl⟩
    cases h
  | some known =>
    refine ⟨_, (Keyed.get?_put ..).trans (if_pos (Keyed.key_of_get? hk)), rfl, fun a h => ?_,
      fun h => ?_⟩
    · cases h
      rfl
    · cases h

structure Seen (reg : Registry K) (seen : List (Atomic K)) (id : String) (b : Atomic K) :
    Prop where
  known : ∀ a, reg.get? id = some a → b.role = a.role
  unknown : reg.get? id = none → ∃ f ∈ seen, f.id = id ∧ b.role = f.role
  iface : b.ifname = none ∨ (∃ f ∈ seen, f.id = id ∧ b.ifname = f.ifname) ∨
    ∃ a, reg.get? id = some a ∧ b.ifname = a.ifname

theorem seen_merged {seen : List (Atomic K)} {b : Atomic K}
    (h : Keyed.get? (seen.foldl (merge now) reg) id = some b) : Seen reg seen id b := by
  induction seen generalizing reg with
  | nil =>
    have h : reg.get? id = some b := h
    refine ⟨fun a ha => ?_, fun hn => ?_, .inr (.inr ⟨b, h, rfl⟩)⟩
    · rw [h] at ha
      rw [Option.some.inj ha]
    · rw [hn] at h
      cases h
  | cons f seen ih =>
    have hseen := ih h
    by_cases hf : f.id = id
    · subst hf
      obtain ⟨c, hc, hifname, hknown, hunknown⟩ := merge_seen reg now f
      have hrole := hseen.known c hc
      refine ⟨fun a ha => hrole.trans (hknown a ha),
        fun hn => ⟨f, List.mem_cons_self, rfl, hrole.trans (hunknown hn)⟩, ?_⟩
      rcases hseen.iface with hb | ⟨g, hg, hid, hb⟩ | ⟨a, ha, hb⟩
      · exact .inl hb
      · exact .inr (.inl ⟨g, List.mem_cons_of_mem _ hg, hid, hb⟩)
      · obtain rfl := Option.some.inj (hc.symm.trans ha)
        exact .inr (.inl ⟨f, List.mem_cons_self, rfl, hb.trans hifname⟩)
    · have hsame := get?_merge reg now f hf
      refine ⟨fun a ha => hseen.known a (hsame.trans ha), fun hn => ?_, ?_⟩
      · obtain ⟨g, hg, hid, hb⟩ := hseen.unknown (hsame.trans hn)
        exact ⟨g, List.mem_cons_of_mem _ hg, hid, hb⟩
      · rcases hseen.iface with hb | ⟨g, hg, hid, hb⟩ | ⟨a, ha, hb⟩
        · exact .inl hb
        · exact .inr (.inl ⟨g, List.mem_cons_of_mem _ hg, hid, hb⟩)
        · exact .inr (.inr ⟨a, hsame.symm.trans ha, hb⟩)

theorem seen_observe {seen : List (Atomic K)} {b : Atomic K}
    (h : (reg.observe now seen).get? id = some b) : Seen reg seen id b := by
  rw [observe, Keyed.get?_map] at h
  obtain ⟨c, hc, rfl⟩ := Option.map_eq_some_iff.mp h
  have hseen := seen_merged hc
  unfold disappear
  split
  · exact ⟨hseen.known, hseen.unknown, .inl rfl⟩
  · exact hseen

theorem role_observe {a : Atomic K} (ha : reg.get? id = some a) (now : K)
    (seen : List (Atomic K)) :
    ∃ b, (reg.observe now seen).get? id = some b ∧ b.role = a.role := by
  have hmode := modeOf_observe reg now seen id
  cases hb : (reg.observe now seen).get? id with
  | none => simp [modeOf, hb, ha] at hmode
  | some b => exact ⟨b, rfl, (seen_observe hb).known a ha⟩

end Registry

-- ---------------------------------------------------------------------------
-- Other actions
-- ---------------------------------------------------------------------------

def Atomic.port (a : Atomic K) : PortRole × Option String := (a.role, a.ifname)

namespace Daemon

variable [Field K] [LinearOrder K] [FloorRing K] [HalfPow K]

theorem port_step (d : Daemon K) {e : Event K} (he : e.classifies = false)
    (hs : ∀ seen, e.action ≠ .discover seen) (id : String) :
    ((d.step e).registry.get? id).map (·.port) = (d.registry.get? id).map (·.port) := by
  obtain ⟨r, action⟩ := e
  refine map_get?_step hs ?_ (fun f hf a => ?_) id
  · rintro rfl
    cases he
  cases action with
  | applyOutcome => cases he
  | measure =>
    rcases hf with ⟨capacity, rfl⟩ | ⟨quality, rfl⟩ | ⟨health, rfl⟩
    · rfl
    · rfl
    · dsimp only
      split <;> rfl
  | spend =>
    obtain ⟨cost, rfl⟩ := hf
    rfl
  | setMode =>
    obtain rfl := hf
    rfl
  | _ => cases hf

theorem role_step (d : Daemon K) {e : Event K} (he : e.classifies = false) {id : String}
    {a : Atomic K} (ha : d.registry.get? id = some a) :
    ∃ b, (d.step e).registry.get? id = some b ∧ b.role = a.role := by
  by_cases hd : ∃ seen, e.action = .discover seen
  · obtain ⟨r, action⟩ := e
    obtain ⟨seen, rfl⟩ := hd
    exact Registry.role_observe ha r.now seen
  · have hport := port_step d he (fun seen h => hd ⟨seen, h⟩) id
    rw [ha] at hport
    obtain ⟨b, hb, hport⟩ := Option.map_eq_some_iff.mp hport
    exact ⟨b, hb, (Prod.mk.inj hport).1⟩

/-- A port after an action that is not about classification was there with the
same role and interface, or a sweep saw it. -/
theorem seen_step (d : Daemon K) {e : Event K} (he : e.classifies = false) {id : String}
    {b : Atomic K} (hb : (d.step e).registry.get? id = some b) :
    ∃ seen, (∀ f ∈ seen, e.action = .discover seen) ∧ Registry.Seen d.registry seen id b := by
  by_cases hd : ∃ seen, e.action = .discover seen
  · obtain ⟨r, action⟩ := e
    obtain ⟨seen, rfl⟩ := hd
    exact ⟨seen, fun _ _ => rfl, Registry.seen_observe hb⟩
  · have hport := port_step d he (fun seen h => hd ⟨seen, h⟩) id
    rw [hb] at hport
    obtain ⟨a, ha, hport⟩ := Option.map_eq_some_iff.mp hport.symm
    obtain ⟨hrole, hifname⟩ := Prod.mk.inj hport
    refine ⟨[], fun _ hf => absurd hf List.not_mem_nil, fun c hc => ?_, fun hn => ?_,
      .inr (.inr ⟨a, ha, hifname.symm⟩)⟩
    · obtain rfl := Option.some.inj (ha.symm.trans hc)
      exact hrole.symm
    · rw [hn] at ha
      cases ha

omit [FloorRing K] [HalfPow K] in
theorem registry_applyOutcome (d : Daemon K) (r : Reading K) :
    (d.applyOutcome r).registry =
      match d.outcomes.head? with
      | none => d.registry
      | some o => d.registry.setRoleAndMode o.atomicId o.role o.mode := by
  unfold applyOutcome
  cases d.outcomes with
  | nil => rfl
  | cons o outcomes =>
    simp only [setRoleAndMode, List.head?_cons]
    split
    · rename_i hn
      simp only [Registry.setRoleAndMode, Keyed.modify, hn]
    · exact persist_registry ..

end Daemon

-- ---------------------------------------------------------------------------
-- Ports with a pipeline
-- ---------------------------------------------------------------------------

def Happening.Writes (e : Happening K) : Prop :=
  match e with
  | .act _ | .apply _ | .restart _ | .reboot _ => True
  | _ => False

def Happening.Swept (e : Happening K) : Prop :=
  match e with
  | .act e => ∀ seen, e.action = .discover seen → ∀ a ∈ seen, a.role = .wan
  | _ => True

namespace Appliance

variable {s : Appliance K}

/-- A port with a pipeline whose outcome is not applied yet is a WAN port. -/
def Waits (s : Appliance K) : Prop :=
  s.daemon.registry.All fun a => (∃ t ∈ s.live, t.id = a.id) → a.role = .wan

variable [Field K] [LinearOrder K] [FloorRing K] [HalfPow K]

theorem daemon_step (s : Appliance K) {e : Happening K} (he : ¬ e.Writes) :
    (s.step e).daemon.registry = s.daemon.registry ∧ (s.step e).daemon.file = s.daemon.file := by
  by_cases hp : e.Plugs
  · rcases ports_step s hp with ⟨r, rfl⟩ | ⟨plugged, periods, host, served, hs⟩
    · exact absurd trivial he
    · rw [hs]
      exact ⟨rfl, rfl⟩
  · cases e with
    | submit =>
      simp only [step]
      split
      · exact ⟨(submit_frame s).1, (submit_frame s).2.1⟩
      · exact ⟨rfl, rfl⟩
    | harvest done =>
      simp only [step, harvest]
      split
      · split <;> exact ⟨rfl, rfl⟩
      · exact ⟨rfl, rfl⟩
    | call k answer =>
      simp only [step]
      rcases call_inv s k answer with he | ⟨u, host, u', -, -, he⟩
      · rw [he]
        exact ⟨rfl, rfl⟩
      · rw [he]
        exact ⟨rfl, rfl⟩
    | plug | unplug | rename | reboot => exact absurd trivial hp
    | _ => exact absurd trivial he

theorem config_step (s : Appliance K) (e : Happening K) :
    (s.step e).daemon.config = s.daemon.config := by
  by_cases hp : e.Plugs
  · rcases ports_step s hp with ⟨r, rfl⟩ | ⟨plugged, periods, host, served, he⟩
    · rfl
    · rw [he]
  · cases e with
    | act e =>
      simp only [step]
      split
      · rename_i hm
        exact (Daemon.classifier_step s.daemon (not_classifies_of_may hm)).2.2
      · rfl
    | submit =>
      simp only [step]
      split
      · exact (submit_frame s).2.2.1
      · rfl
    | harvest done =>
      simp only [step, harvest]
      split
      · split <;> rfl
      · rfl
    | apply r => exact (Daemon.classifier_applyOutcome s.daemon r).2.2
    | call k answer =>
      simp only [step]
      rcases call_inv s k answer with he | ⟨u, host, u', -, -, he⟩ <;> rw [he]
    | restart r => rfl
    | _ => exact absurd trivial hp

omit [FloorRing K] [HalfPow K] in
theorem iface_init (config : Config K) (file : Option (StateFile K)) (r : Reading K) :
    (init config file r).daemon.registry.All fun a => a.iface = none := by
  simp only [init, Daemon.init]
  cases (if config.persist then file else none) with
  | none => exact Keyed.all_empty
  | some f =>
    exact Keyed.all_map (Q := fun _ => True) (fun _ _ => trivial) (Registry.restore_id _ _)
      fun _ _ => rfl

omit [FloorRing K] [HalfPow K] in
theorem iface_restart (s : Appliance K) (r : Reading K) :
    (s.restart r).daemon.registry.All fun a => a.iface = none :=
  iface_init s.daemon.config s.daemon.file r

/-- A thread that is live after a step is of a port with one before, or of one
that the step started it for. -/
theorem id_of_mem_live_step {e : Happening K} {t : Thread K} (ht : t ∈ (s.step e).live) :
    (∃ u ∈ s.live, u.id = t.id) ∨
      e = .submit ∧ ∃ a ∈ s.daemon.registry.all, a.id = t.id ∧ a.role = .wan := by
  rcases mem_live_step ht with h | ⟨c, a, rfl, -, -, ha, hs, hat⟩ | ⟨k, answer, u, host, -, hk, hc⟩
  · exact .inl ⟨t, h, rfl⟩
  · refine .inr ⟨rfl, a, ha, ?_, ?_⟩
    · exact (congrArg Atomic.id (Thread.of_start? hat).1).symm
    · simp only [LanOutClassifier.starts, isCandidate, Bool.and_eq_true, decide_eq_true_eq] at hs
      exact hs.1.1.1.1.1.2
  · exact .inl ⟨u, mem_live hk,
      (congrArg Atomic.id hc.atomic).symm⟩

theorem apply_inv (ht : s.Tracks) (r : Reading K) :
    ((s.step (.apply r)).live = s.live ∧
        (s.step (.apply r)).daemon.registry = s.daemon.registry) ∨
      ∃ o u, u ∈ s.live ∧ u.Outcome o ∧ s.live = u :: (s.step (.apply r)).live ∧
        (∀ t ∈ (s.step (.apply r)).live, t.id ≠ u.id) ∧
        ∀ id, (s.step (.apply r)).daemon.registry.get? id =
          if id = u.id then
            (s.daemon.registry.get? id).map fun a => { a with role := o.role, mode := o.mode }
          else s.daemon.registry.get? id := by
  have hreg := Daemon.registry_applyOutcome s.daemon r
  have hnodup := ht.nodup
  have houtcomes := ht.outcomes
  cases ho : s.daemon.outcomes with
  | nil =>
    rw [ho] at houtcomes hreg
    cases hc : s.collected with
    | cons u rest => rw [hc] at houtcomes; cases houtcomes
    | nil => exact .inl ⟨by simp [live, step, hc], hreg⟩
  | cons o outcomes =>
    rw [ho] at houtcomes hreg
    cases hc : s.collected with
    | nil => rw [hc] at houtcomes; cases houtcomes
    | cons u rest =>
      rw [hc] at houtcomes
      cases houtcomes with
      | cons hou _ =>
        have hlive : s.live = u :: (s.step (.apply r)).live := by simp [live, step, hc]
        rw [hlive, List.map_cons] at hnodup
        refine .inr ⟨o, u, hlive ▸ List.mem_cons_self, hou, hlive, fun t hmem he => ?_,
          fun id => ?_⟩
        · exact (List.nodup_cons.mp hnodup).1 (he ▸ List.mem_map_of_mem hmem)
        · simp only [step, hreg, List.head?_cons, Registry.setRoleAndMode, hou.atomicId]
          rw [Keyed.get?_modify]
          · split
            · rename_i he
              rw [he]
            · rfl
          · exact fun _ => rfl

theorem waits_act (h : s.Waits) {e : Event K} (hs : (Happening.act e).Swept)
    (hc : e.classifies = false) :
    (s.daemon.step e).registry.All fun a => (∃ t ∈ s.live, t.id = a.id) → a.role = .wan := by
  intro b hb hlive
  obtain ⟨seen, hact, hseen⟩ := Daemon.seen_step s.daemon hc (Keyed.mem_values.mp hb)
  cases hk : s.daemon.registry.get? b.id with
  | none =>
    obtain ⟨f, hf, -, hrole⟩ := hseen.unknown hk
    exact hrole.trans (hs seen (hact f hf) f hf)
  | some a =>
    rw [hseen.known a hk]
    exact h.of_get? hk (by rwa [Keyed.key_of_get? hk])

theorem waits_step (ht : s.Tracks) (h : s.Waits) {e : Happening K} (he : e.Swept) :
    (s.step e).Waits := by
  by_cases hw : e.Writes
  · cases e with
    | act e =>
      simp only [step]
      split
      · rename_i hm
        exact waits_act h he (not_classifies_of_may hm)
      · exact h
    | apply r =>
      rintro b hb ⟨t, hmem, hid⟩
      have hb := Keyed.mem_values.mp hb
      rcases apply_inv ht r with ⟨hlive, hreg⟩ | ⟨o, u, -, -, hlive, hother, hreg⟩
      · rw [hreg] at hb
        exact h.of_get? hb ⟨t, hlive ▸ hmem, hid⟩
      · -- Each port has one pipeline, so this was another port's outcome.
        rw [hreg, if_neg fun he => hother t hmem (hid.trans he)] at hb
        exact h.of_get? hb ⟨t, hlive ▸ List.mem_cons_of_mem _ hmem, hid⟩
    | restart r =>
      rintro b - ⟨t, hmem, -⟩
      cases hmem
    | reboot r =>
      rintro b - ⟨t, hmem, -⟩
      cases hmem
    | _ => cases hw
  · rintro b hb ⟨t, hmem, hid⟩
    rw [(daemon_step s hw).1] at hb
    rcases id_of_mem_live_step hmem with ⟨u, hu, hut⟩ | ⟨-, a, ha, hat, hrole⟩
    · exact h b hb ⟨u, hu, hut.trans hid⟩
    · rw [← Registry.eq_of_mem_all ha (Keyed.mem_values.mp hb) (hat.trans hid)]
      exact hrole

end Appliance

end Wifucked
