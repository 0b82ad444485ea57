import Wifucked.Ports.Serving

/-!
# LAN-out roles that last

Where a LAN-out role comes from and goes to at every step, and that the host
has what each of them stands for.
-/

namespace Wifucked

variable {K : Type}

open LinuxDhcp

namespace Appliance

variable {s : Appliance K}

def IsLanOut (s : Appliance K) (id : String) : Prop :=
  ∃ a, s.daemon.registry.get? id = some a ∧ a.role = .lanOut

/-- The state file has no LAN-out port that the registry does not have. -/
def Filed (s : Appliance K) : Prop :=
  ∀ f, s.daemon.file = some f → f.atomics.All fun e => e.role = .lanOut → s.IsLanOut e.id

def Known (s : Appliance K) : Prop :=
  s.daemon.registry.All fun a => s.Depends a.id → ∀ n, a.iface = some n → s.ifname a.id = some n

/-- All that `start_server` is to bring about is there. -/
def Holds (s : Appliance K) (ifname id : String) : Prop :=
  (Stage.ended (.served true)).Prepared s.host s.served ifname (s.gateway id)

/-- The host has what the registry and the threads say. -/
structure Kept (s : Appliance K) : Prop where
  tracks : s.Tracks
  waits : s.Waits
  distinct : s.Distinct
  filed : s.Filed
  known : s.Known
  threads : ∀ t ∈ s.live, t.stage.Begun → s.ifname t.id = some t.ifname ∧
    t.stage.Prepared s.host s.served t.ifname (s.gateway t.id)
  lanOut : ∀ id, s.IsLanOut id → ∃ n, s.ifname id = some n ∧ s.Holds n id

theorem IsLanOut.depends {id : String} (h : s.IsLanOut id) : s.Depends id := .inr h

theorem Waits.not_lanOut (h : s.Waits) {t : Thread K} (ht : t ∈ s.live) : ¬ s.IsLanOut t.id := by
  rintro ⟨a, ha, hrole⟩
  have hwan := h.of_get? ha ⟨t, ht, (Keyed.key_of_get? ha).symm⟩
  rw [hrole] at hwan
  cases hwan

variable [Field K] [LinearOrder K] [FloorRing K] [HalfPow K]

-- ---------------------------------------------------------------------------
-- Roles
-- ---------------------------------------------------------------------------

theorem lanOut_step (ht : s.Tracks) (hw : s.Waits) {e : Happening K} {id : String}
    (h : s.IsLanOut id) (hr : ∀ r, e ≠ .restart r) (hb : ∀ r, e ≠ .reboot r) :
    (s.step e).IsLanOut id := by
  obtain ⟨a, ha, hrole⟩ := h
  by_cases hwrites : e.Writes
  · cases e with
    | act e =>
      simp only [step]
      split
      · rename_i hm
        obtain ⟨b, hb, hsame⟩ := Daemon.role_step s.daemon (not_classifies_of_may hm) ha
        exact ⟨b, hb, hsame.trans hrole⟩
      · exact ⟨a, ha, hrole⟩
    | apply r =>
      rcases apply_inv ht r with ⟨-, hreg⟩ | ⟨o, u, hu, -, -, -, hreg⟩
      · exact ⟨a, by rw [hreg]; exact ha, hrole⟩
      · have hne : id ≠ u.id := by
          rintro rfl
          exact hw.not_lanOut hu ⟨a, ha, hrole⟩
        exact ⟨a, by rw [hreg, if_neg hne]; exact ha, hrole⟩
    | restart r => exact absurd rfl (hr r)
    | reboot r => exact absurd rfl (hb r)
    | _ => cases hwrites
  · exact ⟨a, by rw [(daemon_step s hwrites).1]; exact ha, hrole⟩

omit [FloorRing K] [HalfPow K] in
theorem lanOut_init {config : Config K} {file : Option (StateFile K)} {r : Reading K}
    {id : String} (h : (init config file r).IsLanOut id) :
    ∃ f, file = some f ∧ ∃ e ∈ f.atomics.values, e.id = id ∧ e.role = .lanOut := by
  obtain ⟨a, ha, hrole⟩ := h
  simp only [init, Daemon.init] at ha
  cases hf : (if config.persist then file else none) with
  | none =>
    rw [hf] at ha
    cases ha
  | some f =>
    rw [hf] at ha
    obtain ⟨e, he, rfl⟩ := Option.map_eq_some_iff.mp
      ((Keyed.get?_map f.atomics _ (Registry.restore_id _ _) id).symm.trans ha)
    split at hf
    · exact ⟨f, hf, e, (Keyed.get?_eq_some.mp he).1, (Keyed.get?_eq_some.mp he).2, hrole⟩
    · cases hf

omit [FloorRing K] [HalfPow K] in
theorem lanOut_restart {r : Reading K} {id : String} (h : (s.restart r).IsLanOut id) :
    ∃ f, s.daemon.file = some f ∧ ∃ e ∈ f.atomics.values, e.id = id ∧ e.role = .lanOut :=
  lanOut_init (r := r) h

/-- Where the role of a server comes from. -/
theorem lanOut_inv (ht : s.Tracks) (hfiled : s.Filed) {e : Happening K} (he : s.Lasting e)
    {id : String} (h : (s.step e).IsLanOut id) :
    (s.IsLanOut id ∧ ∀ r, e ≠ .reboot r) ∨
      ∃ r u, e = .apply r ∧ u ∈ s.live ∧ u.id = id ∧ u.stage = .ended (.served true) := by
  by_cases hwrites : e.Writes
  · cases e with
    | act e =>
      refine .inl ⟨?_, fun _ h => by cases h⟩
      obtain ⟨b, hb, hrole⟩ := h
      simp only [step] at hb
      split at hb
      · rename_i hm
        obtain ⟨seen, hact, hseen⟩ := Daemon.seen_step s.daemon (not_classifies_of_may hm) hb
        cases hk : s.daemon.registry.get? id with
        | none =>
          obtain ⟨f, hf, -, hf'⟩ := hseen.unknown hk
          rw [hf', (he seen (hact f hf) f hf).1] at hrole
          cases hrole
        | some a => exact ⟨a, hk, (hseen.known a hk).symm.trans hrole⟩
      · exact ⟨b, hb, hrole⟩
    | apply r =>
      obtain ⟨b, hb, hrole⟩ := h
      rcases apply_inv ht r with ⟨-, hreg⟩ | ⟨o, u, hu, hou, -, -, hreg⟩
      · rw [hreg] at hb
        exact .inl ⟨⟨b, hb, hrole⟩, fun _ h => by cases h⟩
      · rw [hreg] at hb
        split at hb
        · rename_i heq
          obtain ⟨a, -, rfl⟩ := Option.map_eq_some_iff.mp hb
          exact .inr ⟨r, u, rfl, hu, heq.symm, hou.role.mp hrole⟩
        · exact .inl ⟨⟨b, hb, hrole⟩, fun _ h => by cases h⟩
    | restart r =>
      obtain ⟨f, hf, e, he, rfl, hrole⟩ := lanOut_restart h
      exact .inl ⟨hfiled f hf e he hrole, fun _ h => by cases h⟩
    | reboot r =>
      obtain ⟨f, hf, e, hmem, rfl, hrole⟩ := lanOut_restart h
      exact absurd hrole (he f hf e hmem)
    | _ => cases hwrites
  · obtain ⟨b, hb, hrole⟩ := h
    rw [(daemon_step s hwrites).1] at hb
    refine .inl ⟨⟨b, hb, hrole⟩, ?_⟩
    rintro r rfl
    exact hwrites trivial

omit [FloorRing K] [HalfPow K] in
theorem filed_init {config : Config K} {file : Option (StateFile K)} {r : Reading K}
    (hs : s.daemon = .init config file r) : s.Filed := by
  intro f hf e he hrole
  rw [IsLanOut, hs]
  have hf : (if config.persist then file else none) = some f := by rw [hs] at hf; exact hf
  have hload : (Daemon.init config file r).registry = Registry.load f r.now r.wall := by
    simp only [Daemon.init, hf]
    rfl
  rw [hload]
  exact ⟨_, (Keyed.get?_map f.atomics _ (Registry.restore_id _ _) e.id).trans
    (congrArg (Option.map _) (Keyed.mem_values.mp he)), hrole⟩

theorem filed_written (ht : s.Tracks) (hw : s.Waits) (h : s.Filed) {e : Happening K}
    (hr : ∀ r, e ≠ .restart r) (hb : ∀ r, e ≠ .reboot r)
    (hf : ∀ f, (s.step e).daemon.file = some f → s.daemon.file = some f ∨
      ∃ now wall, f = (s.step e).daemon.registry.persist now wall) : (s.step e).Filed := by
  intro f hfile
  rcases hf f hfile with hf | ⟨now, wall, rfl⟩
  · exact fun e' he' hrole => lanOut_step ht hw (h f hf e' he' hrole) hr hb
  · exact Keyed.all_map (Q := fun a => a.role = .lanOut → (s.step e).IsLanOut a.id)
      (Keyed.all_filter fun a ha hrole => ⟨a, Keyed.mem_values.mp ha, hrole⟩)
      (Registry.store_id _) fun _ ha => ha

theorem filed_step (ht : s.Tracks) (hw : s.Waits) (h : s.Filed) (e : Happening K) :
    (s.step e).Filed := by
  by_cases hwrites : e.Writes
  · cases e with
    | act e =>
      refine filed_written ht hw h (fun _ h => by cases h) (fun _ h => by cases h) fun f hf => ?_
      simp only [step] at hf ⊢
      split at hf
      · rename_i hm
        rw [if_pos hm]
        exact (Daemon.file_step hf).imp_right fun hf => ⟨_, _, hf⟩
      · exact .inl hf
    | apply r =>
      refine filed_written ht hw h (fun _ h => by cases h) (fun _ h => by cases h) fun f hf => ?_
      exact (Daemon.file_step (d := s.daemon) (e := ⟨r, .applyOutcome⟩) hf).imp_right
        fun hf => ⟨_, _, hf⟩
    | restart r => exact filed_init rfl
    | reboot r => exact filed_init rfl
    | _ => cases hwrites
  · refine filed_written ht hw h ?_ ?_ fun f hf => .inl ((daemon_step s hwrites).2 ▸ hf)
    · rintro r rfl
      exact hwrites trivial
    · rintro r rfl
      exact hwrites trivial

theorem depends_inv (ht : s.Tracks) (hfiled : s.Filed) {e : Happening K} (he : s.Lasting e)
    {id : String} (h : (s.step e).Depends id) :
    s.Depends id ∧ (∀ r, e ≠ .reboot r) ∨ ∃ k answer u, e = .call k answer ∧
      s.threads[k]? = some u ∧ u.stage = .writing ∧ u.id = id := by
  rcases h with ⟨t, hmem, rfl, hbegun⟩ | h
  · have hreboot : ∀ r, e ≠ .reboot r := by
      rintro r rfl
      cases hmem
    rcases mem_live_step hmem with hlive | ⟨c, a, rfl, -, -, -, -, hat⟩ |
      ⟨k, answer, u, host, rfl, hk, hcall⟩
    · exact .inl ⟨.inl ⟨t, hlive, rfl, hbegun⟩, hreboot⟩
    · rw [(Thread.of_start? hat).2.1] at hbegun
      exact hbegun.elim
    · have hid : u.id = t.id := (congrArg Atomic.id hcall.atomic).symm
      rcases hcall.begun hbegun with hbegun | hs
      · exact .inl ⟨.inl ⟨u, mem_live hk, hid, hbegun⟩,
          hreboot⟩
      · exact .inr ⟨k, answer, u, rfl, hk, hs, hid⟩
  · rcases lanOut_inv ht hfiled he h with ⟨h, hreboot⟩ | ⟨r, u, rfl, hu, rfl, hstage⟩
    · exact .inl ⟨.inr h, hreboot⟩
    · exact .inl ⟨.inl ⟨u, hu, rfl, by rw [hstage]; trivial⟩, nofun⟩

-- ---------------------------------------------------------------------------
-- Interfaces
-- ---------------------------------------------------------------------------

theorem known_act (h : s.Known) {e : Event K} (he : s.Lasting (.act e))
    (hc : e.classifies = false) {b : Atomic K} (hb : (s.daemon.step e).registry.get? b.id = some b)
    (hd : s.Depends b.id) (hn : b.iface = some n) : s.ifname b.id = some n := by
  obtain ⟨seen, hact, hseen⟩ := Daemon.seen_step s.daemon hc hb
  rcases hseen.iface with hnone | ⟨f, hf, hid, hsame⟩ | ⟨a, ha, hsame⟩
  · rw [Atomic.iface, hnone] at hn
    cases hn
  · rw [Atomic.iface, hsame] at hn
    exact hid ▸ (he seen (hact f hf) f hf).2 (hid.symm ▸ hd) n hn
  · have hid := Keyed.key_of_get? ha
    rw [Atomic.iface, hsame] at hn
    exact hid ▸ h.of_get? ha (hid.symm ▸ hd) n hn

theorem known_step (h : s.Kept) {e : Happening K} (he : s.Lasting e) : (s.step e).Known := by
  intro b hb hdep n hn
  have hb := Keyed.mem_values.mp hb
  rcases depends_inv h.tracks h.filed he hdep with ⟨hd, hr⟩ | ⟨k, answer, u, rfl, hk, hs, hid⟩
  · refine ifname_step hd he hr ?_
    by_cases hw : e.Writes
    · cases e with
      | act e =>
        simp only [step] at hb
        split at hb
        · rename_i hm
          exact known_act h.known he (not_classifies_of_may hm) hb hd hn
        · exact h.known.of_get? hb hd n hn
      | apply r =>
        rcases apply_inv h.tracks r with ⟨-, hreg⟩ | ⟨o, u, -, -, -, -, hreg⟩
        · rw [hreg] at hb
          exact h.known.of_get? hb hd n hn
        · rw [hreg] at hb
          split at hb
          · obtain ⟨a, ha, hab⟩ := Option.map_eq_some_iff.mp hb
            subst hab
            exact h.known.of_get? ha hd n hn
          · exact h.known.of_get? hb hd n hn
      | restart r =>
        have hnone := (iface_restart s r).of_get? hb
        rw [hnone] at hn
        cases hn
      | reboot r => exact absurd rfl (hr r)
      | _ => cases hw
    · rw [(daemon_step s hw).1] at hb
      exact h.known.of_get? hb hd n hn
  · have hw : ¬ (Happening.call k answer : Happening K).Writes := fun hw => hw
    have hp : ¬ (Happening.call k answer : Happening K).Plugs := fun hp => hp
    rw [(daemon_step s hw).1] at hb
    rw [ifname, plugged_step s hp]
    obtain ⟨hname, hiface, -⟩ := (he u hk).2 hs
    rw [hiface b n (hid ▸ hb) hn, ← hid]
    exact hname

-- ---------------------------------------------------------------------------
-- What is on the host
-- ---------------------------------------------------------------------------

/-- What the calls of a pipeline have brought about is there until its next. -/
theorem prepared_step (h : s.Kept) {e : Happening K} (he : s.Lasting e) {t : Thread K}
    (ht : t ∈ (s.step e).live) (hb : t.stage.Begun) :
    (s.step e).ifname t.id = some t.ifname ∧
      t.stage.Prepared (s.step e).host (s.step e).served t.ifname ((s.step e).gateway t.id) := by
  have hreboot : ∀ r, e ≠ .reboot r := by
    rintro r rfl
    cases ht
  have hlive : t ∈ s.live →
      (∀ k answer u, e = .call k answer → s.threads[k]? = some u → u.id ≠ t.id) →
      (s.step e).ifname t.id = some t.ifname ∧
        t.stage.Prepared (s.step e).host (s.step e).served t.ifname ((s.step e).gateway t.id) := by
    intro ht hu
    obtain ⟨hname, hprepared⟩ := h.threads t ht hb
    have hretains := retains_step h.distinct (.inl ⟨t, ht, rfl, hb⟩) he hreboot hu
    exact ⟨hretains.ifname hname, hretains.prepared hname hprepared⟩
  by_cases hcall : ∃ k answer, e = .call k answer
  · obtain ⟨k, answer, rfl⟩ := hcall
    rcases call_inv s k answer with hs | ⟨u, host, u', hk, hc, hs⟩
    · simp only [step, hs] at ht ⊢
      exact h.threads t ht hb
    · have hid : u'.id = u.id := congrArg Atomic.id hc.atomic
      by_cases hut : u.id = t.id
      · -- The thread is the one that made the call.
        have hu' : u' ∈ (s.step (.call k answer)).live := by
          simp only [step, hs]
          exact mem_live_set hk u'
        obtain rfl : t = u' := List.inj_on_of_nodup_map
          (tracks_step h.tracks (.call k answer)).nodup ht hu' (hut.symm.trans hid.symm)
        obtain ⟨hname, hprepared⟩ : s.ifname u.id = some u.ifname ∧
            u.stage.Prepared s.host s.served u.ifname (s.gateway u.id) := by
          rcases hc.begun hb with hb | hw
          · exact h.threads u (mem_live hk) hb
          · rw [hw]
            exact ⟨((he u hk).2 hw).1, trivial⟩
        simp only [step, hs]
        rw [hid, hc.ifname]
        exact ⟨hname, hc.prepared hprepared (he u hk).1⟩
      · have hold : t ∈ s.live := by
          simp only [step, hs] at ht
          rcases List.mem_append.mp ht with ht | ht
          · exact List.mem_append_left _ ht
          · rcases List.mem_or_eq_of_mem_set ht with ht | rfl
            · exact List.mem_append_right _ ht
            · exact absurd hid.symm hut
        refine hlive hold fun k' answer' v hcall hv => ?_
        cases hcall
        rw [hk] at hv
        cases hv
        exact hut
  · rcases mem_live_step ht with ht | ⟨c, a, rfl, -, -, -, -, hat⟩ |
      ⟨k, answer, v, host, he', -⟩
    · exact hlive ht fun k answer u he' => absurd ⟨k, answer, he'⟩ hcall
    · rw [(Thread.of_start? hat).2.1] at hb
      exact hb.elim
    · exact absurd ⟨k, answer, he'⟩ hcall

/-- What a LAN-out role stands for stays, and is there when the role is given. -/
theorem holds_step (h : s.Kept) {e : Happening K} (he : s.Lasting e) {id : String}
    (hl : (s.step e).IsLanOut id) :
    ∃ n, (s.step e).ifname id = some n ∧ (s.step e).Holds n id := by
  rcases lanOut_inv h.tracks h.filed he hl with ⟨hl, hr⟩ | ⟨r, u, rfl, hu, rfl, hstage⟩
  · obtain ⟨n, hn, hholds⟩ := h.lanOut id hl
    have hretains := retains_step h.distinct hl.depends he hr fun k answer u _ hk hid =>
      h.waits.not_lanOut (mem_live hk) (hid.symm ▸ hl)
    exact ⟨n, hretains.ifname hn, hretains.prepared hn hholds⟩
  · have hb : u.stage.Begun := by rw [hstage]; trivial
    obtain ⟨hname, hprepared⟩ := h.threads u hu hb
    have hretains := retains_step h.distinct (.inl ⟨u, hu, rfl, hb⟩) he nofun
      fun _ _ _ he => by cases he
    rw [hstage] at hprepared
    exact ⟨u.ifname, hretains.ifname hname, hretains.prepared hname hprepared⟩

omit [Field K] [LinearOrder K] [FloorRing K] [HalfPow K] in
theorem swept_of_lasting {e : Happening K} (he : s.Lasting e) : e.Swept := by
  cases e with
  | act e => exact fun seen h a ha => (he seen h a ha).1
  | _ => trivial

theorem kept_step (h : s.Kept) {e : Happening K} (he : s.Lasting e) : (s.step e).Kept where
  tracks := tracks_step h.tracks e
  waits := waits_step h.tracks h.waits (swept_of_lasting he)
  distinct := distinct_step h.distinct e
  filed := filed_step h.tracks h.waits h.filed e
  known := known_step h he
  threads _ ht hb := prepared_step h he ht hb
  lanOut _ hl := holds_step h he hl

omit [FloorRing K] [HalfPow K] in
theorem kept_init (config : Config K) {file : Option (StateFile K)}
    (hf : ∀ f, file = some f → f.atomics.All fun a => a.role ≠ .lanOut) (r : Reading K) :
    (init config file r).Kept := by
  refine ⟨tracks_init config file r, ?_, ?_, filed_init rfl, ?_, ?_, ?_⟩
  · rintro a - ⟨t, ht, -⟩
    cases ht
  · exact fun i j n hi => by cases hi
  · intro a ha _ n hn
    rw [iface_init config file r a ha] at hn
    cases hn
  · exact fun t ht => by cases ht
  · intro id hl
    obtain ⟨f, hfile, e, he, -, hrole⟩ := lanOut_init hl
    exact absurd hrole (hf f hfile e he)

omit [Field K] [LinearOrder K] [FloorRing K] [HalfPow K] in
theorem Kept.serves (h : s.Kept) : s.LanOutServes := by
  intro a ha ifname _ hrole hiface _
  have ha := Registry.mem_all.mp ha
  have hl : s.IsLanOut a.id := ⟨a, ha, hrole⟩
  obtain ⟨n, hn, -, haddressed, hloaded, hserved⟩ := h.lanOut a.id hl
  have hifname := h.known.of_get? ha hl.depends ifname hiface
  rw [hn] at hifname
  obtain rfl := Option.some.inj hifname
  exact ⟨hserved, haddressed, hloaded⟩

/-- However replugs, renames, restarts and reboots fall between the calls. -/
theorem lanOutServes_run (config : Config K) {file : Option (StateFile K)}
    (hf : ∀ f, file = some f → f.atomics.All fun a => a.role ≠ .lanOut) (r : Reading K)
    {es : List (Happening K)} (hes : Runs.Along step Lasting (init config file r) es) :
    Runs.Along step (fun s e => (s.step e).LanOutServes) (init config file r) es :=
  Runs.along_of (fun _ _ h he => ⟨kept_step h he, (kept_step h he).serves⟩)
    (kept_init config hf r) hes

omit [Field K] [LinearOrder K] [FloorRing K] [HalfPow K] in
theorem lasting_call {k : ℕ} {answer : Answer}
    (hs : (s.threads[k]?).map (·.stage) ≠ some .writing)
    (he : ∀ t, s.threads[k]? = some t → t.TakesEffect s.host (s.gateway t.id) answer) :
    s.Lasting (.call k answer) := by
  intro t ht
  refine ⟨he t ht, fun hw => absurd ?_ hs⟩
  rw [ht, ← hw]
  rfl

theorem dockPlugged_lasting :
    Runs.Along step Lasting (init hotspot none ⟨0, 0⟩) (dockPlugged ++ serverStarts) := by
  refine ⟨trivial, ?_, trivial, lasting_call ?_ fun _ _ => trivial,
    lasting_call ?_ fun _ _ => trivial, ?_, lasting_call ?_ fun _ _ _ _ => .inl rfl,
    lasting_call ?_ fun _ _ _ _ => rfl, trivial, trivial, trivial⟩
  · rintro _ ⟨⟩ a ha
    obtain rfl := List.mem_singleton.mp ha
    refine ⟨rfl, ?_⟩
    rintro - n ⟨⟩
    decide +kernel
  · decide +kernel
  · decide +kernel
  · intro t ht
    have hthread : ((Runs.exec step (init hotspot none ⟨0, 0⟩) (dockPlugged ++
        serverStarts.take 1)).threads[0]?).map (fun t => (t.id, t.ifname)) =
        some ("usb:dock", "eth1") := by decide +kernel
    have hplugged : (Runs.exec step (init hotspot none ⟨0, 0⟩) (dockPlugged ++
        serverStarts.take 1)).plugged.values = [⟨"usb:dock", "eth1", 0⟩] := by decide +kernel
    have hiface : ((Runs.exec step (init hotspot none ⟨0, 0⟩) (dockPlugged ++
        serverStarts.take 1)).daemon.registry.get? "usb:dock").map (·.iface) =
        some (some "eth1") := by decide +kernel
    obtain ⟨hid, hifname⟩ := Prod.mk.inj (Option.some.inj
      ((congrArg (Option.map fun t => (t.id, t.ifname)) ht).symm.trans hthread))
    rw [hid, hifname]
    refine ⟨trivial, fun _ => ⟨by decide +kernel, fun a n ha hn => ?_, fun p hp _ _ => ?_⟩⟩
    · have ha := (congrArg (Option.map (·.iface)) ha).symm.trans hiface
      rw [Option.map_some, Option.some.injEq, hn, Option.some.injEq] at ha
      exact ha
    · have hp : p ∈ [⟨"usb:dock", "eth1", 0⟩] := hplugged ▸ hp
      rw [List.mem_singleton.mp hp]
  · decide +kernel
  · decide +kernel

theorem lanOutServes_dockPlugged :
    Runs.Along step (fun s e => (s.step e).LanOutServes) (init hotspot none ⟨0, 0⟩)
      (dockPlugged ++ serverStarts) :=
  lanOutServes_run hotspot (fun f hf => by cases hf) ⟨0, 0⟩ dockPlugged_lasting

def rebooted : List (Happening ℚ) :=
  [.reboot ⟨0, 0⟩, .plug "usb:dock" "eth1", .act ⟨⟨5, 5⟩, .discover [dock true]⟩]

/-- The adapter is LAN-out from the state file, and has no address. -/
theorem unserved_after_reboot :
    ¬ Runs.Along step (fun s e => (s.step e).LanOutServes) (init hotspot none ⟨0, 0⟩)
      (dockPlugged ++ serverStarts ++ rebooted) := by
  intro h
  obtain ⟨-, -, -, h, -⟩ := Runs.along_append.mp h
  have hport : ∃ a ∈ (Runs.exec step (init hotspot none ⟨0, 0⟩)
      (dockPlugged ++ serverStarts ++ rebooted)).daemon.registry.all,
      a.present = true ∧ a.role = .lanOut ∧ a.iface = some "eth1" := by decide +kernel
  have hthreads : (Runs.exec step (init hotspot none ⟨0, 0⟩)
      (dockPlugged ++ serverStarts ++ rebooted)).threads.map (·.id) = [] := by decide +kernel
  have hserved : (Runs.exec step (init hotspot none ⟨0, 0⟩)
      (dockPlugged ++ serverStarts ++ rebooted)).served = [] := by decide +kernel
  obtain ⟨a, ha, hpresent, hrole, hiface⟩ := hport
  have hserves := h a ha "eth1" hpresent hrole hiface fun t ht => by
    have ht := List.mem_map_of_mem (f := (·.id)) ht
    exact absurd (hthreads ▸ ht) List.not_mem_nil
  exact absurd (hserved ▸ hserves.started) List.not_mem_nil

end Appliance

end Wifucked
