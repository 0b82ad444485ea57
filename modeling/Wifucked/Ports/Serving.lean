import Wifucked.Ports.Roles

/-!
# A LAN-out port really serves

What makes a port serve is on the host, and goes with its interface; the role
stays. Where no port that depends on it loses its interface, and what is
started takes effect, the host has what the role says.
-/

namespace Wifucked

variable {K : Type}

-- ---------------------------------------------------------------------------
-- What a server leaves on the host
-- ---------------------------------------------------------------------------

namespace LinuxDhcp.Host

variable {h : Host} {ifname gateway n g : String}

def Configured (h : Host) (ifname gateway : String) : Prop :=
  h.dropins.get? (dropinPath ifname) = some (dropinPath ifname, conf ifname gateway)

def Addressed (h : Host) (ifname gateway : String) : Prop :=
  ∃ a ∈ h.addrs, a.ifname = ifname ∧ a.localAddr = gateway

def Loaded (h : Host) (ifname gateway : String) : Prop :=
  (dropinPath ifname, conf ifname gateway) ∈ h.loaded

/-- What it takes to serve an interface is left as it is. -/
structure Keeps (h h' : Host) (n g : String) : Prop where
  configured : h.Configured n g → h'.Configured n g
  addressed : h.Addressed n g → h'.Addressed n g
  loaded : h.Configured n g → h.Loaded n g → h'.Loaded n g

theorem Keeps.refl (h : Host) (n g : String) : h.Keeps h n g :=
  ⟨fun hc => hc, fun ha => ha, fun _ hl => hl⟩

theorem keeps_solicit (h : Host) (ifname : String) (ends : LeaseEnds) :
    h.Keeps (h.solicit ifname ends) n g := by
  unfold solicit
  split
  · refine ⟨fun hc => hc, ?_, fun _ hl => hl⟩
    rintro ⟨a, ha, hsame⟩
    exact ⟨a, List.mem_append_left _ ha, hsame⟩
  · exact .refl ..

theorem keeps_writeDropin (hpath : dropinPath n ≠ dropinPath ifname) (ends : WriteEnd) :
    h.Keeps (h.writeDropin ifname gateway ends) n g := by
  have hput : ∀ written : String, h.Keeps
      { h with dropins := h.dropins.put (dropinPath ifname, written) } n g := fun written =>
    ⟨fun hc => (Keyed.get?_put ..).trans ((if_neg (Ne.symm hpath)).trans hc), fun ha => ha,
      fun _ hl => hl⟩
  cases ends with
  | ok => exact hput _
  | failed written =>
    cases written with
    | none => exact .refl ..
    | some written => exact hput _

theorem keeps_addAddress (h : Host) (ifname gateway : String) (ends : Applied) :
    h.Keeps (h.addAddress ifname gateway ends) n g := by
  unfold addAddress
  split
  · refine ⟨fun hc => hc, ?_, fun _ hl => hl⟩
    rintro ⟨a, ha, hsame⟩
    exact ⟨a, List.mem_append_left _ ha, hsame⟩
  · exact .refl ..

theorem keeps_reload (h : Host) (applied : Bool) : h.Keeps (h.reload applied) n g := by
  unfold reload
  split
  · exact ⟨fun hc => hc, fun ha => ha, fun hc _ => (Keyed.get?_eq_some.mp hc).1⟩
  · exact .refl ..

theorem keeps_unplug (h : Host) (hn : n ≠ ifname) : h.Keeps (h.unplug ifname) n g := by
  refine ⟨fun hc => hc, ?_, fun _ hl => hl⟩
  rintro ⟨a, ha, rfl, hg⟩
  exact ⟨a, List.mem_filter.mpr ⟨ha, by simpa using hn⟩, rfl, hg⟩

theorem keeps_rename (h : Host) (hn : n ≠ ifname) (new : String) :
    h.Keeps (h.rename ifname new) n g := by
  refine ⟨fun hc => hc, ?_, fun _ hl => hl⟩
  rintro ⟨a, ha, rfl, hg⟩
  exact ⟨a, List.mem_map.mpr ⟨a, ha, if_neg hn⟩, rfl, hg⟩

theorem addressed_of_applied {ends : Applied}
    (ha : ends.applied = true ∨ h.Addressed ifname gateway) :
    (h.addAddress ifname gateway ends).Addressed ifname gateway := by
  rcases ha with ha | ha
  · unfold addAddress
    split
    · exact ⟨_, List.mem_append_right _ (List.mem_singleton_self _), rfl, rfl⟩
    · rename_i hthere
      simp only [ha, Bool.true_and, Bool.not_eq_true', Bool.not_eq_false, List.any_eq_true,
        Bool.and_eq_true, decide_eq_true_eq] at hthere
      exact hthere
  · exact (keeps_addAddress h ifname gateway ends).addressed ha

end LinuxDhcp.Host

open LinuxDhcp

/-- What the calls of `start_server` so far have brought about. -/
def Stage.Prepared (h : Host) (served : List String) (ifname gateway : String) : Stage → Prop
  | .addressing => h.Configured ifname gateway
  | .reloading => h.Configured ifname gateway ∧ h.Addressed ifname gateway
  | .ended (.served true) =>
    h.Configured ifname gateway ∧ h.Addressed ifname gateway ∧ h.Loaded ifname gateway ∧
      ifname ∈ served
  | _ => True

/-- The calls of `start_server` have begun, and none of them failed. -/
def Stage.Begun : Stage → Prop
  | .addressing | .reloading | .ended (.served true) => True
  | _ => False

theorem Thread.Called.begun {t t' : Thread K} (hc : t.Called gateway period h answer h' t')
    (hb : t'.stage.Begun) : t.stage.Begun ∨ t.stage = .writing := by
  cases hc with
  | idle => exact .inl hb
  | @lease ends hs =>
    revert hb
    rcases h.attemptClientLease t.ifname ends with error | _ | lease <;> exact fun hb => hb.elim
  | @listen ends hs =>
    revert hb
    rcases passiveListenForForeignServer ends with error | _ | _ <;> exact fun hb => hb.elim
  | write hs => exact .inr hs
  | add hs =>
    rw [hs]
    exact .inl trivial
  | reload hs =>
    rw [hs]
    exact .inl trivial

/-- An address or a reload that is reported is there. -/
def Thread.TakesEffect (h : Host) (gateway : String) (t : Thread K) : Answer → Prop
  | .add ends => t.stage = .addressing → ends.raised = false →
      ends.applied = true ∨ h.Addressed t.ifname gateway
  | .reload ends => t.stage = .reloading → (∃ output, ends.command.run = .ok (some output)) →
      ends.applied = true
  | _ => True

theorem Thread.Called.prepared {t t' : Thread K} {h : Host} {served : List String}
    (hp : t.stage.Prepared h served t.ifname gateway) (he : t.TakesEffect h gateway answer)
    (hc : t.Called gateway period h answer h' t') :
    t'.stage.Prepared h'
      (if t.stage = .reloading ∧ t'.stage = .ended (.served true) then t.ifname :: served
        else served) t.ifname gateway := by
  cases hc with
  | idle =>
    rw [if_neg fun hs => by rw [hs.1] at hs; cases hs.2]
    exact hp
  | @lease ends hs =>
    rcases h.attemptClientLease t.ifname ends with error | _ | lease <;> trivial
  | @listen ends hs =>
    rcases passiveListenForForeignServer ends with error | _ | _ <;> trivial
  | @write ends hs =>
    cases ends with
    | ok =>
      exact Keyed.get?_put_self ..
    | failed written => trivial
  | @add ends hs =>
    have hconfigured : h.Configured t.ifname gateway := by rwa [hs] at hp
    simp only [added]
    split
    · trivial
    · rename_i hr
      exact ⟨(Host.keeps_addAddress h t.ifname gateway ends).configured hconfigured,
        Host.addressed_of_applied (he hs (Bool.eq_false_iff.mpr hr))⟩
  | @reload ends hs =>
    obtain ⟨hconfigured, haddressed⟩ : h.Configured t.ifname gateway ∧
        h.Addressed t.ifname gateway := by rwa [hs] at hp
    cases hrun : ends.command.run with
    | error error => simp [reloaded, hrun, Stage.Prepared]
    | ok output =>
      cases output with
      | none => simp [reloaded, hrun, Stage.Prepared]
      | some output =>
        have happlied := he hs ⟨output, hrun⟩
        have hstage : reloaded ends = .ended (.served true) := by simp [reloaded, hrun]
        rw [hstage, if_pos ⟨hs, rfl⟩, happlied]
        exact ⟨hconfigured, haddressed, (Keyed.get?_eq_some.mp hconfigured).1,
          List.mem_cons_self⟩

theorem Thread.Called.keeps {t t' : Thread K} (hc : t.Called gateway period h answer h' t')
    (hpath : t.stage = .writing → dropinPath n ≠ dropinPath t.ifname) (g : String) :
    h.Keeps h' n g := by
  cases hc with
  | idle => exact .refl ..
  | @lease ends hs => exact Host.keeps_solicit h t.ifname ends
  | listen hs => exact .refl ..
  | @write ends hs => exact Host.keeps_writeDropin (hpath hs) ends
  | @add ends hs => exact Host.keeps_addAddress h t.ifname gateway ends
  | @reload ends hs => exact Host.keeps_reload h ends.applied

namespace Appliance

variable {s : Appliance K}

/-- A pipeline has begun to start a server on the port, or the port is LAN-out. -/
def Depends (s : Appliance K) (id : String) : Prop :=
  (∃ t ∈ s.live, t.id = id ∧ t.stage.Begun) ∨
    ∃ a, s.daemon.registry.get? id = some a ∧ a.role = .lanOut

/-- `start_server` succeeded for that interface since it appeared: the gateway
address is on it, and `dnsmasq` runs with its drop-in. -/
structure Serves (s : Appliance K) (ifname id : String) : Prop where
  started : ifname ∈ s.served
  addressed : s.host.Addressed ifname (s.gateway id)
  loaded : s.host.Loaded ifname (s.gateway id)

def LanOutServes (s : Appliance K) : Prop :=
  ∀ a ∈ s.daemon.registry.all, ∀ ifname, a.present = true → a.role = .lanOut →
    a.iface = some ifname → (∀ t ∈ s.threads, t.id ≠ a.id) → s.Serves ifname a.id

/-- A drop-in is written for the interface that its port has, and is not
another port's. What the start of a server reports took effect. From then on
the port keeps its interface, and sweeps see it by that; the device is not
rebooted with a LAN-out port. -/
def Lasting (s : Appliance K) (e : Happening K) : Prop :=
  match e with
  | .act e => ∀ seen, e.action = .discover seen → ∀ a ∈ seen, a.role = .wan ∧
      (s.Depends a.id → ∀ ifname, a.iface = some ifname → s.ifname a.id = some ifname)
  | .call k answer => ∀ t, s.threads[k]? = some t →
      t.TakesEffect s.host (s.gateway t.id) answer ∧ (t.stage = .writing →
        s.ifname t.id = some t.ifname ∧
        (∀ a ifname, s.daemon.registry.get? t.id = some a → a.iface = some ifname →
          ifname = t.ifname) ∧
        ∀ p ∈ s.plugged.values, s.Depends p.id → dropinPath p.ifname = dropinPath t.ifname →
          p.ifname = t.ifname)
  | .unplug id | .rename id _ => ¬ s.Depends id
  | .reboot _ => ∀ f, s.daemon.file = some f → f.atomics.All fun a => a.role ≠ .lanOut
  | _ => True

/-- What a port that depends on its interface has, it keeps. -/
structure Retains (s s' : Appliance K) (id : String) : Prop where
  ifname : s.ifname id = some n → s'.ifname id = some n
  gateway : s'.gateway id = s.gateway id
  host : s.ifname id = some n → s.host.Keeps s'.host n (s.gateway id)
  served : s.ifname id = some n → n ∈ s.served → n ∈ s'.served

theorem Retains.prepared {s' : Appliance K} {id : String} {stage : Stage} (h : s.Retains s' id)
    (hn : s.ifname id = some n) (hp : stage.Prepared s.host s.served n (s.gateway id)) :
    stage.Prepared s'.host s'.served n (s'.gateway id) := by
  have hhost := h.host hn
  rw [h.gateway]
  cases stage with
  | addressing => exact hhost.configured hp
  | reloading => exact ⟨hhost.configured hp.1, hhost.addressed hp.2⟩
  | ended verdict =>
    cases verdict with
    | served started =>
      cases started with
      | false => trivial
      | true =>
        obtain ⟨hc, ha, hl, hs⟩ := hp
        exact ⟨hhost.configured hc, hhost.addressed ha, hhost.loaded hc hl, h.served hn hs⟩
    | _ => trivial
  | _ => trivial

-- ---------------------------------------------------------------------------
-- What one step leaves of it
-- ---------------------------------------------------------------------------

def Distinct (s : Appliance K) : Prop :=
  ∀ i j n, s.ifname i = some n → s.ifname j = some n → i = j

theorem ifname_plug (s : Appliance K) (id new j : String) :
    (s.plug id new).ifname j = s.ifname j ∨
      (s.plug id new).ifname j = some new ∧ j = id ∧ ∀ i, s.ifname i ≠ some new := by
  unfold plug
  split
  · exact .inl rfl
  · rename_i hnew
    simp only [ifname, Keyed.get?_put]
    split
    · rename_i hj
      refine .inr ⟨rfl, hj.symm, fun i hi => ?_⟩
      obtain ⟨p, hp, hi⟩ := Option.map_eq_some_iff.mp hi
      exact hnew (.inr ⟨p, (Keyed.get?_eq_some.mp hp).1, hi⟩)
    · exact .inl rfl

theorem ifname_rename (s : Appliance K) (id new j : String) :
    (s.rename id new).ifname j = s.ifname j ∨
      (s.rename id new).ifname j = some new ∧ j = id ∧ ∀ i, s.ifname i ≠ some new := by
  unfold rename
  split
  · exact .inl rfl
  · rename_i p hp
    split
    · exact .inl rfl
    · rename_i hfree
      simp only [ifname]
      rw [Keyed.get?_modify]
      · split
        · rename_i hj
          refine .inr ⟨by rw [hp]; rfl, hj, fun i hi => ?_⟩
          obtain ⟨q, hq, hi⟩ := Option.map_eq_some_iff.mp hi
          exact hfree ⟨q, (Keyed.get?_eq_some.mp hq).1, hi⟩
        · exact .inl rfl
      · exact fun _ => rfl

theorem ifname_unplug {id j : String} (h : (s.unplug id).ifname j = some n) :
    s.ifname j = some n := by
  unfold unplug at h
  split at h
  · exact h
  · simp only [ifname] at h ⊢
    obtain ⟨p, hp, rfl⟩ := Option.map_eq_some_iff.mp h
    rw [Keyed.get?_filter] at hp
    rw [(Option.filter_eq_some_iff.mp hp).1]
    rfl

theorem Distinct.name_ne {i j : String} (h : s.Distinct) (hq : s.plugged.get? j = some q)
    (hne : i ≠ j) (hi : s.ifname i = some n) : n ≠ q.ifname := by
  rintro rfl
  exact hne (h i j _ hi (congrArg (Option.map _) hq))

theorem Distinct.of_fresh {s' : Appliance K} {id new : String} (h : s.Distinct)
    (hs : ∀ j, s'.ifname j = s.ifname j ∨
      s'.ifname j = some new ∧ j = id ∧ ∀ i, s.ifname i ≠ some new) : s'.Distinct := by
  intro i j n hi hj
  rcases hs i with hsi | ⟨hni, rfl, hfresh⟩
  · rcases hs j with hsj | ⟨hnj, -, hfresh⟩
    · exact h i j n (hsi ▸ hi) (hsj ▸ hj)
    · obtain rfl : new = n := Option.some.inj (hnj.symm.trans hj)
      exact absurd (hsi ▸ hi) (hfresh i)
  · obtain rfl : new = n := Option.some.inj (hni.symm.trans hi)
    rcases hs j with hsj | ⟨-, rfl, -⟩
    · exact absurd (hsj ▸ hj) (hfresh j)
    · rfl

variable [Field K] [LinearOrder K] [FloorRing K] [HalfPow K]

theorem distinct_step (h : s.Distinct) (e : Happening K) : (s.step e).Distinct := by
  by_cases hp : e.Plugs
  · cases e with
    | plug id ifname => exact h.of_fresh (ifname_plug s id ifname)
    | unplug id => exact fun i j n hi hj => h i j n (ifname_unplug hi) (ifname_unplug hj)
    | rename id new => exact h.of_fresh (ifname_rename s id new)
    | reboot r => exact fun i j n hi => by cases hi
    | _ => cases hp
  · unfold Distinct ifname
    rw [plugged_step s hp]
    exact h

theorem gateway_step (s : Appliance K) (e : Happening K) (id : String) :
    (s.step e).gateway id = s.gateway id := by
  rw [gateway, gateway, config_step]

theorem host_step (s : Appliance K) {e : Happening K} (hp : ¬ e.Plugs)
    (hc : ∀ k answer, e ≠ .call k answer) :
    (s.step e).host = s.host ∧ (s.step e).served = s.served := by
  cases e with
  | act e =>
    simp only [step]
    split <;> exact ⟨rfl, rfl⟩
  | submit =>
    simp only [step]
    split
    · exact ⟨(submit_frame s).2.2.2.2.2.2.2.1, (submit_frame s).2.2.2.2.2.2.2.2⟩
    · exact ⟨rfl, rfl⟩
  | harvest done =>
    simp only [step, harvest]
    split
    · split <;> exact ⟨rfl, rfl⟩
    · exact ⟨rfl, rfl⟩
  | call k answer => exact absurd rfl (hc k answer)
  | apply r => exact ⟨rfl, rfl⟩
  | restart r => exact ⟨rfl, rfl⟩
  | _ => exact absurd trivial hp

omit [Field K] [LinearOrder K] [FloorRing K] [HalfPow K] in
theorem retains_call (hn : s.Distinct) {id : String} (hd : s.Depends id) {k : ℕ} {answer : Answer}
    (he : s.Lasting (.call k answer)) (hu : ∀ u, s.threads[k]? = some u → u.id ≠ id) :
    s.Retains (s.call k answer) id := by
  rcases call_inv s k answer with hs | ⟨u, host, u', hk, hc, hs⟩
  · rw [hs]
    exact ⟨fun h => h, rfl, fun _ => .refl .., fun _ h => h⟩
  · rw [hs]
    refine ⟨fun h => h, rfl, fun hi => hc.keeps (fun hw hpath => ?_) _, fun _ h => ?_⟩
    · -- The drop-in would be that of the port itself.
      obtain ⟨p, hp, rfl⟩ := Option.map_eq_some_iff.mp hi
      obtain ⟨hmem, rfl⟩ := Keyed.get?_eq_some.mp hp
      obtain ⟨hname, -, hother⟩ := (he u hk).2 hw
      rw [← hother p hmem hd hpath] at hname
      exact hu u hk (hn _ _ _ hname hi)
    · simp only
      split
      · exact List.mem_cons_of_mem _ h
      · exact h

theorem ifname_step {id : String} (hd : s.Depends id) {e : Happening K} (he : s.Lasting e)
    (hr : ∀ r, e ≠ .reboot r) (h : s.ifname id = some n) : (s.step e).ifname id = some n := by
  by_cases hp : e.Plugs
  · cases e with
    | plug j new =>
      obtain ⟨p, hp, rfl⟩ := Option.map_eq_some_iff.mp h
      exact congrArg (Option.map _) (get?_plug hp)
    | unplug j =>
      have hne : id ≠ j := fun hj => he (hj ▸ hd)
      exact (congrArg (Option.map _) (get?_unplug hne)).trans h
    | rename j new =>
      rcases ifname_rename s j new id with hsame | ⟨-, heq, -⟩
      · exact hsame.trans h
      · exact absurd hd (heq ▸ he)
    | reboot r => exact absurd rfl (hr r)
    | _ => cases hp
  · rw [ifname, plugged_step s hp]
    exact h

/-- Another port's calls, and ports that come and go, leave it what it has. -/
theorem retains_step (hn : s.Distinct) {id : String} (hd : s.Depends id) {e : Happening K}
    (he : s.Lasting e) (hr : ∀ r, e ≠ .reboot r)
    (hu : ∀ k answer u, e = .call k answer → s.threads[k]? = some u → u.id ≠ id) :
    s.Retains (s.step e) id := by
  by_cases hp : e.Plugs
  · cases e with
    | plug j new =>
      have hhost : (s.plug j new).host = s.host ∧ (s.plug j new).served = s.served ∧
          (s.plug j new).gateway id = s.gateway id := by
        unfold plug
        split <;> exact ⟨rfl, rfl, rfl⟩
      refine ⟨ifname_step hd he hr, hhost.2.2, fun _ => ?_, fun _ h => ?_⟩
      · rw [step, hhost.1]
        exact .refl ..
      · rw [step, hhost.2.1]
        exact h
    | unplug j =>
      have hne : id ≠ j := fun h => he (h ▸ hd)
      refine ⟨ifname_step hd he hr, gateway_step s _ id, fun h => ?_, fun h hserved => ?_⟩
      · simp only [step, unplug]
        split
        · exact .refl ..
        · rename_i q hq
          exact Host.keeps_unplug _ (hn.name_ne hq hne h)
      · simp only [step, unplug]
        split
        · exact hserved
        · rename_i q hq
          exact List.mem_filter.mpr ⟨hserved, decide_eq_true (hn.name_ne hq hne h)⟩
    | rename j new =>
      have hne : id ≠ j := fun h => he (h ▸ hd)
      refine ⟨ifname_step hd he hr, gateway_step s _ id, fun h => ?_, fun h hserved => ?_⟩
      · simp only [step, rename]
        split
        · exact .refl ..
        · rename_i q hq
          split
          · exact .refl ..
          · exact Host.keeps_rename _ (hn.name_ne hq hne h) new
      · simp only [step, rename]
        split
        · exact hserved
        · rename_i q hq
          split
          · exact hserved
          · exact List.mem_filter.mpr ⟨hserved, decide_eq_true (hn.name_ne hq hne h)⟩
    | reboot r => exact absurd rfl (hr r)
    | _ => cases hp
  · by_cases hc : ∃ k answer, e = .call k answer
    · obtain ⟨k, answer, rfl⟩ := hc
      exact retains_call hn hd he fun u => hu k answer u rfl
    · obtain ⟨hhost, hserved⟩ := host_step s hp fun k answer h => hc ⟨k, answer, h⟩
      refine ⟨ifname_step hd he hr, gateway_step s e id, fun _ => ?_, fun _ h => hserved ▸ h⟩
      rw [hhost]
      exact .refl ..

end Appliance

end Wifucked
