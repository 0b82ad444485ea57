import Wifucked.Daemon.Standing

/-!
# What the tunnel is bound to

A fast loop moves the tunnel to the primary of the standing allocation, where
that has an interface and the move succeeds. Otherwise the tunnel stays on the
connection it was on, whatever has become of its permission: a mode written
since the last fast loop, or a backup that has left ACTIVE since, goes unseen.
-/

namespace Wifucked

variable {K : Type}

/-- The connection a fast loop puts the tunnel on, or finds it on already. -/
def Daemon.reboundTo (d : Daemon K) (env : TunnelEnv) : Option String :=
  (d.allocation.bind (·.primaryId)).bind fun primary =>
    ((d.registry.get? primary).bind (·.iface)).bind fun _ =>
      if d.tunnel.viaAtomicId = some primary ∨ Tunnel.succeeds env then some primary else none

theorem Daemon.bindTunnel_via (d : Daemon K) (env : TunnelEnv) :
    (d.bindTunnel env d.registry.byId).tunnel.viaAtomicId =
      (d.reboundTo env).or d.tunnel.viaAtomicId := by
  unfold bindTunnel reboundTo
  cases hp : d.allocation.bind (·.primaryId) with
  | none => rfl
  | some primary =>
    simp only [Option.bind_some, Registry.get?_byId]
    cases hg : d.registry.get? primary with
    | none => rfl
    | some atomic =>
      have hid : atomic.id = primary := Keyed.key_of_get? hg
      simp only [Option.bind_some]
      cases atomic.iface with
      | none => rfl
      | some ifname =>
        simp only [Option.bind_some, Tunnel.bindTo_viaAtomicId, hid]
        by_cases hs : Tunnel.succeeds env
        · simp [hs]
        · by_cases hv : d.tunnel.viaAtomicId = some primary <;> simp [hs, hv]

theorem Daemon.bindTunnel_handed (d : Daemon K) (env : TunnelEnv) (byId : Registry K) :
    (d.bindTunnel env byId).handed = d.handed := by
  unfold bindTunnel
  split
  · rfl
  · split <;> rfl

/-- The allocation's primary is this connection, it has an interface, and the
tunnel is on it already or the move succeeds. -/
structure Daemon.StandsOn (d : Daemon K) (env : TunnelEnv) (id : String) : Prop where
  primary : d.allocation.bind (·.primaryId) = some id
  interface : ∃ atomic, d.registry.get? id = some atomic ∧ atomic.iface ≠ none
  stands : d.tunnel.viaAtomicId = some id ∨ Tunnel.succeeds env

theorem Daemon.reboundTo_eq_some {d : Daemon K} {env : TunnelEnv} {id : String} :
    d.reboundTo env = some id ↔ d.StandsOn env id := by
  unfold reboundTo
  constructor
  · intro h
    obtain ⟨primary, hp, h⟩ := Option.bind_eq_some_iff.mp h
    obtain ⟨ifname, hi, h⟩ := Option.bind_eq_some_iff.mp h
    obtain ⟨atomic, hg, hiface⟩ := Option.bind_eq_some_iff.mp hi
    split at h
    · rename_i hs
      cases h
      exact ⟨hp, ⟨atomic, hg, by simp [hiface]⟩, hs⟩
    · cases h
  · rintro ⟨hp, ⟨atomic, hg, hi⟩, hs⟩
    obtain ⟨ifname, hi⟩ := Option.ne_none_iff_exists'.mp hi
    simp [hp, hg, hi, hs]

/-- Only a fast loop and a restart touch the tunnel. -/
theorem Daemon.tunnel_step [Field K] [LinearOrder K] [FloorRing K] [HalfPow K] (d : Daemon K)
    {e : Event K} (hf : ∀ env, e.action ≠ .fast env) (hr : e.action ≠ .restart) :
    (d.step e).tunnel = d.tunnel := by
  have hpersist : ∀ (d : Daemon K) r, (d.persist r).tunnel = d.tunnel := by
    intro d r
    unfold persist
    split <;> rfl
  obtain ⟨r, action⟩ := e
  cases action with
  | fast env => exact absurd rfl (hf env)
  | restart => exact absurd rfl hr
  | discover | measure | decide => rfl
  | consider p =>
    simp only [step, considerPorts]
    split <;> rfl
  | applyOutcome =>
    simp only [step, applyOutcome]
    split
    · rfl
    · unfold setRoleAndMode
      split
      · rfl
      · exact hpersist _ r
  | spend a =>
    simp only [step, spendOn]
    split <;> rfl
  | persist => exact hpersist d r
  | setMode id mode =>
    simp only [step, setMode]
    split
    · rfl
    · exact hpersist _ r

section

variable [Field K] [LinearOrder K]

theorem Daemon.fastLoop_ok {d : Daemon K} (hal : d.allocation = some al)
    (hq : ∀ s ∈ al.shares, s.atomicId ∉ al.quiesced) (env : TunnelEnv) :
    ∃ desired, render al d.registry.byId d.profiles d.tunnel.interface = .ok desired ∧
      d.fastLoop env = bindTunnel { d with handed := some desired } env d.registry.byId := by
  obtain ⟨desired, hr⟩ :
      ∃ desired, render al d.registry.byId d.profiles d.tunnel.interface = .ok desired :=
    render_ok hq
  refine ⟨desired, hr, ?_⟩
  unfold fastLoop
  simp only [hal, hr]

/-- The tunnel follows the primary where it can, and else stays. -/
theorem Daemon.fastLoop_via {d : Daemon K} (hal : d.allocation = some al)
    (hq : ∀ s ∈ al.shares, s.atomicId ∉ al.quiesced) (env : TunnelEnv) :
    (d.fastLoop env).tunnel.viaAtomicId = (d.reboundTo env).or d.tunnel.viaAtomicId := by
  obtain ⟨desired, -, hf⟩ := fastLoop_ok hal hq env
  rw [hf]
  exact bindTunnel_via { d with handed := some desired } env

namespace Logged

def CarrierPermitted (s : Logged K) : Prop :=
  ∀ id, s.daemon.tunnel.viaAtomicId = some id → s.MayCarry id

variable [FloorRing K] [HalfPow K]

def CarriesRightly (s : Logged K) (e : Event K) : Prop :=
  match e.action with
  | .fast _ => s.daemon.allocation ≠ none → (s.step e).CarrierPermitted
  | _ => True

theorem mayCarry_fast (s : Logged K) (r : Reading K) (env : TunnelEnv) (id : String) :
    (s.step ⟨r, .fast env⟩).MayCarry id ↔ s.MayCarry id := by
  obtain ⟨hreg, -, -, -, hall⟩ := Daemon.fastLoop_frame s.daemon env
  have hreg : (s.step ⟨r, .fast env⟩).daemon.registry = s.daemon.registry := hreg
  have hstate : (s.step ⟨r, .fast env⟩).state = s.state := congrArg (·.h.state) hall
  simp only [MayCarry, hreg, hstate]

end Logged

end

/-- The daemon, the mode writes since the last fast loop that had an
allocation, the latest first, and the backup state that loop met. -/
structure Tended (K : Type) where
  logged : Logged K
  since : List (String × Mode)
  seen : BackupState

namespace Tended

def lastSince (s : Tended K) (id : String) : Option Mode :=
  (s.since.find? fun w => w.1 = id).map (·.2)

/-- Since that loop a write took the connection out of permission, or the
backup left ACTIVE under a connection that is one. -/
def Forfeits (s : Tended K) (id : String) : Prop :=
  (∃ mode, s.lastSince id = some mode ∧ ¬Permits s.logged.state mode) ∨
    s.lastSince id = none ∧ s.logged.daemon.registry.modeOf id = some .backup ∧
      s.seen = .active ∧ s.logged.state ≠ .active

/-- A fast loop has a primary to stand on that no write since the decision
withdrew, or has none while the connection the tunnel is on forfeited nothing. -/
def KeepsCarrier (s : Tended K) (e : Event K) : Prop :=
  match e.action with
  | .fast env => s.logged.daemon.allocation ≠ none →
      (∀ id, s.logged.daemon.StandsOn env id → ¬s.logged.Withdrawn id) ∧
      ((∀ id, ¬s.logged.daemon.StandsOn env id) →
        ∀ id, s.logged.daemon.tunnel.viaAtomicId = some id → ¬s.Forfeits id)
  | _ => True

/-- The connection the tunnel is on had the permission when the last such fast
loop left it there, and has the mode it had then or the last one written. -/
structure Holds (s : Tended K) : Prop where
  standing : s.logged.Standing
  carrier : ∀ id, s.logged.daemon.tunnel.viaAtomicId = some id →
    ∃ mode, s.logged.daemon.registry.modeOf id = some mode ∧
      (s.lastSince id = some mode ∨ s.lastSince id = none ∧ Permits s.seen mode)

theorem Holds.mayCarry_iff {s : Tended K} (h : s.Holds) {id : String}
    (hv : s.logged.daemon.tunnel.viaAtomicId = some id) :
    s.logged.MayCarry id ↔ ¬s.Forfeits id := by
  obtain ⟨mode, hm, hw⟩ := h.carrier id hv
  simp only [Logged.MayCarry, Forfeits, hm, Option.some.injEq, forall_eq']
  rcases hw with hw | ⟨hw, hne, hseen⟩
  · simp [hw]
  · -- no write since: only the backup state can have moved
    simp only [hw, reduceCtorEq, false_and, exists_false, true_and, false_or, Permits]
    constructor
    · rintro ⟨-, hact⟩ ⟨hb, -, hleft⟩
      exact hleft (hact hb)
    · intro hkept
      refine ⟨hne, fun hb => ?_⟩
      by_contra hleft
      exact hkept ⟨hb, hseen hb, hleft⟩

variable [Field K] [LinearOrder K]

def init (config : Config K) (file : Option (StateFile K)) (r : Reading K) : Tended K where
  logged := Logged.init config file r
  since := []
  seen := .idle

variable [FloorRing K] [HalfPow K]

def step (s : Tended K) (e : Event K) : Tended K :=
  match e.action, s.logged.daemon.allocation with
  | .fast _, some _ => { logged := s.logged.step e, since := [], seen := s.logged.state }
  | _, _ => { s with
      logged := s.logged.step e
      since := (s.logged.daemon.modeWrite e).toList ++ s.since }

theorem logged_step (s : Tended K) (e : Event K) : (s.step e).logged = s.logged.step e := by
  unfold step
  split <;> rfl

theorem carriesRightly_iff {s : Tended K} (h : s.Holds) (e : Event K) :
    s.logged.CarriesRightly e ↔ s.KeepsCarrier e := by
  obtain ⟨r, action⟩ := e
  cases action with
  | fast env =>
    simp only [Logged.CarriesRightly, KeepsCarrier]
    refine imp_congr_right fun hne => ?_
    obtain ⟨al, hal⟩ := Option.ne_none_iff_exists'.mp hne
    have hvia : (s.logged.step ⟨r, .fast env⟩).daemon.tunnel.viaAtomicId = _ :=
      Daemon.fastLoop_via hal (h.standing.shared al hal) env
    simp only [← Daemon.reboundTo_eq_some]
    cases hb : s.logged.daemon.reboundTo env with
    | some primary =>
      have hprim := (Daemon.reboundTo_eq_some.mp hb).primary
      rw [hal, Option.bind_some] at hprim
      simp only [Logged.CarrierPermitted, hvia, hb, Option.some_or, Option.some.injEq,
        forall_eq', Logged.mayCarry_fast]
      rw [h.standing.mayCarry_iff hal (.inl hprim)]
      exact (and_iff_left False.elim).symm
    | none =>
      simp only [Logged.CarrierPermitted, hvia, hb, Option.none_or, Logged.mayCarry_fast,
        reduceCtorEq, not_false_eq_true, implies_true, false_implies, forall_const, true_and]
      exact forall_congr' fun id => imp_congr_right h.mayCarry_iff
  | _ => exact Iff.rfl

theorem lastSince_step {s : Tended K} {e : Event K} (hf : ∀ env, e.action ≠ .fast env)
    (id : String) : (s.step e).lastSince id =
      (Daemon.written (s.logged.daemon.modeWrite e) id).or (s.lastSince id) := by
  have hs : (s.step e).since = (s.logged.daemon.modeWrite e).toList ++ s.since := by
    unfold step
    split
    · rename_i ha _
      exact absurd ha (hf _)
    · rfl
  rw [lastSince, hs]
  cases s.logged.daemon.modeWrite e with
  | none => simp [Daemon.written, lastSince]
  | some w => by_cases hid : w.1 = id <;> simp [Daemon.written, lastSince, hid]

theorem carrier_fast {s : Tended K} (h : s.Holds) {r : Reading K} {env : TunnelEnv}
    (hc : s.logged.CarriesRightly ⟨r, .fast env⟩) : (s.step ⟨r, .fast env⟩).Holds := by
  refine ⟨logged_step s _ ▸ Logged.standing_step h.standing _, fun id hv => ?_⟩
  cases hal : s.logged.daemon.allocation with
  | none =>
    have hsame : s.logged.daemon.step ⟨r, .fast env⟩ = s.logged.daemon := by
      simp only [Daemon.step, Daemon.fastLoop, hal]
    simp only [step, hal, Logged.step, hsame] at hv ⊢
    exact h.carrier id hv
  | some al =>
    have hvia : (s.logged.daemon.step ⟨r, .fast env⟩).tunnel.viaAtomicId = _ :=
      Daemon.fastLoop_via hal (h.standing.shared al hal) env
    have hreg : (s.logged.daemon.step ⟨r, .fast env⟩).registry = s.logged.daemon.registry :=
      (Daemon.fastLoop_frame s.logged.daemon env).1
    have hstate : (s.logged.step ⟨r, .fast env⟩).state = s.logged.state :=
      congrArg (·.h.state) (Daemon.fastLoop_frame s.logged.daemon env).2.2.2.2
    simp only [step, hal] at hv ⊢
    obtain ⟨mode, hm⟩ : ∃ mode, s.logged.daemon.registry.modeOf id = some mode := by
      rw [Logged.step, hvia] at hv
      rcases Option.or_eq_some_iff.mp hv with hb | ⟨-, hv⟩
      · obtain ⟨a, hg, -⟩ := (Daemon.reboundTo_eq_some.mp hb).interface
        exact ⟨a.mode, by simp [Registry.modeOf, hg]⟩
      · obtain ⟨mode, hm, -⟩ := h.carrier id hv
        exact ⟨mode, hm⟩
    have hm' : (s.logged.step ⟨r, .fast env⟩).daemon.registry.modeOf id = some mode := by
      rw [Logged.step, hreg, hm]
    have hpermits := hc (by simp [hal]) id hv mode hm'
    exact ⟨mode, hm', .inr ⟨rfl, hstate ▸ hpermits⟩⟩

theorem holds_step {s : Tended K} (h : s.Holds) (e : Event K)
    (hc : s.logged.CarriesRightly e) : (s.step e).Holds := by
  by_cases hf : ∃ env, e.action = .fast env
  · obtain ⟨r, action⟩ := e
    obtain ⟨env, rfl⟩ := hf
    exact carrier_fast h hc
  have hf : ∀ env, e.action ≠ .fast env := fun env he => hf ⟨env, he⟩
  refine ⟨logged_step s e ▸ Logged.standing_step h.standing e, fun id hv => ?_⟩
  have hseen : (s.step e).seen = s.seen := by
    unfold step
    split
    · rename_i ha _
      exact absurd ha (hf _)
    · rfl
  rw [logged_step] at hv ⊢
  by_cases hr : e.action = .restart
  · have hnone : (s.logged.step e).daemon.tunnel.viaAtomicId = none := by
      simp only [Logged.step, Daemon.step, hr]
      rfl
    rw [hnone] at hv
    cases hv
  · have hvia : (s.logged.step e).daemon.tunnel = s.logged.daemon.tunnel :=
      Daemon.tunnel_step s.logged.daemon hf hr
    obtain ⟨mode, hm, hw⟩ := h.carrier id (hvia ▸ hv)
    have hmode : (s.logged.step e).daemon.registry.modeOf id =
        (Daemon.written (s.logged.daemon.modeWrite e) id).or
          ((s.logged.daemon.registry.modeOf id).or _) := Daemon.modeOf_step hr id
    rw [hmode, lastSince_step hf, hseen, hm]
    cases Daemon.written (s.logged.daemon.modeWrite e) id with
    | some m => exact ⟨m, rfl, .inl rfl⟩
    | none => exact ⟨mode, rfl, by simpa using hw⟩

end Tended

namespace Logged

variable [Field K] [LinearOrder K] [FloorRing K] [HalfPow K]

/-- After every fast loop of a run the tunnel is on a permitted connection,
exactly when at each one the primary it stands on was not withdrawn since the
decision, or, with none, the carrier forfeited nothing since the loop before. -/
theorem carrier_permitted_iff (config : Config K) (file : Option (StateFile K)) (r : Reading K)
    (es : List (Event K)) :
    Runs.Along step CarriesRightly (init config file r) es ↔
      Runs.Along Tended.step Tended.KeepsCarrier (Tended.init config file r) es := by
  have hstart : (Tended.init config file r).Holds :=
    ⟨standing_init config file r, fun id hv => by cases hv⟩
  have hmap : Runs.Along Tended.step (fun s e => s.logged.CarriesRightly e)
      (Tended.init config file r) es ↔ Runs.Along step CarriesRightly (init config file r) es :=
    Runs.along_map (C := CarriesRightly) Tended.logged Tended.logged_step
  rw [← hmap]
  exact Runs.along_iff (fun _ e h hc => Tended.holds_step h e hc)
    (fun _ e h => Tended.carriesRightly_iff h e) hstart

/-- The only connection is set aside: nothing replaces it and the tunnel stays. -/
theorem carrier_stays_unused : ¬Runs.Along step CarriesRightly (init hotspot none ⟨0, 0⟩)
    (during 0 [.discover [dock true], .consider fun _ => none, .decide fun _ => none,
        .fast wired] ++
      during 5 [.setMode "usb:dock" .unused] ++
      during 10 [.discover [dock true], .consider fun _ => none, .decide fun _ => none,
        .fast wired]) := by
  intro h
  obtain ⟨-, -, -, -, -, -, -, -, hlast, -⟩ := h
  have hpermits := hlast (by decide +kernel) "usb:dock" (by decide +kernel) .unused
    (by decide +kernel)
  exact hpermits.1 rfl

end Logged

end Wifucked
