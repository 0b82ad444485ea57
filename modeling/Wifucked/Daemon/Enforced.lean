import Wifucked.Daemon.Carrier

/-!
# What a fast loop hands to the enforcer

A fast loop renders the standing allocation against the interfaces and the
capacities of the moment, but does not look at the modes again.
-/

namespace Wifucked.Logged

variable {K : Type} [Field K] [LinearOrder K]

def Renders (d : Daemon K) (id : String) : Prop :=
  ∃ al, d.allocation = some al ∧ ∃ share ∈ al.shares, share.atomicId = id ∧
    ((∃ r, routeForShare d.registry.byId d.profiles d.tunnel.interface share = some r) ∨
      ∃ s, shapingForAtomic d.registry.byId id = some s)

def Belongs (d : Daemon K) (desired : DesiredState) (id : String) : Prop :=
  ∃ al, d.allocation = some al ∧ ∃ share ∈ al.shares, share.atomicId = id ∧
    ((∃ r ∈ desired.routes,
        routeForShare d.registry.byId d.profiles d.tunnel.interface share = some r) ∨
      ∃ s ∈ desired.shaping, shapingForAtomic d.registry.byId id = some s)

theorem belongs_iff_renders {d : Daemon K} (hal : d.allocation = some al)
    (hr : render al d.registry.byId d.profiles d.tunnel.interface = .ok desired) (id : String) :
    Belongs d desired id ↔ Renders d id := by
  obtain ⟨-, -, hroutes, hshaping⟩ := render_eq_ok hr
  constructor
  · rintro ⟨al, hal, share, hs, hid, ⟨r, -, hr⟩ | ⟨s, -, hs'⟩⟩
    · exact ⟨al, hal, share, hs, hid, .inl ⟨r, hr⟩⟩
    · exact ⟨al, hal, share, hs, hid, .inr ⟨s, hs'⟩⟩
  · rintro ⟨al', hal', share, hs, hid, ⟨r, hr'⟩ | ⟨s, hs'⟩⟩
    · obtain rfl := Option.some.inj (hal.symm.trans hal')
      exact ⟨al, hal, share, hs, hid, .inl ⟨r, (hroutes r).mpr ⟨share, hs, hr'⟩, hr'⟩⟩
    · obtain rfl := Option.some.inj (hal.symm.trans hal')
      refine ⟨al, hal, share, hs, hid, .inr ⟨s, (hshaping s).mpr ⟨share, hs, ?_⟩, hs'⟩⟩
      rwa [hid]

variable [FloorRing K] [HalfPow K]

/-- Nothing handed over by a fast loop belongs to a connection that may not
carry traffic at that moment. -/
def HandsOverPermitted (s : Logged K) (e : Event K) : Prop :=
  match e.action with
  | .fast _ => s.daemon.allocation ≠ none → ∃ desired,
      (s.step e).daemon.handed = some desired ∧
        ∀ id, Belongs s.daemon desired id → (s.step e).MayCarry id
  | _ => True

/-- No connection that is rendered was withdrawn by a write since the decision. -/
def RendersFresh (s : Logged K) (e : Event K) : Prop :=
  match e.action with
  | .fast _ => ∀ id, Renders s.daemon id → ¬s.Withdrawn id
  | _ => True

theorem handsOverPermitted_iff {s : Logged K} (h : s.Standing) (e : Event K) :
    s.HandsOverPermitted e ↔ s.RendersFresh e := by
  obtain ⟨r, action⟩ := e
  cases action with
  | fast env =>
    simp only [HandsOverPermitted, RendersFresh]
    cases hal : s.daemon.allocation with
    | none => simp [Renders, hal]
    | some al =>
      obtain ⟨desired, hr, hf⟩ := Daemon.fastLoop_ok hal (h.shared al hal) env
      have hhanded : (s.step ⟨r, .fast env⟩).daemon.handed = some desired := by
        have hstep : (s.step ⟨r, .fast env⟩).daemon = s.daemon.fastLoop env := rfl
        rw [hstep, hf, Daemon.bindTunnel_handed]
      have huse : ∀ id, Renders s.daemon id → (s.MayCarry id ↔ ¬s.Withdrawn id) := by
        rintro id ⟨al', hal', share, hs, hid, -⟩
        obtain rfl := Option.some.inj (hal.symm.trans hal')
        exact h.mayCarry_iff hal (.inr ⟨share, hs, hid⟩)
      simp only [hhanded, Option.some.injEq, exists_eq_left', mayCarry_fast,
        belongs_iff_renders hal hr, ne_eq, reduceCtorEq, not_false_eq_true, forall_const]
      exact forall₂_congr huse
  | _ => exact Iff.rfl

/-- What every fast loop of a run hands over is permitted, exactly when no
connection it renders was withdrawn since the decision it stands on. -/
theorem enforced_permitted_iff (config : Config K) (file : Option (StateFile K)) (r : Reading K)
    (es : List (Event K)) :
    Runs.Along step HandsOverPermitted (init config file r) es ↔
      Runs.Along step RendersFresh (init config file r) es :=
  Runs.along_iff (fun _ e h _ => standing_step h e) (fun _ e h => handsOverPermitted_iff h e)
    (standing_init config file r)

/-- Set aside between the decision and the fast loop, the only connection is
still routed. -/
theorem enforced_unused : ¬Runs.Along step HandsOverPermitted (init hotspot none ⟨0, 0⟩)
    (during 0 [.discover [dock true], .consider fun _ => none, .decide browsing, .fast wired] ++
      during 1 [.setMode "usb:dock" .unused, .fast wired]) := by
  intro h
  obtain ⟨-, -, -, -, -, hlast, -⟩ := h
  obtain ⟨desired, hh, hall⟩ := hlast (by decide +kernel)
  obtain rfl : desired = ⟨[], [⟨20, 757, "wg0"⟩], [(20, 20)], []⟩ := by
    refine Option.some.inj (hh.symm.trans ?_)
    decide +kernel
  have hpermits := hall "usb:dock" ⟨⟨some "usb:dock", false,
    [⟨"usb:dock", "Stable_besteffort", 256000⟩], []⟩, by decide +kernel, _,
    List.mem_singleton.mpr rfl, rfl, .inl ⟨⟨20, 757, "wg0"⟩, by decide, by decide +kernel⟩⟩
    .unused (by decide +kernel)
  exact hpermits.1 rfl

end Wifucked.Logged
