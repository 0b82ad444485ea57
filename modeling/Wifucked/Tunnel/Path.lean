import Wifucked.Lib.Runs
import Wifucked.Tunnel

/-!
# The path that a bound tunnel takes

Calls of `bind_to` with interfaces that come, go and are renamed between them.
The kernel drops the host route with its device, and the tunnel does not look
again while it is asked for the connection that it is bound to.
-/

namespace Wifucked

inductive PathChange where
  | bindTo (endpointKnown : Bool) (defaultGateway : String → Option String) (routeReplaced : Bool)
      (atomicId ifname : String)
  | disappear (ifname : String)
  | rename (ifname newName : String)

/-- The last move of the tunnel: its interface by its present name, and whether
that is there since. -/
structure LastMove where
  ifname : String
  stands : Bool
  deriving DecidableEq

/-- `hostRoute` of the tunnel is the kernel's. -/
structure BoundPath where
  tunnel : Tunnel
  last : Option LastMove
  deriving DecidableEq

namespace BoundPath

/-- A new tunnel, over whatever route an earlier process left. -/
def start (interface : String) (left : Option HostRoute) : BoundPath :=
  ⟨{ Tunnel.init interface with hostRoute := left }, none⟩

variable (endpoint : String)

def env (endpointKnown : Bool) (defaultGateway : String → Option String) (routeReplaced : Bool) :
    TunnelEnv :=
  ⟨if endpointKnown then some endpoint else none, defaultGateway, routeReplaced⟩

def renamed (ifname newName name : String) : String := if name = ifname then newName else name

def step (s : BoundPath) : PathChange → BoundPath
  | .bindTo known gateway replaced atomicId ifname =>
    { tunnel := (s.tunnel.bindTo (env endpoint known gateway replaced) atomicId ifname).1
      last :=
        if s.tunnel.viaAtomicId ≠ some atomicId ∧
            Tunnel.succeeds (env endpoint known gateway replaced) then some ⟨ifname, true⟩
        else s.last }
  | .disappear ifname =>
    { tunnel := { s.tunnel with hostRoute := s.tunnel.hostRoute.filter (·.ifname ≠ ifname) }
      last := s.last.map fun m => { m with stands := m.stands && m.ifname ≠ ifname } }
  -- A route is over a device, whatever that is called.
  | .rename ifname newName =>
    { tunnel := { s.tunnel with
        hostRoute := s.tunnel.hostRoute.map fun route =>
          { route with ifname := renamed ifname newName route.ifname } }
      last := s.last.map fun m => { m with ifname := renamed ifname newName m.ifname } }

/-- A call that returns `True` leaves the route going out of the interface it names. -/
def Truthful (s : BoundPath) : PathChange → Prop
  | .bindTo known gateway replaced atomicId ifname =>
    let (tunnel, ok) := s.tunnel.bindTo (env endpoint known gateway replaced) atomicId ifname
    ok = true → ∃ route, tunnel.hostRoute = some route ∧ route.endpoint = endpoint ∧
      route.ifname = ifname
  | .disappear _ | .rename _ _ => True

/-- A call for the connection the tunnel is bound to names the interface of the
move to it, which has not disappeared since. -/
def Unmoved (s : BoundPath) : PathChange → Prop
  | .bindTo _ _ _ atomicId ifname =>
    s.tunnel.viaAtomicId = some atomicId → s.last = some ⟨ifname, true⟩
  | .disappear _ | .rename _ _ => True

/-- The route is that of the last move for as long as its interface stands. -/
structure Routed (s : BoundPath) : Prop where
  moved : s.tunnel.viaAtomicId.isSome → s.last.isSome
  stands : ∀ i, s.last = some ⟨i, true⟩ →
    ∃ gateway, s.tunnel.hostRoute = some ⟨endpoint, gateway, i⟩
  gone : ∀ i, s.last = some ⟨i, false⟩ → s.tunnel.hostRoute = none

variable {endpoint : String} {s : BoundPath}

theorem routed_start (interface : String) (left : Option HostRoute) :
    (start interface left).Routed endpoint := by
  refine ⟨fun h => ?_, fun i h => ?_, fun i h => ?_⟩ <;> cases h

/-- The ways a call ends: the tunnel was there, it moves, or it stays. -/
theorem bindTo_cases (endpoint : String) (t : Tunnel) (known : Bool)
    (gateway : String → Option String) (replaced : Bool) (atomicId ifname : String) :
    t.viaAtomicId = some atomicId ∧
        t.bindTo (env endpoint known gateway replaced) atomicId ifname = (t, true) ∨
      t.viaAtomicId ≠ some atomicId ∧
        (Tunnel.succeeds (env endpoint known gateway replaced) = true ∧
            (∃ g, t.bindTo (env endpoint known gateway replaced) atomicId ifname =
              ({ t with
                  viaAtomicId := some atomicId
                  hostRoute := some ⟨endpoint, g, ifname⟩ }, true)) ∨
          Tunnel.succeeds (env endpoint known gateway replaced) = false ∧
            t.bindTo (env endpoint known gateway replaced) atomicId ifname = (t, false)) := by
  by_cases hvia : t.viaAtomicId = some atomicId
  · exact .inl ⟨hvia, by simp [Tunnel.bindTo, hvia]⟩
  · refine .inr ⟨hvia, ?_⟩
    cases known with
    | false => exact .inr ⟨by simp [Tunnel.succeeds, env], by simp [Tunnel.bindTo, hvia, env]⟩
    | true =>
      by_cases hhost : endpoint = ""
      · have hnone : (some endpoint).filter (· ≠ "") = none := by simp [Option.filter, hhost]
        exact .inr ⟨by simp only [Tunnel.succeeds, env, if_true, hnone]; rfl,
          by simp only [Tunnel.bindTo, hvia, env, if_true, hnone, if_false]⟩
      · have hsome : (some endpoint).filter (· ≠ "") = some endpoint := by
          simp [Option.filter, hhost]
        cases replaced with
        | false =>
          exact .inr ⟨by simp [Tunnel.succeeds, env],
            by simp [Tunnel.bindTo, hvia, env, Option.filter, hhost]⟩
        | true =>
          refine .inl ⟨by simp only [Tunnel.succeeds, env, if_true, hsome]; rfl, ?_⟩
          exact ⟨(gateway ifname).filter (· ≠ ""),
            by simp only [Tunnel.bindTo, hvia, env, if_true, hsome, if_false]⟩

theorem routed_bindTo (h : s.Routed endpoint) (known : Bool) (gateway : String → Option String)
    (replaced : Bool) (atomicId ifname : String) :
    (s.step endpoint (.bindTo known gateway replaced atomicId ifname)).Routed endpoint := by
  rcases bindTo_cases endpoint s.tunnel known gateway replaced atomicId ifname with
    ⟨hvia, hcalled⟩ | ⟨hvia, ⟨hok, g, hcalled⟩ | ⟨hok, hcalled⟩⟩
  · have hstep : s.step endpoint (.bindTo known gateway replaced atomicId ifname) = s := by
      simp [step, hcalled, hvia]
    rw [hstep]
    exact h
  · simp only [step, hcalled, hvia, hok, ne_eq, not_false_eq_true, and_self, if_true]
    refine ⟨fun _ => rfl, fun i hi => ?_, fun i hi => ?_⟩
    · obtain rfl : ifname = i := by simpa using hi
      exact ⟨g, rfl⟩
    · simp at hi
  · have hstep : s.step endpoint (.bindTo known gateway replaced atomicId ifname) = s := by
      simp [step, hcalled, hok]
    rw [hstep]
    exact h

theorem routed_disappear (h : s.Routed endpoint) (ifname : String) :
    (s.step endpoint (.disappear ifname)).Routed endpoint where
  moved hvia := by simpa [step] using h.moved hvia
  stands i hi := by
    simp only [step] at hi ⊢
    obtain ⟨⟨j, stands⟩, hm, hm'⟩ := Option.map_eq_some_iff.mp hi
    simp only [LastMove.mk.injEq, Bool.and_eq_true, decide_eq_true_eq] at hm'
    obtain ⟨rfl, rfl, hne⟩ := hm'
    obtain ⟨g, hg⟩ := h.stands j hm
    exact ⟨g, by simp [hg, Option.filter, hne]⟩
  gone i hi := by
    simp only [step] at hi ⊢
    obtain ⟨⟨j, stands⟩, hm, hm'⟩ := Option.map_eq_some_iff.mp hi
    cases stands with
    | false => simp [h.gone j hm]
    | true =>
      obtain ⟨g, hg⟩ := h.stands j hm
      obtain rfl : j = ifname := by simpa using (congrArg LastMove.stands hm')
      simp [hg, Option.filter]

theorem routed_rename (h : s.Routed endpoint) (ifname newName : String) :
    (s.step endpoint (.rename ifname newName)).Routed endpoint where
  moved hvia := by simpa [step] using h.moved hvia
  stands i hi := by
    simp only [step] at hi ⊢
    obtain ⟨⟨j, stands⟩, hm, hm'⟩ := Option.map_eq_some_iff.mp hi
    simp only [LastMove.mk.injEq] at hm'
    obtain ⟨rfl, rfl⟩ := hm'
    obtain ⟨g, hg⟩ := h.stands j hm
    exact ⟨g, by simp [hg]⟩
  gone i hi := by
    simp only [step] at hi ⊢
    obtain ⟨⟨j, stands⟩, hm, hm'⟩ := Option.map_eq_some_iff.mp hi
    simp only [LastMove.mk.injEq] at hm'
    obtain ⟨-, rfl⟩ := hm'
    simp [h.gone j hm]

theorem routed_step (h : s.Routed endpoint) (c : PathChange) :
    (s.step endpoint c).Routed endpoint := by
  cases c with
  | bindTo known gateway replaced atomicId ifname =>
    exact routed_bindTo h known gateway replaced atomicId ifname
  | disappear ifname => exact routed_disappear h ifname
  | rename ifname newName => exact routed_rename h ifname newName

theorem truthful_iff (h : s.Routed endpoint) (c : PathChange) :
    s.Truthful endpoint c ↔ s.Unmoved c := by
  cases c with
  | disappear | rename => exact Iff.rfl
  | bindTo known gateway replaced atomicId ifname =>
    simp only [Truthful, Unmoved]
    rcases bindTo_cases endpoint s.tunnel known gateway replaced atomicId ifname with
      ⟨hvia, hcalled⟩ | ⟨hvia, ⟨hok, g, hcalled⟩ | ⟨hok, hcalled⟩⟩
    · simp only [hcalled, hvia, forall_const]
      constructor
      · rintro ⟨route, hroute, -, rfl⟩
        obtain ⟨⟨i, stands⟩, hlast⟩ := Option.isSome_iff_exists.mp (h.moved (by simp [hvia]))
        cases stands with
        | false =>
          rw [h.gone i hlast] at hroute
          cases hroute
        | true =>
          obtain ⟨g, hg⟩ := h.stands i hlast
          rw [hg] at hroute
          obtain rfl := Option.some.inj hroute
          exact hlast
      · intro hlast
        obtain ⟨g, hg⟩ := h.stands ifname hlast
        exact ⟨_, hg, rfl, rfl⟩
    · simp [hcalled, hvia]
    · simp [hcalled, hvia]

/-- Every call of a run is truthful exactly when none for the connection that
the tunnel is bound to comes after a change of its interface. -/
theorem truthful_run_iff (endpoint interface : String) (left : Option HostRoute)
    (cs : List PathChange) :
    Runs.Along (step endpoint) (Truthful endpoint) (start interface left) cs ↔
      Runs.Along (step endpoint) Unmoved (start interface left) cs := by
  have hstep : ∀ (s : BoundPath) c, s.Routed endpoint → s.Truthful endpoint c →
      (s.step endpoint c).Routed endpoint := fun _ c h _ => routed_step h c
  exact Runs.along_iff hstep (fun _ c h => truthful_iff h c) (routed_start interface left)

def replugged : List PathChange :=
  [.bindTo true (fun _ => none) true "usb:dock" "eth1", .disappear "eth1",
    .bindTo true (fun _ => none) true "usb:dock" "eth2"]

theorem replugged_untruthful :
    ¬Runs.Along (step "203.0.113.5") (Truthful "203.0.113.5") (start "wg0" none) replugged := by
  rintro ⟨-, -, h, -⟩
  obtain ⟨route, hroute, -⟩ := h (by decide)
  simp [step, Tunnel.bindTo, env, start, Tunnel.init, Option.filter] at hroute

end BoundPath

end Wifucked
