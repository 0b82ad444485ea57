/-!
# The tunnel and the connection that carries it

The tunnel moves by a host route for the fabric's endpoint. Which connection
that is stays in the tunnel until a later move succeeds.
-/

namespace Wifucked

/-- `ip route replace <endpoint>/32 [via <gateway>] dev <ifname>`. -/
structure HostRoute where
  endpoint : String
  gateway : Option String
  ifname : String
  deriving DecidableEq, Repr

structure Tunnel where
  interface : String
  viaAtomicId : Option String
  hostRoute : Option HostRoute
  deriving DecidableEq, Repr

structure TunnelEnv where
  peerEndpointHost : Option String
  defaultGateway : String → Option String
  routeReplaced : Bool

namespace Tunnel

def init (interface : String) : Tunnel := ⟨interface, none, none⟩

/-- The tunnel afterwards, and what the call returns. -/
def bindTo (tunnel : Tunnel) (env : TunnelEnv) (atomicId ifname : String) : Tunnel × Bool :=
  if tunnel.viaAtomicId = some atomicId then (tunnel, true)
  else
    match env.peerEndpointHost.filter (· ≠ "") with
    | none => (tunnel, false)
    | some endpoint =>
      if env.routeReplaced then
        let gateway := (env.defaultGateway ifname).filter (· ≠ "")
        ({ tunnel with
            viaAtomicId := some atomicId
            hostRoute := some ⟨endpoint, gateway, ifname⟩ }, true)
      else (tunnel, false)

def succeeds (env : TunnelEnv) : Bool :=
  (env.peerEndpointHost.filter (· ≠ "")).isSome && env.routeReplaced

@[simp] theorem bindTo_interface (tunnel : Tunnel) (env : TunnelEnv) (atomicId ifname : String) :
    (tunnel.bindTo env atomicId ifname).1.interface = tunnel.interface := by
  unfold bindTo
  split
  · rfl
  · split
    · rfl
    · split <;> rfl

theorem bindTo_viaAtomicId (tunnel : Tunnel) (env : TunnelEnv) (atomicId ifname : String) :
    (tunnel.bindTo env atomicId ifname).1.viaAtomicId =
      if succeeds env then some atomicId else tunnel.viaAtomicId := by
  unfold bindTo succeeds
  by_cases hvia : tunnel.viaAtomicId = some atomicId
  · simp [hvia]
  · simp only [hvia, if_false]
    cases env.peerEndpointHost.filter (· ≠ "") with
    | none => simp
    | some endpoint => cases env.routeReplaced <;> simp

end Tunnel

end Wifucked
