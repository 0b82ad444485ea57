import Wifucked.Fabric.Peers
import Wifucked.Lib.Numerals
import Wifucked.Lib.Runs

/-!
# Registering appliances with the fabric

What `/register` checks, what it makes of the fabric's interface, and what it
answers. The kernel holds the interface's routes and its peers' allowed
addresses: a prefix belongs to one peer, and setting it takes it from others.
-/

namespace Wifucked.Fabric

def rfc1918Ranges : List (Prefix 32) :=
  [.ofAddress 32 (10 * 2 ^ 24) 8, .ofAddress 32 (172 * 2 ^ 24 + 16 * 2 ^ 16) 12,
    .ofAddress 32 (192 * 2 ^ 24 + 168 * 2 ^ 16) 16]

def Private (a : Address) : Prop := ∃ p ∈ rfc1918Ranges, p.Covers a

structure FabricWireGuard where
  ready : Bool
  routes : List (Prefix 32)
  allowed : PrefixTable 32 String

namespace FabricWireGuard

def init : FabricWireGuard := ⟨false, [], .empty⟩

/-- What the setup commands came to is `setup`; they run once. -/
def ensureReady (w : FabricWireGuard) (setup : Except String Unit) :
    Except String FabricWireGuard :=
  if w.ready then .ok w
  else setup.map fun _ => { w with ready := true, routes := w.routes ++ rfc1918Ranges }

def allowedIps (address : Address) : List (Prefix 32) := .host 32 address :: rfc1918Ranges

/-- `wg set`, which leaves the peers as they were where it fails. -/
def addPeer (w : FabricWireGuard) (publicKey : String) (address : Address)
    (set : Except String Unit) : Except String FabricWireGuard :=
  set.map fun _ => { w with allowed := w.allowed.assign publicKey (allowedIps address) }

/-- A packet is taken from the peer that its source belongs to. -/
def accepts (w : FabricWireGuard) (publicKey : String) (source : Address) : Bool :=
  w.allowed.lookup source = some publicKey

/-- The peer a packet goes to, once a route hands it to the interface. -/
def sendsTo (w : FabricWireGuard) (destination : Address) : Option String :=
  if w.routes.any fun p => p.Covers destination then w.allowed.lookup destination else none

end FabricWireGuard

-- ---------------------------------------------------------------------------
-- The call
-- ---------------------------------------------------------------------------

structure FabricConfig where
  address : String
  username : String
  password : String

def minApplianceVersion : String := "0.1.0"

def versionTuple (version : String) : List ℤ :=
  let core := (version.toList.takeWhile (· ≠ '-')).takeWhile (· ≠ '+')
  (((core.splitOn '.' ++ [['0'], ['0'], ['0']]).take 3).mapM Numerals.shortInt).getD [0, 0, 0]

/-- One call, with what the commands it runs come to. -/
structure Call where
  authorization : Option (String × String)
  version : Option String
  publicKey : Option String
  setup : Except String Unit
  set : Except String Unit
  fabricKey : Except String String

inductive Answer where
  | unauthenticated
  | keyMissing
  | tooOld (version : String)
  | backendUnavailable (detail : String)
  | poolExhausted (detail : String)
  | peerNotAdded (detail : String)
  /-- The fabric's own key cannot be read once the peer is there. -/
  | raised (detail : String)
  | registered (allocation : PeerAllocation) (fabricKey endpoint tunnelPool : String)
  deriving DecidableEq, Repr

def Answer.status : Answer → ℕ
  | .unauthenticated => 401
  | .keyMissing => 400
  | .tooOld _ => 409
  | .backendUnavailable _ | .poolExhausted _ | .peerNotAdded _ => 503
  | .raised _ => 500
  | .registered .. => 200

def Answer.body : Answer → List (String × String)
  | .unauthenticated => [("error", "authentication required")]
  | .keyMissing => [("error", "public_key is required")]
  | .tooOld version =>
    [("error", "appliance too old for this fabric"), ("appliance_version", version),
      ("min_appliance_version", minApplianceVersion)]
  | .backendUnavailable detail =>
    [("error", "tunnel backend unavailable"), ("detail", detail)]
  | .poolExhausted detail => [("error", "tunnel address pool exhausted"), ("detail", detail)]
  | .peerNotAdded detail => [("error", "could not add tunnel peer"), ("detail", detail)]
  | .raised _ => []
  | .registered allocation fabricKey endpoint tunnelPool =>
    [("assigned_address", dotted allocation.address ++ "/32"), ("fabric_public_key", fabricKey),
      ("endpoint", endpoint), ("tunnel_pool", tunnelPool)]

structure App where
  config : FabricConfig
  registry : PeerRegistry
  wireguard : FabricWireGuard

namespace App

def init (config : FabricConfig) (registry : PeerRegistry) : App := ⟨config, registry, .init⟩

def authenticated (f : App) (c : Call) : Bool :=
  c.authorization.any fun auth => auth.1 = f.config.username && auth.2 = f.config.password

def register (f : App) (c : Call) : App × Answer :=
  if !f.authenticated c then (f, .unauthenticated)
  else
    let version := c.version.getD ""
    let publicKey := c.publicKey.getD ""
    if publicKey = "" then (f, .keyMissing)
    else if versionTuple version < versionTuple minApplianceVersion then (f, .tooOld version)
    else
      match f.wireguard.ensureReady c.setup with
      | .error detail => (f, .backendUnavailable detail)
      | .ok ready =>
        let f := { f with wireguard := ready }
        match f.registry.allocate publicKey with
        | none =>
          (f, .poolExhausted ("tunnel pool " ++ f.registry.network.text ++ " has no free address"))
        | some (registry, allocation) =>
          let f := { f with registry }
          match f.wireguard.addPeer publicKey allocation.address c.set with
          | .error detail => (f, .peerNotAdded detail)
          | .ok added =>
            let f := { f with wireguard := added }
            match c.fabricKey with
            | .error detail => (f, .raised detail)
            | .ok fabricKey =>
              (f, .registered allocation fabricKey f.config.address f.registry.network.text)

theorem register_ok {f : App} {c : Call} (h : (f.register c).2.status = 200) :
    ∃ w registry p key, f.wireguard.ensureReady c.setup = .ok w ∧
      f.registry.allocate (c.publicKey.getD "") = some (registry, p) ∧
      f.register c =
        (⟨f.config, registry,
            { w with
              allowed := w.allowed.assign (c.publicKey.getD "")
                (FabricWireGuard.allowedIps p.address) }⟩,
          .registered p key f.config.address registry.network.text) := by
  unfold register at h ⊢
  split at h
  · cases h
  rename_i hauth
  rw [if_neg hauth]
  simp only at h ⊢
  split at h
  · cases h
  rename_i hkey
  rw [if_neg hkey]
  split at h
  · cases h
  rename_i hversion
  rw [if_neg hversion]
  cases hready : f.wireguard.ensureReady c.setup with
  | error detail => rw [hready] at h; cases h
  | ok w =>
    rw [hready] at h
    simp only at h ⊢
    cases halloc : f.registry.allocate (c.publicKey.getD "") with
    | none => rw [halloc] at h; cases h
    | some out =>
      obtain ⟨registry, p⟩ := out
      rw [halloc] at h
      simp only [FabricWireGuard.addPeer] at h ⊢
      cases hset : c.set with
      | error detail => rw [hset] at h; cases h
      | ok u =>
        rw [hset] at h
        cases hfabric : c.fabricKey with
        | error detail => rw [hfabric] at h; cases h
        | ok key => exact ⟨w, registry, p, key, rfl, rfl, rfl⟩

end App

end Wifucked.Fabric
