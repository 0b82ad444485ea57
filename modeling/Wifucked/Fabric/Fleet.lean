import Wifucked.Fabric.WireGuard

/-!
# Several appliances on one fabric

What a sequence of successful calls leaves of the addresses and prefixes
each appliance was given.
-/

namespace Wifucked.Fabric

/-- The fabric, with the address each appliance was last told it has. -/
structure Fleet where
  app : App
  assigned : Keyed (String × Address) Prod.fst

namespace Fleet

def init (config : FabricConfig) (registry : PeerRegistry) : Fleet :=
  ⟨.init config registry, .empty⟩

def call (s : Fleet) (c : Call) : Fleet :=
  let (app, answer) := s.app.register c
  match answer with
  | .registered allocation .. =>
    ⟨app, s.assigned.put (allocation.publicKey, allocation.address)⟩
  | _ => { s with app }

def Succeeds (s : Fleet) (c : Call) : Prop := (s.app.register c).2.status = 200

instance (s : Fleet) (c : Call) : Decidable (s.Succeeds c) :=
  inferInstanceAs (Decidable ((s.app.register c).2.status = 200))

/-- Every registered appliance owns what it was given, and is reached by the
traffic of its clients in both directions. -/
structure Served (clients : String → Address → Prop) (s : Fleet) : Prop where
  owns : ∀ k a, s.assigned.get? k = some (k, a) → ∀ p ∈ FabricWireGuard.allowedIps a,
    s.app.wireguard.allowed.owner p = some k
  reached : ∀ k a, s.assigned.get? k = some (k, a) → ∀ c, clients k c →
    s.app.wireguard.accepts k c = true ∧ s.app.wireguard.sendsTo c = some k

theorem call_ok {s : Fleet} (h : s.Succeeds c) :
    ∃ p, p.publicKey = c.publicKey.getD "" ∧
      s.app.registry.allocate p.publicKey = some ((s.call c).app.registry, p) ∧
      (s.call c).assigned = s.assigned.put (p.publicKey, p.address) ∧
      (s.call c).app.wireguard.allowed =
        s.app.wireguard.allowed.assign p.publicKey (FabricWireGuard.allowedIps p.address) ∧
      ((s.app.wireguard.ready = true → rfc1918Ranges ⊆ s.app.wireguard.routes) →
        (s.call c).app.wireguard.ready = true ∧
          rfc1918Ranges ⊆ (s.call c).app.wireguard.routes) := by
  obtain ⟨w, registry, p, key, hready, halloc, hcall⟩ := App.register_ok h
  have hkey := (PeerRegistry.allocate_cases halloc).1
  have hallowed : w.allowed = s.app.wireguard.allowed ∧
      ((s.app.wireguard.ready = true → rfc1918Ranges ⊆ s.app.wireguard.routes) →
        w.ready = true ∧ rfc1918Ranges ⊆ w.routes) := by
    unfold FabricWireGuard.ensureReady at hready
    split at hready
    · rename_i hr
      obtain rfl := Except.ok.inj hready
      exact ⟨rfl, fun hroutes => ⟨hr, hroutes hr⟩⟩
    · cases hsetup : c.setup with
      | error detail => rw [hsetup] at hready; cases hready
      | ok u =>
        rw [hsetup] at hready
        obtain rfl := Except.ok.inj hready
        exact ⟨rfl, fun _ => ⟨rfl, List.subset_append_right _ _⟩⟩
  obtain ⟨hallowed, hroutes⟩ := hallowed
  refine ⟨p, hkey, ?_, ?_, ?_, ?_⟩
  · simp only [call, hcall, hkey]
    exact halloc
  · simp only [call, hcall]
  · simp only [call, hcall, hallowed, hkey]
  · simp only [call, hcall]
    exact hroutes

-- ---------------------------------------------------------------------------
-- One appliance
-- ---------------------------------------------------------------------------

/-- Only one appliance has ever called, and it has all there is. -/
structure Sole (k : String) (s : Fleet) : Prop where
  assigned : ∀ j a, s.assigned.get? j = some (j, a) → j = k
  owners : ∀ p j, s.app.wireguard.allowed.owner p = some j → j = k
  owns : ∀ a, s.assigned.get? k = some (k, a) → ∀ p ∈ FabricWireGuard.allowedIps a,
    s.app.wireguard.allowed.owner p = some k
  routes : s.app.wireguard.ready = true → rfc1918Ranges ⊆ s.app.wireguard.routes
  ready : ∀ j a, s.assigned.get? j = some (j, a) → s.app.wireguard.ready = true

theorem sole_init (config : FabricConfig) (registry : PeerRegistry) (k : String) :
    Sole k (init config registry) where
  assigned := by simp [init]
  owners := by simp [init, App.init, FabricWireGuard.init]
  owns := by simp [init]
  routes := by simp [init, App.init, FabricWireGuard.init]
  ready := by simp [init]

theorem sole_call {s : Fleet} (hs : Sole k s) (h : s.Succeeds c) (hk : c.publicKey.getD "" = k) :
    Sole k (s.call c) := by
  obtain ⟨p, hkey, -, hassigned, hallowed, hroutes⟩ := call_ok h
  obtain ⟨hready, hroutes⟩ := hroutes hs.routes
  rw [hkey, hk] at hassigned hallowed
  refine ⟨fun j a hj => ?_, fun q j hj => ?_, fun a ha q hq => ?_, fun _ => hroutes,
    fun _ _ _ => hready⟩
  · rw [hassigned, Keyed.get?_put] at hj
    split at hj
    · rename_i hjk
      exact hjk.symm
    · exact hs.assigned j a hj
  · rw [hallowed, PrefixTable.owner_assign] at hj
    split at hj
    · exact (Option.some.inj hj).symm
    · exact hs.owners q j (Option.filter_eq_some_iff.mp hj).1
  · have ha' : p.address = a := by
      rw [hassigned, Keyed.get?_put_self] at ha
      exact (Prod.mk.inj (Option.some.inj ha)).2
    rw [hallowed, PrefixTable.owner_assign, ha', if_pos hq]

theorem served_of_sole {s : Fleet} (hs : Sole k s) (hc : ∀ j c, clients j c → Private c) :
    Served clients s := by
  have howns : ∀ j a, s.assigned.get? j = some (j, a) → ∀ p ∈ FabricWireGuard.allowedIps a,
      s.app.wireguard.allowed.owner p = some j := by
    intro j a hj
    obtain rfl := hs.assigned j a hj
    exact hs.owns a hj
  refine ⟨howns, fun j a hj c hclient => ?_⟩
  obtain ⟨p, hp, hcovers⟩ := hc j c hclient
  have howner := howns j a hj p (List.mem_cons_of_mem _ hp)
  have hlookup : s.app.wireguard.allowed.lookup c = some j := by
    refine PrefixTable.lookup_of_owner (fun q i hi => ?_) howner hcovers
    rw [hs.owners q i hi, hs.assigned j a hj]
  have hroute : (s.app.wireguard.routes.any fun p => p.Covers c) = true := by
    refine List.any_eq_true.mpr ⟨p, hs.routes (hs.ready j a hj) hp, ?_⟩
    simpa using hcovers
  exact ⟨by simp [FabricWireGuard.accepts, hlookup], by
    simp only [FabricWireGuard.sendsTo, hroute, if_true, hlookup]⟩

-- ---------------------------------------------------------------------------
-- Several appliances
-- ---------------------------------------------------------------------------

theorem assigned_kept {s : Fleet} {cs : List Call} (h : Runs.Along call Succeeds s cs)
    (hk : ∃ a, s.assigned.get? k = some (k, a)) :
    ∃ a, (Runs.exec call s cs).assigned.get? k = some (k, a) := by
  refine Runs.exec_of_along (P := fun s : Fleet => ∃ a, s.assigned.get? k = some (k, a))
    (fun s c _ hk hc => ?_) h hk
  obtain ⟨p, -, -, hassigned, -⟩ := call_ok hc
  rw [hassigned, Keyed.get?_put]
  split
  · rename_i hpk
    obtain rfl : p.publicKey = k := hpk
    exact ⟨p.address, rfl⟩
  · exact hk

theorem assigned_of_called {s : Fleet} {cs : List Call}
    (h : Runs.Along call Succeeds s cs) (hc : c ∈ cs) :
    ∃ a, (Runs.exec call s cs).assigned.get? (c.publicKey.getD "") =
      some (c.publicKey.getD "", a) := by
  obtain ⟨front, back, rfl⟩ := List.append_of_mem hc
  rw [Runs.exec_append, Runs.exec_cons]
  obtain ⟨hcall, hback⟩ := (Runs.along_append.mp h).2
  refine assigned_kept hback ?_
  obtain ⟨p, hkey, -, hassigned, -⟩ := call_ok hcall
  exact ⟨p.address, by rw [hassigned, ← hkey, Keyed.get?_put_self]⟩

theorem ranges_of_last {s : Fleet} {cs : List Call}
    (h : Runs.Along call Succeeds s (cs ++ [c])) (hp : p ∈ rfc1918Ranges) :
    (Runs.exec call s (cs ++ [c])).app.wireguard.allowed.owner p = some (c.publicKey.getD "") := by
  rw [Runs.exec_append, Runs.exec_cons, Runs.exec_nil]
  obtain ⟨q, hkey, -, -, hallowed, -⟩ := call_ok (Runs.along_append.mp h).2.1
  rw [hallowed, hkey, PrefixTable.owner_assign, if_pos]
  exact List.mem_cons_of_mem _ hp

theorem served_iff (config : FabricConfig) (registry : PeerRegistry)
    {clients : String → Address → Prop} (hclients : ∀ k c, clients k c → Private c)
    {cs : List Call} (h : Runs.Along call Succeeds (init config registry) cs) :
    Served clients (Runs.exec call (init config registry) cs) ↔
      ∀ c ∈ cs, ∀ c' ∈ cs, c.publicKey.getD "" = c'.publicKey.getD "" := by
  constructor
  · intro hserved
    rcases List.eq_nil_or_concat cs with rfl | ⟨front, last, rfl⟩
    · simp
    · rw [List.concat_eq_append] at *
      have hlast : ∀ c ∈ front ++ [last], c.publicKey.getD "" = last.publicKey.getD "" := by
        intro c hc
        obtain ⟨a, ha⟩ := assigned_of_called h hc
        have hp : .ofAddress 32 (10 * 2 ^ 24) 8 ∈ rfc1918Ranges := List.mem_cons_self
        have howner := hserved.owns _ a ha _ (List.mem_cons_of_mem _ hp)
        rw [ranges_of_last h hp] at howner
        exact (Option.some.inj howner).symm
      intro c hc c' hc'
      rw [hlast c hc, hlast c' hc']
  · intro hsame
    rcases cs with _ | ⟨c, cs⟩
    · exact served_of_sole (sole_init config registry "") hclients
    · have hkeys : ∀ c' ∈ c :: cs, c'.publicKey.getD "" = c.publicKey.getD "" :=
        fun c' hc' => hsame c' hc' c List.mem_cons_self
      exact served_of_sole (Runs.exec_of_along (P := Sole (c.publicKey.getD ""))
        (fun s d hd hs hok => sole_call hs hok (hkeys d hd)) h (sole_init config registry _))
        hclients

def demoFabric : Fleet :=
  init ⟨"fabric.example:51820", "admin", "secret"⟩ ⟨tunnelPool, .missing⟩

def registers (publicKey : String) : Call where
  authorization := some ("admin", "secret")
  version := some "0.1.0"
  publicKey := some publicKey
  setup := .ok ()
  set := .ok ()
  fabricKey := .ok "fabric"

/-- Two houses with a client each, on subnets of their own. -/
def houses (publicKey : String) (c : Address) : Prop :=
  (publicKey, c) ∈ [("first", 192 * 2 ^ 24 + 168 * 2 ^ 16 + 2 ^ 8 + 10),
    ("second", 192 * 2 ^ 24 + 168 * 2 ^ 16 + 2 * 2 ^ 8 + 10)]

theorem houses_private (h : houses k c) : Private c := by
  have hlast : Prefix.ofAddress 32 (192 * 2 ^ 24 + 168 * 2 ^ 16) 16 ∈ rfc1918Ranges := by decide
  refine ⟨_, hlast, ?_⟩
  simp only [houses, List.mem_cons, Prod.mk.injEq, List.not_mem_nil, or_false] at h
  rcases h with ⟨-, rfl⟩ | ⟨-, rfl⟩
  · decide
  · decide

theorem served_alone :
    Served houses (Runs.exec call demoFabric [registers "first", registers "first"]) :=
  (served_iff _ _ (fun _ _ => houses_private)
    (show Runs.Along call Succeeds demoFabric [registers "first", registers "first"] from
      ⟨by decide, by decide, trivial⟩)).mpr (by simp)

/-- The second appliance takes the private ranges from the first one. -/
theorem first_unserved :
    Runs.Along call Succeeds demoFabric [registers "first", registers "second"] ∧
      ¬ Served houses (Runs.exec call demoFabric [registers "first", registers "second"]) := by
  refine ⟨⟨by decide, by decide, trivial⟩, fun h => ?_⟩
  have hreached := h.reached "first" (10 * 2 ^ 24 + 99 * 2 ^ 16 + 2) (by decide)
    (192 * 2 ^ 24 + 168 * 2 ^ 16 + 2 ^ 8 + 10) (by simp [houses])
  exact absurd hreached.1 (by decide)

-- ---------------------------------------------------------------------------
-- What is kept
-- ---------------------------------------------------------------------------

/-- Tunnel addresses are the appliances' own, one each. -/
structure Addressed (s : Fleet) : Prop where
  distinct : s.app.registry.Distinct
  filed : ∀ k a, s.assigned.get? k = some (k, a) → s.app.registry.load.get? k = some (k, a)
  owns : ∀ k a, s.assigned.get? k = some (k, a) →
    s.app.wireguard.allowed.owner (.host 32 a) = some k

theorem host_mem_allowedIps : Prefix.host 32 a ∈ FabricWireGuard.allowedIps b ↔ a = b := by
  have hranges : Prefix.host 32 a ∉ rfc1918Ranges := by
    simp [rfc1918Ranges, Prefix.host_eq, Prefix.ofAddress]
  simp [FabricWireGuard.allowedIps, hranges, Prefix.host_inj]

theorem addressed_call {s : Fleet} (hs : Addressed s) (h : s.Succeeds c) :
    Addressed (s.call c) := by
  obtain ⟨p, -, halloc, hassigned, hallowed, -⟩ := call_ok h
  have hfile := PeerRegistry.get?_allocate halloc
  refine ⟨PeerRegistry.allocate_distinct hs.distinct halloc, fun k a hk => ?_, fun k a hk => ?_⟩
  · rw [hassigned, Keyed.get?_put] at hk
    rw [hfile]
    split at hk
    · rename_i hpk
      rw [if_pos hpk, hk]
    · rename_i hpk
      exact (if_neg hpk).trans (hs.filed k a hk)
  · rw [hallowed, PrefixTable.owner_assign]
    rw [hassigned, Keyed.get?_put] at hk
    split at hk
    · rename_i hpk
      obtain ⟨hkey, rfl⟩ := Prod.mk.inj (Option.some.inj hk)
      rw [if_pos (host_mem_allowedIps.mpr rfl), hkey]
    · rename_i hpk
      have hne : a ≠ p.address := by
        rintro rfl
        exact hpk (PeerRegistry.allocate_fresh hs.distinct halloc (hs.filed k _ hk)).symm
      rw [if_neg (mt host_mem_allowedIps.mp hne), hs.owns k a hk]
      exact Option.filter_eq_some_iff.mpr ⟨rfl, by simpa using Ne.symm hpk⟩

theorem addressed_run (config : FabricConfig) {registry : PeerRegistry} (hr : registry.Distinct)
    {cs : List Call} (h : Runs.Along call Succeeds (init config registry) cs) :
    Addressed (Runs.exec call (init config registry) cs) :=
  Runs.exec_of_along (fun _ _ _ hs hc => addressed_call hs hc) h
    ⟨hr, by simp [init], by simp [init]⟩

end Fleet

end Wifucked.Fabric
