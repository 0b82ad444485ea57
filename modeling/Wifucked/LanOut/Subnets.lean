import Wifucked.Discovery
import Wifucked.Lan.Config
import Wifucked.LanOut.Dhcp

/-!
# The subnets of the ports that serve

Each port that serves has a subnet of its own, found from its identity alone: the
third octet is the access point's plus an offset that a digest decides, and
255 at most. Nothing remembers which subnets are taken.
-/

namespace Wifucked

variable {K : Type}

def lanOutSubnetBase (address : String) : String × ℤ :=
  match Dotted.parts address with
  | [first, second, third, _] =>
    match parseOctet third with
    | none => ("10.44", 0)
    | some third => (String.ofList first ++ "." ++ String.ofList second, third)
  | _ => ("10.44", 0)

structure ServerCall where
  ifname : String
  thirdOctet : ℤ
  gateway : String

namespace LanOutClassifier

/-- The classifier of a daemon with this LAN address. -/
def ofAddress (address : String) : LanOutClassifier K :=
  init (lanOutSubnetBase address).1 (lanOutSubnetBase address).2

def gatewayFor (c : LanOutClassifier K) (atomicId : String) : String :=
  c.gatewayPrefix ++ "." ++ toString (subnetThirdOctet atomicId c.baseThirdOctet) ++ ".1"

def serverCall (c : LanOutClassifier K) (dhcp : DhcpHal) (a : Atomic K) : Option ServerCall :=
  (a.iface.filter fun ifname =>
    !dhcp.attemptClientLease ifname && !dhcp.passiveListenForForeignServer ifname).map fun ifname =>
      ⟨ifname, subnetThirdOctet a.id c.baseThirdOctet, c.gatewayFor a.id⟩

theorem role_runPipeline (c : LanOutClassifier K) (dhcp : DhcpHal) (a : Atomic K) :
    (c.runPipeline dhcp a).role = .lanOut ↔ ∃ call, c.serverCall dhcp a = some call ∧
      dhcp.startServer call.ifname call.thirdOctet call.gateway = true := by
  unfold runPipeline serverCall
  cases a.iface with
  | none => simp
  | some ifname =>
    cases hl : dhcp.attemptClientLease ifname with
    | true => simp [hl, Option.filter]
    | false =>
      cases hp : dhcp.passiveListenForForeignServer ifname with
      | true => simp [hl, hp, Option.filter]
      | false =>
        simp only [hl, hp, Bool.false_eq_true, if_false, Option.filter, Bool.not_false,
          Bool.and_self, if_true, Option.map_some, Option.some.injEq, exists_eq_left', gatewayFor]
        split
        · simp_all
        · simp_all

end LanOutClassifier

-- ---------------------------------------------------------------------------
-- Subnets as texts
-- ---------------------------------------------------------------------------

def lanOutOffset (atomicId : String) : ℤ :=
  subnetOffset + Sha256.ofString ("lanout:" ++ atomicId) % subnetSpan

theorem lanOutOffset_bounds (atomicId : String) :
    50 ≤ lanOutOffset atomicId ∧ lanOutOffset atomicId < 200 := by
  simp only [lanOutOffset, subnetOffset, subnetSpan]
  omega

/-- The first two parts of an address and its third octet, if it is in four parts. -/
def quad (address : String) : Option (List Char × List Char × ℤ) :=
  match Dotted.parts address with
  | [first, second, third, _] => (parseOctet third).map fun base => (first, second, base)
  | _ => none

/-- What the subnets start from, the default where the address is in no four parts. -/
def lanOutBase (address : String) : List Char × List Char × ℤ :=
  (quad address).getD ("10".toList, "44".toList, 0)

def subnetText (first second : List Char) (third : ℤ) : String :=
  String.ofList first ++ "." ++ String.ofList second ++ "." ++ toString third

theorem lanOutSubnetBase_eq (address : String) : lanOutSubnetBase address =
    (String.ofList (lanOutBase address).1 ++ "." ++ String.ofList (lanOutBase address).2.1,
      (lanOutBase address).2.2) := by
  unfold lanOutSubnetBase lanOutBase quad
  split
  · rename_i first second third last hparts
    cases parseOctet third <;> rfl
  · rfl

theorem point_not_mem_lanOutBase (address : String) :
    '.' ∉ (lanOutBase address).1 ∧ '.' ∉ (lanOutBase address).2.1 := by
  unfold lanOutBase quad
  split
  · rename_i first second third last hparts
    have hpoint : ∀ part ∈ [first, second, third, last], '.' ∉ part := by
      rw [← hparts]
      exact fun part => Dotted.point_not_mem
    cases parseOctet third with
    | none => simp
    | some base => exact ⟨hpoint first (by simp), hpoint second (by simp)⟩
  · simp

section

variable {first second : List Char} (hfirst : '.' ∉ first) (hsecond : '.' ∉ second)

include hfirst hsecond

theorem parts_subnetText (third : ℤ) :
    Dotted.parts (subnetText first second third) = [first, second, (toString third).toList] := by
  have htext : (subnetText first second third).toList =
      first ++ '.' :: (second ++ '.' :: (toString third).toList) := by simp [subnetText]
  rw [Dotted.parts, htext, List.splitOn_append_cons_self_of_not_mem hfirst,
    List.splitOn_append_cons_self_of_not_mem hsecond,
    List.splitOn_eq_singleton (Dotted.point_not_mem_toString third)]

theorem parts_gateway (third : ℤ) : Dotted.parts (subnetText first second third ++ ".1") =
    [first, second, (toString third).toList, ['1']] := by
  have htext : (subnetText first second third ++ ".1").toList =
      first ++ '.' :: (second ++ '.' :: ((toString third).toList ++ '.' :: ['1'])) := by
    simp [subnetText]
  rw [Dotted.parts, htext, List.splitOn_append_cons_self_of_not_mem hfirst,
    List.splitOn_append_cons_self_of_not_mem hsecond,
    List.splitOn_append_cons_self_of_not_mem (Dotted.point_not_mem_toString third),
    List.splitOn_eq_singleton (by simp)]

theorem subnetOf_gateway (third : ℤ) : LinuxDhcp.subnetOf (subnetText first second third ++ ".1") =
    subnetText first second third := by
  have hparts := parts_gateway hfirst hsecond third
  rw [Dotted.parts] at hparts
  rw [LinuxDhcp.subnetOf, hparts]
  rw [← String.toList_inj]
  simp [subnetText]

theorem subnetText_inj {first' second' : List Char} {third third' : ℤ} (hfirst' : '.' ∉ first')
    (hsecond' : '.' ∉ second') : subnetText first second third = subnetText first' second' third' ↔
      first = first' ∧ second = second' ∧ third = third' := by
  constructor
  · intro h
    have hparts := congrArg Dotted.parts h
    rw [parts_subnetText hfirst hsecond, parts_subnetText hfirst' hsecond'] at hparts
    simp only [List.cons.injEq, and_true] at hparts
    exact ⟨hparts.1, hparts.2.1, Dotted.toString_injective (String.toList_inj.mp hparts.2.2)⟩
  · rintro ⟨rfl, rfl, rfl⟩
    rfl

theorem address_gateway (third : ℤ) : Dotted.Address (subnetText first second third ++ ".1") ↔
    Dotted.Octet first ∧ Dotted.Octet second ∧ 0 ≤ third ∧ third ≤ 255 := by
  have hone : Dotted.Octet ['1'] := ⟨1, by decide, rfl⟩
  rw [Dotted.Address, parts_gateway hfirst hsecond, ← Dotted.octet_toString third]
  simp [hone]

end

theorem lanSubnet_eq_ok {address subnet : String} {index : ℕ} :
    lanSubnet address index = .ok subnet ↔ ∃ first second third rest t,
      Dotted.parts address = first :: second :: third :: rest ∧ parseOctet third = some t ∧
        subnet = subnetText first second (t + index) := by
  unfold lanSubnet
  split
  · rename_i first second third rest hparts
    simp only [hparts, List.cons.injEq]
    constructor
    · intro h
      split at h
      · cases h
      · rename_i t ht
        exact ⟨first, second, third, rest, t, ⟨rfl, rfl, rfl, rfl⟩, ht, (Except.ok.inj h).symm⟩
    · rintro ⟨_, _, _, _, t, ⟨rfl, rfl, rfl, rfl⟩, ht, rfl⟩
      rw [ht]
      rfl
  · rename_i hparts
    constructor
    · intro h
      cases h
    · rintro ⟨first, second, third, rest, t, h, -⟩
      exact absurd h (hparts first second third rest)

-- ---------------------------------------------------------------------------
-- Ports that serve at the same time
-- ---------------------------------------------------------------------------

/-- The subnets behind these gateways do not collide. -/
structure Collisionless (lanMode address : String) (gateways : List String) : Prop where
  distinct : (gateways.map LinuxDhcp.subnetOf).Nodup
  valid : ∀ gateway ∈ gateways, Dotted.Address gateway
  apart : ∀ gateway ∈ gateways, ∀ index < (profilesForLanMode lanMode).length,
    lanSubnet address index ≠ .ok (LinuxDhcp.subnetOf gateway)

/-- The subnets that the ports of these identities are led to do not run into
one another, into 255 or into the access point's. -/
structure Roomy (lanMode address : String) (ids : List String) : Prop where
  offsets : ∀ i ∈ ids, ∀ j ∈ ids, lanOutOffset i = lanOutOffset j → i = j
  /-- One at most is cut off at 255. -/
  clamped : ∀ i ∈ ids, ∀ j ∈ ids, 255 ≤ (lanOutBase address).2.2 + lanOutOffset i →
    255 ≤ (lanOutBase address).2.2 + lanOutOffset j → i = j
  octets : ∀ i ∈ ids, Dotted.Octet (lanOutBase address).1 ∧
    Dotted.Octet (lanOutBase address).2.1 ∧ 0 ≤ (lanOutBase address).2.2 + lanOutOffset i
  /-- The subnet 255 is not the access point's. -/
  top : ∀ first second base, quad address = some (first, second, base) →
    ∀ i ∈ ids, 255 ≤ base + lanOutOffset i →
      base + (profilesForLanMode lanMode).length ≤ 255 ∨ 255 < base
  /-- Where the address is in no four parts, its first three may still be in the
  default range. -/
  fallback : quad address = none → ∀ third rest t,
    Dotted.parts address = "10".toList :: "44".toList :: third :: rest →
      parseOctet third = some t → ∀ i ∈ ids,
        lanOutOffset i < t ∨ t + (profilesForLanMode lanMode).length ≤ lanOutOffset i

def lanOutThird (address atomicId : String) : ℤ :=
  min 255 ((lanOutBase address).2.2 + lanOutOffset atomicId)

theorem gatewayFor_ofAddress (address atomicId : String) :
    (LanOutClassifier.ofAddress address : LanOutClassifier K).gatewayFor atomicId =
      subnetText (lanOutBase address).1 (lanOutBase address).2.1 (lanOutThird address atomicId) ++
        ".1" := by
  simp only [LanOutClassifier.gatewayFor, LanOutClassifier.ofAddress, LanOutClassifier.init,
    lanOutSubnetBase_eq, subnetText]
  rfl

theorem length_profilesForLanMode (lanMode : String) :
    (profilesForLanMode lanMode).length ≤ 2 := by
  unfold profilesForLanMode
  split <;> simp [singleLanProfiles, defaultProfiles]

theorem lanOutThird_eq_iff {address i j : String} : lanOutThird address i = lanOutThird address j ↔
    lanOutOffset i = lanOutOffset j ∨ 255 ≤ (lanOutBase address).2.2 + lanOutOffset i ∧
      255 ≤ (lanOutBase address).2.2 + lanOutOffset j := by
  unfold lanOutThird
  omega

theorem quad_eq_some {address : String} : quad address = some (first, second, base) ↔
    ∃ third last, Dotted.parts address = [first, second, third, last] ∧
      parseOctet third = some base := by
  unfold quad
  split
  · rename_i first' second' third last hparts
    simp only [hparts, Option.map_eq_some_iff, List.cons.injEq, and_true]
    constructor
    · rintro ⟨t, ht, heq⟩
      obtain ⟨rfl, rfl, rfl⟩ := heq
      exact ⟨third, last, ⟨rfl, rfl, rfl, rfl⟩, ht⟩
    · rintro ⟨third', last', ⟨rfl, rfl, rfl, rfl⟩, ht⟩
      exact ⟨base, ht, rfl⟩
  · rename_i hparts
    constructor
    · intro h
      cases h
    · rintro ⟨third, last, h, -⟩
      exact absurd h (hparts first second third last)

theorem lanSubnet_of_quad {address : String} (h : quad address = some (first, second, base))
    (index : ℕ) : lanSubnet address index = .ok (subnetText first second (base + index)) := by
  obtain ⟨third, last, hparts, ht⟩ := quad_eq_some.mp h
  exact lanSubnet_eq_ok.mpr ⟨first, second, third, [last], base, hparts, ht, rfl⟩

theorem lanOutBase_of_quad {address : String} (h : quad address = some (first, second, base)) :
    lanOutBase address = (first, second, base) := by
  rw [lanOutBase, h]
  rfl

theorem lanOutBase_default {address : String} (h : quad address = none) :
    lanOutBase address = ("10".toList, "44".toList, 0) := by
  rw [lanOutBase, h]
  rfl

theorem apart_iff_top (lanMode : String) {address : String}
    (hquad : quad address = some (first, second, base)) (atomicId : String) :
    (∀ index < (profilesForLanMode lanMode).length,
      lanSubnet address index ≠ .ok (subnetText first second (lanOutThird address atomicId))) ↔
    (255 ≤ base + lanOutOffset atomicId →
      base + (profilesForLanMode lanMode).length ≤ 255 ∨ 255 < base) := by
  have hbase := lanOutBase_of_quad hquad
  obtain ⟨hfirst, hsecond⟩ := point_not_mem_lanOutBase address
  rw [hbase] at hfirst hsecond
  have heq : ∀ index : ℕ,
      lanSubnet address index = .ok (subnetText first second (lanOutThird address atomicId)) ↔
        base + index = min 255 (base + lanOutOffset atomicId) := by
    intro index
    rw [lanSubnet_of_quad hquad, Except.ok.injEq,
      subnetText_inj hfirst hsecond hfirst hsecond, lanOutThird, hbase]
    simp
  have hlen := length_profilesForLanMode lanMode
  have hbounds := lanOutOffset_bounds atomicId
  simp only [ne_eq, heq]
  generalize (profilesForLanMode lanMode).length = n at *
  constructor
  · intro h hclamped
    by_contra hno
    exact h (255 - base).toNat (by omega) (by omega)
  · intro h index hindex heq
    have hindex' : (index : ℤ) < n := by exact_mod_cast hindex
    omega

theorem apart_iff_fallback (lanMode : String) {address : String} (hquad : quad address = none)
    (atomicId : String) :
    (∀ index < (profilesForLanMode lanMode).length, lanSubnet address index ≠
      .ok (subnetText "10".toList "44".toList (lanOutThird address atomicId))) ↔
    ∀ third rest t, Dotted.parts address = "10".toList :: "44".toList :: third :: rest →
      parseOctet third = some t →
        lanOutOffset atomicId < t ∨
          t + (profilesForLanMode lanMode).length ≤ lanOutOffset atomicId := by
  have hthird : lanOutThird address atomicId = lanOutOffset atomicId := by
    have hbounds := lanOutOffset_bounds atomicId
    simp only [lanOutThird, lanOutBase, hquad, Option.getD_none]
    omega
  rw [hthird]
  constructor
  · intro h third rest t hparts ht
    by_contra hno
    refine h (lanOutOffset atomicId - t).toNat (by omega) ?_
    refine lanSubnet_eq_ok.mpr ⟨_, _, third, rest, t, hparts, ht, ?_⟩
    rw [show t + ((lanOutOffset atomicId - t).toNat : ℤ) = lanOutOffset atomicId by omega]
  · intro h index hindex hok
    obtain ⟨first, second, third, rest, t, hparts, ht, heq⟩ := lanSubnet_eq_ok.mp hok
    have hpoint : ∀ part ∈ Dotted.parts address, '.' ∉ part := fun part => Dotted.point_not_mem
    rw [hparts] at hpoint
    obtain ⟨rfl, rfl, hoffset⟩ := (subnetText_inj (by decide) (by decide)
      (hpoint first (by simp)) (hpoint second (by simp))).mp heq
    have := h third rest t hparts ht
    omega

theorem map_gateway_serverCall {c : LanOutClassifier K} {dhcp : DhcpHal}
    {atomics : List (Atomic K)} (h : ∀ a ∈ atomics, (c.runPipeline dhcp a).role = .lanOut) :
    (atomics.filterMap (c.serverCall dhcp)).map (·.gateway) =
      (atomics.map (·.id)).map c.gatewayFor := by
  induction atomics with
  | nil => rfl
  | cons a atomics ih =>
    obtain ⟨ha, h⟩ := List.forall_mem_cons.mp h
    obtain ⟨call, hcall, -⟩ := (c.role_runPipeline dhcp a).mp ha
    have hgateway : call.gateway = c.gatewayFor a.id := by
      obtain ⟨ifname, -, rfl⟩ := Option.map_eq_some_iff.mp hcall
      rfl
    simp [hcall, hgateway, ih h]

/-- What apartness from the access point's subnets comes to, for an address that
is in four parts and for one that is not. -/
theorem apart_lanSubnets_iff (lanMode address atomicId : String) :
    (∀ index < (profilesForLanMode lanMode).length, lanSubnet address index ≠
      .ok (subnetText (lanOutBase address).1 (lanOutBase address).2.1
        (lanOutThird address atomicId))) ↔
    (∀ first second base, quad address = some (first, second, base) →
      255 ≤ base + lanOutOffset atomicId →
        base + (profilesForLanMode lanMode).length ≤ 255 ∨ 255 < base) ∧
    (quad address = none → ∀ third rest t,
      Dotted.parts address = "10".toList :: "44".toList :: third :: rest →
        parseOctet third = some t → lanOutOffset atomicId < t ∨
          t + (profilesForLanMode lanMode).length ≤ lanOutOffset atomicId) := by
  cases hquad : quad address with
  | none =>
    rw [lanOutBase_default hquad, apart_iff_fallback lanMode hquad atomicId]
    simp
  | some q =>
    obtain ⟨first, second, base⟩ := q
    rw [lanOutBase_of_quad hquad, apart_iff_top lanMode hquad atomicId]
    simp only [Option.some.injEq, Prod.mk.injEq, reduceCtorEq, false_implies, and_true]
    constructor
    · rintro h _ _ _ ⟨rfl, rfl, rfl⟩
      exact h
    · intro h
      exact h first second base ⟨rfl, rfl, rfl⟩

theorem subnetOf_gatewayFor (address atomicId : String) :
    LinuxDhcp.subnetOf
      ((LanOutClassifier.ofAddress address : LanOutClassifier K).gatewayFor atomicId) =
    subnetText (lanOutBase address).1 (lanOutBase address).2.1 (lanOutThird address atomicId) := by
  obtain ⟨hfirst, hsecond⟩ := point_not_mem_lanOutBase address
  rw [gatewayFor_ofAddress, subnetOf_gateway hfirst hsecond]

theorem address_gatewayFor (address atomicId : String) :
    Dotted.Address
      ((LanOutClassifier.ofAddress address : LanOutClassifier K).gatewayFor atomicId) ↔
    Dotted.Octet (lanOutBase address).1 ∧ Dotted.Octet (lanOutBase address).2.1 ∧
      0 ≤ (lanOutBase address).2.2 + lanOutOffset atomicId := by
  obtain ⟨hfirst, hsecond⟩ := point_not_mem_lanOutBase address
  rw [gatewayFor_ofAddress, address_gateway hfirst hsecond, lanOutThird]
  simp

theorem nodup_gateways_iff (address : String) {ids : List String} (hids : ids.Nodup) :
    ((ids.map (LanOutClassifier.ofAddress address : LanOutClassifier K).gatewayFor).map
      LinuxDhcp.subnetOf).Nodup ↔
    ∀ i ∈ ids, ∀ j ∈ ids, lanOutThird address i = lanOutThird address j → i = j := by
  obtain ⟨hfirst, hsecond⟩ := point_not_mem_lanOutBase address
  rw [List.map_map, List.nodup_map_iff_inj_on hids]
  simp only [Function.comp_apply, subnetOf_gatewayFor,
    subnetText_inj hfirst hsecond hfirst hsecond, true_and]

theorem collisionless_gateways_iff (lanMode address : String) {ids : List String}
    (hids : ids.Nodup) :
    Collisionless lanMode address
      (ids.map (LanOutClassifier.ofAddress address : LanOutClassifier K).gatewayFor) ↔
    Roomy lanMode address ids := by
  constructor
  · rintro ⟨hdistinct, hvalid, hapart⟩
    rw [nodup_gateways_iff address hids] at hdistinct
    simp only [List.forall_mem_map, address_gatewayFor] at hvalid
    simp only [List.forall_mem_map, subnetOf_gatewayFor, apart_lanSubnets_iff] at hapart
    constructor
    · intro i hi j hj h
      exact hdistinct i hi j hj (lanOutThird_eq_iff.mpr (.inl h))
    · intro i hi j hj h h'
      exact hdistinct i hi j hj (lanOutThird_eq_iff.mpr (.inr ⟨h, h'⟩))
    · exact hvalid
    · intro first second base hquad i hi
      exact (hapart i hi).1 first second base hquad
    · intro hquad third rest t hparts ht i hi
      exact (hapart i hi).2 hquad third rest t hparts ht
  · rintro ⟨hoffsets, hclamped, hoctets, htop, hfallback⟩
    constructor
    · refine (nodup_gateways_iff address hids).mpr fun i hi j hj h => ?_
      rcases lanOutThird_eq_iff.mp h with h | ⟨h, h'⟩
      · exact hoffsets i hi j hj h
      · exact hclamped i hi j hj h h'
    · simpa only [List.forall_mem_map, address_gatewayFor] using hoctets
    · simp only [List.forall_mem_map, subnetOf_gatewayFor, apart_lanSubnets_iff]
      intro i hi
      exact ⟨fun first second base hquad => htop first second base hquad i hi,
        fun hquad third rest t hparts ht => hfallback hquad third rest t hparts ht i hi⟩

def twoAdapters : List (Atomic ℤ) :=
  discoverUsb
    [⟨"0bda", "8153", some "000002", "1-1.1", some "eth1", false, "USB 10/100/1000 LAN"⟩,
      ⟨"0bda", "8153", some "000004", "1-1.2", some "eth2", false, "USB 10/100/1000 LAN"⟩]
    fun _ => true

def quietPorts : DhcpHal := ⟨fun _ => false, fun _ => false, fun _ _ _ => true⟩

theorem lanOutBase_defaultAddress : lanOutBase "10.44.0.1" = ("10".toList, "44".toList, 0) := by
  decide +kernel

theorem adapter_in_lastSubnet :
    (∀ a ∈ twoAdapters.take 1,
        ((LanOutClassifier.ofAddress "10.44.255.1").runPipeline quietPorts a).role = .lanOut) ∧
      ¬Collisionless "single" "10.44.255.1"
        (((twoAdapters.take 1).filterMap
          ((LanOutClassifier.ofAddress "10.44.255.1").serverCall quietPorts)).map (·.gateway)) := by
  have hserving : ∀ a ∈ twoAdapters.take 1,
      ((LanOutClassifier.ofAddress "10.44.255.1").runPipeline quietPorts a).role = .lanOut := by
    decide +kernel
  have hids : (twoAdapters.take 1).map (·.id) = ["usbeth:a1fa64dcac"] := by decide +kernel
  refine ⟨hserving, fun h => ?_⟩
  rw [map_gateway_serverCall hserving, hids,
    collisionless_gateways_iff "single" "10.44.255.1" (by simp)] at h
  have hquad : quad "10.44.255.1" = some ("10".toList, "44".toList, 255) := by decide +kernel
  have hbounds := lanOutOffset_bounds "usbeth:a1fa64dcac"
  have hlen : (profilesForLanMode "single").length = 1 := rfl
  have htop := h.top _ _ _ hquad "usbeth:a1fa64dcac" (by simp) (by omega)
  omega

/-- Two ports that are led to one subnet, in the network that is the default. -/
theorem adapters_in_oneSubnet :
    (∀ a ∈ twoAdapters,
        ((LanOutClassifier.ofAddress "10.44.0.1").runPipeline quietPorts a).role = .lanOut) ∧
      (twoAdapters.map (·.id)).Nodup ∧
      ¬Collisionless "single" "10.44.0.1"
        ((twoAdapters.filterMap
          ((LanOutClassifier.ofAddress "10.44.0.1").serverCall quietPorts)).map (·.gateway)) := by
  have hserving : ∀ a ∈ twoAdapters,
      ((LanOutClassifier.ofAddress "10.44.0.1").runPipeline quietPorts a).role = .lanOut := by
    decide +kernel
  have hids : twoAdapters.map (·.id) = ["usbeth:a1fa64dcac", "usbeth:462ee0eb59"] := by
    decide +kernel
  refine ⟨hserving, by simp [hids], fun h => ?_⟩
  rw [map_gateway_serverCall hserving, hids,
    collisionless_gateways_iff "single" "10.44.0.1" (by simp)] at h
  have hsame : lanOutOffset "usbeth:a1fa64dcac" = lanOutOffset "usbeth:462ee0eb59" := by
    decide +kernel
  have heq := h.offsets "usbeth:a1fa64dcac" (by simp) "usbeth:462ee0eb59" (by simp) hsame
  simp at heq

end Wifucked
