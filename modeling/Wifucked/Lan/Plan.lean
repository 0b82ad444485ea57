import Wifucked.Lib.Prefixes
import Wifucked.LanOut.Subnets

/-!
# The address plan of the LAN

Each class has an interface that networkd gives an address to, and a range that
dnsmasq serves on it. All names lead to the address of the configuration. None
of the texts says how wide a subnet is but networkd's.
-/

namespace Wifucked

-- ---------------------------------------------------------------------------
-- What is rendered
-- ---------------------------------------------------------------------------

structure LanUnit where
  ifname : String
  address : String
  prefixLen : ℕ
  deriving DecidableEq, Repr

structure LanRange where
  low : String
  high : String
  gateway : String
  deriving DecidableEq, Repr

def LanUnit.text (profile : ServiceProfile) (u : LanUnit) : String :=
  "# Generated at first boot. Static gateway address for the " ++ profile.name ++ "\n" ++
  "# VLAN subinterface (ADR-011: independent of the daemon, matched by name).\n" ++
  "[Match]\n" ++
  "Name=" ++ u.ifname ++ "\n" ++
  "\n" ++
  "[Network]\n" ++
  "Address=" ++ u.address ++ "/" ++ toString u.prefixLen ++ "\n" ++
  "DHCP=no\n" ++
  "IPv6AcceptRA=no\n" ++
  "LinkLocalAddressing=no\n" ++
  "ConfigureWithoutCarrier=yes\n"

def LanRange.text (profile : ServiceProfile) (r : LanRange) : String :=
  "dhcp-range=set:" ++ profile.ssidSuffix ++ "," ++ r.low ++ "," ++ r.high ++
    ",255.255.255.0,12h\n" ++
  "dhcp-option=tag:" ++ profile.ssidSuffix ++ ",3," ++ r.gateway ++ "\n"

def rangesText : List ServiceProfile → List LanRange → String
  | profile :: profiles, range :: ranges => range.text profile ++ rangesText profiles ranges
  | _, _ => ""

def networkdUnit (config : LanConfig) (profile : ServiceProfile) (index : ℕ)
    (lanMode baseInterface : String) : Except AddressError LanUnit :=
  (lanSubnet config.address index).map fun subnet =>
    ⟨lanIfnameForProfile profile lanMode baseInterface, subnet ++ ".1", config.prefixLen⟩

def networkdUnits (config : LanConfig) (lanMode baseInterface : String) :
    ℕ → List ServiceProfile → Except AddressError (List LanUnit)
  | _, [] => .ok []
  | index, profile :: profiles =>
    match networkdUnit config profile index lanMode baseInterface with
    | .error e => .error e
    | .ok u => (networkdUnits config lanMode baseInterface (index + 1) profiles).map (u :: ·)

def dnsmasqRangesOf (address : String) :
    ℕ → List ServiceProfile → Except AddressError (List LanRange)
  | _, [] => .ok []
  | index, _ :: profiles =>
    match lanSubnet address index with
    | .error e => .error e
    | .ok subnet =>
      (dnsmasqRangesOf address (index + 1) profiles).map
        (⟨subnet ++ ".50", subnet ++ ".200", subnet ++ ".1"⟩ :: ·)

theorem append_suffix {suffix next both : String} (h : suffix ++ next = both)
    (text subnet : String) : text ++ (subnet ++ suffix) ++ next = text ++ subnet ++ both := by
  rw [← h]
  simp only [String.append_assoc]

theorem map_ok {α β : Type} (f : α → β) (a : α) :
    Except.map f (.ok a : Except AddressError α) = .ok (f a) := rfl

theorem networkdConfig_eq (config : LanConfig) (profile : ServiceProfile) (index : ℕ)
    (lanMode baseInterface : String) :
    networkdConfig config profile index lanMode baseInterface =
      (networkdUnit config profile index lanMode baseInterface).map (LanUnit.text profile) := by
  have hslash : ".1" ++ "/" = ".1/" := by simp only [String.reduceAppend]
  rw [networkdConfig, networkdUnit]
  cases lanSubnet config.address index with
  | error e => rfl
  | ok subnet =>
    rewrite [map_ok, map_ok, map_ok]
    unfold LanUnit.text
    with_reducible rw [append_suffix hslash]

theorem dnsmasqRange_eq (profile : ServiceProfile) (subnet : String) :
    dnsmasqRange profile subnet =
      LanRange.text profile ⟨subnet ++ ".50", subnet ++ ".200", subnet ++ ".1"⟩ := by
  have hcomma : ".50" ++ "," = ".50," := by simp only [String.reduceAppend]
  have hmask : ".200" ++ ",255.255.255.0,12h\n" = ".200,255.255.255.0,12h\n" := by
    simp only [String.reduceAppend]
  have hend : ".1" ++ "\n" = ".1\n" := by simp only [String.reduceAppend]
  unfold dnsmasqRange LanRange.text
  with_reducible rw [append_suffix hcomma, append_suffix hmask, append_suffix hend]

theorem dnsmasqRanges_eq (address : String) (index : ℕ) (profiles : List ServiceProfile) :
    dnsmasqRanges address index profiles =
      (dnsmasqRangesOf address index profiles).map (rangesText profiles) := by
  induction profiles generalizing index with
  | nil => rfl
  | cons profile profiles ih =>
    unfold dnsmasqRanges dnsmasqRangesOf
    cases lanSubnet address index with
    | error e => rfl
    | ok subnet =>
      simp only [ih]
      cases dnsmasqRangesOf address (index + 1) profiles with
      | error e => rfl
      | ok ranges => exact congrArg Except.ok (congrArg (· ++ _) (dnsmasqRange_eq profile subnet))

-- ---------------------------------------------------------------------------
-- Consistency
-- ---------------------------------------------------------------------------

/-- The subnet of an interface, where its address and prefix make one. -/
def LanUnit.net (u : LanUnit) : Option (Prefix 32) :=
  if u.prefixLen ≤ 32 then (Dotted.number u.address).map fun a => .ofAddress 32 a u.prefixLen
  else none

def LanUnit.Serves (u : LanUnit) (r : LanRange) : Prop :=
  ∃ net ∈ u.net, ∃ low ∈ Dotted.number r.low, ∃ high ∈ Dotted.number r.high,
    ∀ a, low ≤ a → a ≤ high → net.Covers a

def LanUnit.Apart (u v : LanUnit) : Prop :=
  ∀ p ∈ u.net, ∀ q ∈ v.net, ¬∃ a, p.Covers a ∧ q.Covers a

structure ConsistentPlan (wildcard : String) (units : List LanUnit) (ranges : List LanRange) :
    Prop where
  gateways : units.map (·.address) = ranges.map (·.gateway)
  answered : wildcard ∈ units.map (·.address)
  served : ∀ p ∈ units.zip ranges, p.1.Serves p.2
  valid : ∀ text ∈ wildcard :: units.map (·.address) ++
    ranges.flatMap fun r => [r.low, r.high, r.gateway], Dotted.Address text
  disjoint : units.Pairwise LanUnit.Apart

/-- The address is the first one of a subnet, no class has one beyond 255, and the
prefix holds a range and keeps the classes apart. -/
def PlanFits (config : LanConfig) (lanMode : String) : Prop :=
  ∃ first second third : ℕ, first ≤ 255 ∧ second ≤ 255 ∧
    config.address =
      toString first ++ "." ++ toString second ++ "." ++ toString third ++ ".1" ∧
    third + (profilesForLanMode lanMode).length ≤ 256 ∧ config.prefixLen ≤ 24 ∧
    (lanMode ≠ "single" → 2 ^ (24 - config.prefixLen) ∣ third + 1)

-- ---------------------------------------------------------------------------
-- Addresses of a class
-- ---------------------------------------------------------------------------

section

variable {first second : List Char} (hfirst : '.' ∉ first) (hsecond : '.' ∉ second)

include hfirst hsecond

theorem parts_host (third : ℤ) (host : ℕ) {suffix : String}
    (hsuffix : suffix.toList = '.' :: (toString (host : ℤ)).toList) :
    Dotted.parts (subnetText first second third ++ suffix) =
      [first, second, (toString third).toList, (toString (host : ℤ)).toList] := by
  have htext : (subnetText first second third ++ suffix).toList = first ++ '.' :: (second ++
      '.' :: ((toString third).toList ++ '.' :: (toString (host : ℤ)).toList)) := by
    simp [subnetText, hsuffix]
  rw [Dotted.parts, htext, List.splitOn_append_cons_self_of_not_mem hfirst,
    List.splitOn_append_cons_self_of_not_mem hsecond,
    List.splitOn_append_cons_self_of_not_mem (Dotted.point_not_mem_toString third),
    List.splitOn_eq_singleton (Dotted.point_not_mem_toString host)]

theorem address_host (third : ℤ) {host : ℕ} (hhost : host ≤ 255) {suffix : String}
    (hsuffix : suffix.toList = '.' :: (toString (host : ℤ)).toList) :
    Dotted.Address (subnetText first second third ++ suffix) ↔
      Dotted.Octet first ∧ Dotted.Octet second ∧ 0 ≤ third ∧ third ≤ 255 := by
  have hlast : Dotted.Octet (toString (host : ℤ)).toList := ⟨host, hhost, rfl⟩
  rw [Dotted.Address, parts_host hfirst hsecond third host hsuffix, ← Dotted.octet_toString third]
  simp only [List.forall_mem_cons, List.not_mem_nil, IsEmpty.forall_iff, implies_true, and_true,
    hlast, List.length_cons, List.length_nil, true_and]

end

theorem suffixes : (".1".toList = '.' :: (toString ((1 : ℕ) : ℤ)).toList) ∧
    (".50".toList = '.' :: (toString ((50 : ℕ) : ℤ)).toList) ∧
      (".200".toList = '.' :: (toString ((200 : ℕ) : ℤ)).toList) := by
  decide

theorem octetValue_toString {n : ℕ} (h : n ≤ 255) :
    Dotted.octetValue (toString (n : ℤ)).toList = some n :=
  Dotted.octetValue_eq_some.mpr ⟨h, rfl⟩

def subnetNumber (a b c : ℕ) : ℕ := (a * 256 + b) * 256 + c

theorem number_host {a b c host : ℕ} (ha : a ≤ 255) (hb : b ≤ 255) (hc : c ≤ 255)
    (hhost : host ≤ 255) {suffix : String}
    (hsuffix : suffix.toList = '.' :: (toString (host : ℤ)).toList) :
    Dotted.number (subnetText (toString (a : ℤ)).toList (toString (b : ℤ)).toList c ++ suffix) =
      some (subnetNumber a b c * 256 + host) :=
  Dotted.number_of_parts (parts_host (Dotted.point_not_mem_toString a)
    (Dotted.point_not_mem_toString b) c host hsuffix) (octetValue_toString ha)
    (octetValue_toString hb) (octetValue_toString hc) (octetValue_toString hhost)

theorem host_div {n : ℕ} (hn : n ≤ 24) (subnet : ℕ) {host : ℕ} (hhost : host < 256) :
    (subnet * 256 + host) / 2 ^ (32 - n) = subnet / 2 ^ (24 - n) := by
  have hpow : 2 ^ (32 - n) = 256 * 2 ^ (24 - n) := by
    rw [show 32 - n = 8 + (24 - n) by omega, Nat.pow_add]
  rw [hpow, ← Nat.div_div_eq_div_mul]
  congr 1
  omega

theorem serves_iff {a b c n : ℕ} (ha : a ≤ 255) (hb : b ≤ 255) (hc : c ≤ 255) (ifname : String)
    (gateway : String) :
    let subnet := subnetText (toString (a : ℤ)).toList (toString (b : ℤ)).toList c
    (LanUnit.mk ifname (subnet ++ ".1") n).Serves ⟨subnet ++ ".50", subnet ++ ".200", gateway⟩ ↔
      n ≤ 24 := by
  intro subnet
  obtain ⟨h1, h50, h200⟩ := suffixes
  simp only [LanUnit.Serves, LanUnit.net, subnet, number_host ha hb hc (by decide : 1 ≤ 255) h1,
    number_host ha hb hc (by decide : 50 ≤ 255) h50,
    number_host ha hb hc (by decide : 200 ≤ 255) h200, Option.map_some]
  generalize subnetNumber a b c = block
  constructor
  · rintro ⟨net, hnet, low, hlow, high, hhigh, h⟩
    obtain rfl := Option.some.inj hlow
    obtain rfl := Option.some.inj hhigh
    split at hnet
    · obtain rfl := Option.some.inj hnet
      have hlow := Prefix.covers_ofAddress.mp (h (block * 256 + 50) le_rfl (by omega))
      have hhigh := Prefix.covers_ofAddress.mp (h (block * 256 + 200) (by omega) le_rfl)
      by_contra hn
      have hpow : 2 ^ (32 - n) ≤ 2 ^ 7 := Nat.pow_le_pow_right (by decide) (by omega)
      have hlt := Nat.mod_lt (block * 256 + 200) (Nat.two_pow_pos (32 - n))
      have hlow' := Nat.div_add_mod (block * 256 + 50) (2 ^ (32 - n))
      have hhigh' := Nat.div_add_mod (block * 256 + 200) (2 ^ (32 - n))
      rw [hlow] at hlow'
      rw [hhigh] at hhigh'
      omega
    · cases hnet
  · intro hn
    refine ⟨_, if_pos (by omega), _, rfl, _, rfl, fun x hlow hhigh => ?_⟩
    have hcovers (host : ℕ) (hhost : host < 256) :
        (Prefix.ofAddress 32 (block * 256 + 1) n).Covers (block * 256 + host) := by
      rw [Prefix.covers_ofAddress, host_div hn _ hhost, host_div hn _ (by decide)]
    exact Prefix.covers_of_between (hcovers 50 (by decide)) (hcovers 200 (by decide)) hlow hhigh

theorem units_apart_iff {a b c n : ℕ} (ha : a ≤ 255) (hb : b ≤ 255) (hc : c + 1 ≤ 255) (hn : n ≤ 24)
    (ifname ifname' : String) :
    let subnet (third : ℤ) := subnetText (toString (a : ℤ)).toList (toString (b : ℤ)).toList third
    (LanUnit.mk ifname (subnet c ++ ".1") n).Apart ⟨ifname', subnet (c + 1 : ℕ) ++ ".1", n⟩ ↔
      2 ^ (24 - n) ∣ c + 1 := by
  intro subnet
  obtain ⟨h1, -, -⟩ := suffixes
  simp only [LanUnit.Apart, LanUnit.net, subnet, if_pos (show n ≤ 32 by omega),
    number_host ha hb (show c ≤ 255 by omega) (by decide : 1 ≤ 255) h1,
    number_host ha hb hc (by decide : 1 ≤ 255) h1, Option.map_some, Option.mem_def,
    Option.some.injEq, forall_eq']
  rw [Prefix.meet_iff, host_div hn _ (by decide), host_div hn _ (by decide),
    show subnetNumber a b (c + 1) = subnetNumber a b c + 1 from (Nat.add_assoc _ _ _).symm,
    Nat.succ_div]
  have hdvd : 2 ^ (24 - n) ∣ subnetNumber a b c + 1 ↔ 2 ^ (24 - n) ∣ c + 1 := by
    rw [subnetNumber, Nat.add_assoc]
    by_cases hm : 24 - n ≤ 8
    · have h256 : 2 ^ (24 - n) ∣ 256 := Nat.pow_dvd_pow 2 hm
      exact Nat.dvd_add_right (h256.mul_left _)
    · -- Nothing that two to the ninth divides ends in an octet between 1 and 255.
      have h9 : 2 ^ 9 ∣ 2 ^ (24 - n) := Nat.pow_dvd_pow 2 (by omega)
      refine iff_of_false (fun h => ?_) fun h => ?_
      · have := h9.trans h
        omega
      · have := h9.trans h
        omega
  rw [← hdvd]
  split
  · rename_i h
    simp [h]
  · rename_i h
    simp [h]

-- ---------------------------------------------------------------------------
-- The plan that is rendered
-- ---------------------------------------------------------------------------

def unitAt (config : LanConfig) (ifname subnet : String) : LanUnit :=
  ⟨ifname, subnet ++ ".1", config.prefixLen⟩

def rangeAt (subnet : String) : LanRange := ⟨subnet ++ ".50", subnet ++ ".200", subnet ++ ".1"⟩

theorem rendered {config : LanConfig} {lanMode baseInterface : String} {units : List LanUnit}
    {ranges : List LanRange}
    (hunits : networkdUnits config lanMode baseInterface 0 (profilesForLanMode lanMode) = .ok units)
    (hranges : dnsmasqRangesOf config.address 0 (profilesForLanMode lanMode) = .ok ranges) :
    ∃ first second third rest t,
      Dotted.parts config.address = first :: second :: third :: rest ∧ parseOctet third = some t ∧
        ((∃ i, lanMode = "single" ∧ units = [unitAt config i (subnetText first second t)] ∧
            ranges = [rangeAt (subnetText first second t)]) ∨
          ∃ i j, lanMode ≠ "single" ∧
            units = [unitAt config i (subnetText first second t),
              unitAt config j (subnetText first second (t + 1))] ∧
            ranges = [rangeAt (subnetText first second t),
              rangeAt (subnetText first second (t + 1))]) := by
  have hsome : ∃ subnet, lanSubnet config.address 0 = .ok subnet := by
    cases hsubnet : lanSubnet config.address 0 with
    | ok subnet => exact ⟨subnet, rfl⟩
    | error e =>
      unfold profilesForLanMode at hranges
      split at hranges <;>
        simp [singleLanProfiles, defaultProfiles, dnsmasqRangesOf, hsubnet] at hranges
  obtain ⟨subnet, hsubnet⟩ := hsome
  obtain ⟨first, second, third, rest, t, hparts, ht, -⟩ := lanSubnet_eq_ok.mp hsubnet
  have hok (index : ℕ) :
      lanSubnet config.address index = .ok (subnetText first second (t + index)) :=
    lanSubnet_eq_ok.mpr ⟨first, second, third, rest, t, hparts, ht, rfl⟩
  refine ⟨first, second, third, rest, t, hparts, ht, ?_⟩
  unfold profilesForLanMode at hunits hranges
  split at hunits
  · rename_i hmode
    rw [if_pos hmode] at hranges
    simp only [singleLanProfiles, networkdUnits, networkdUnit, hok, map_ok, Nat.cast_zero,
      add_zero, Except.ok.injEq] at hunits
    simp only [singleLanProfiles, dnsmasqRangesOf, hok, map_ok, Nat.cast_zero, add_zero,
      Except.ok.injEq] at hranges
    exact .inl ⟨_, hmode, hunits.symm, hranges.symm⟩
  · rename_i hmode
    rw [if_neg hmode] at hranges
    simp only [defaultProfiles, networkdUnits, networkdUnit, hok, map_ok, Nat.cast_zero,
      add_zero, zero_add, Nat.cast_one, Except.ok.injEq] at hunits
    simp only [defaultProfiles, dnsmasqRangesOf, hok, map_ok, Nat.cast_zero, add_zero, zero_add,
      Nat.cast_one, Except.ok.injEq] at hranges
    exact .inr ⟨_, _, hmode, hunits.symm, hranges.symm⟩

theorem parseOctet_toString {i : ℤ} (h : parseOctet (toString i).toList = some t) : t = i := by
  unfold parseOctet Numerals.shortInt at h
  split at h
  · cases h
  · rw [Numerals.int_toString] at h
    exact (Option.some.inj h).symm

theorem gatewayText_eq (a b c : ℕ) :
    toString a ++ "." ++ toString b ++ "." ++ toString c ++ ".1" =
      subnetText (toString (a : ℤ)).toList (toString (b : ℤ)).toList c ++ ".1" := by
  rw [subnetText, String.ofList_toList, String.ofList_toList]
  rfl

theorem numbers_of_parts {address : String} {a b c : ℕ}
    (haddress : address = toString a ++ "." ++ toString b ++ "." ++ toString c ++ ".1")
    (hparts : Dotted.parts address = first :: second :: third :: rest)
    (ht : parseOctet third = some t) :
    first = (toString (a : ℤ)).toList ∧ second = (toString (b : ℤ)).toList ∧ t = c := by
  have hparts' := parts_host (Dotted.point_not_mem_toString a) (Dotted.point_not_mem_toString b)
    c 1 suffixes.1
  rw [← gatewayText_eq, ← haddress, hparts] at hparts'
  simp only [List.cons.injEq] at hparts'
  obtain ⟨hfirst, hsecond, hthird, -⟩ := hparts'
  rw [hthird] at ht
  exact ⟨hfirst, hsecond, parseOctet_toString ht⟩

/-- Where the numbers of an address are known, a plan fits by them. -/
theorem planFits_iff {config : LanConfig} {lanMode : String} {a b c : ℕ} (ha : a ≤ 255)
    (hb : b ≤ 255) (hparts : Dotted.parts config.address =
      (toString (a : ℤ)).toList :: (toString (b : ℤ)).toList :: third :: rest)
    (ht : parseOctet third = some (c : ℤ)) :
    PlanFits config lanMode ↔
      config.address =
        subnetText (toString (a : ℤ)).toList (toString (b : ℤ)).toList c ++ ".1" ∧
        c + (profilesForLanMode lanMode).length ≤ 256 ∧ config.prefixLen ≤ 24 ∧
        (lanMode ≠ "single" → 2 ^ (24 - config.prefixLen) ∣ c + 1) := by
  constructor
  · rintro ⟨a', b', c', -, -, haddress, hfits⟩
    obtain ⟨hfirst, hsecond, hthird⟩ := numbers_of_parts haddress hparts ht
    obtain rfl : c = c' := by exact_mod_cast hthird
    rw [hfirst, hsecond, ← gatewayText_eq]
    exact ⟨haddress, hfits⟩
  · rintro ⟨haddress, hfits⟩
    exact ⟨a, b, c, ha, hb, haddress.trans (gatewayText_eq a b c).symm, hfits⟩

theorem address_subnet_iff {a b host : ℕ} (ha : a ≤ 255) (hb : b ≤ 255) (hhost : host ≤ 255)
    {suffix : String} (hsuffix : suffix.toList = '.' :: (toString (host : ℤ)).toList) (z : ℤ) :
    Dotted.Address (subnetText (toString (a : ℤ)).toList (toString (b : ℤ)).toList z ++ suffix) ↔
      0 ≤ z ∧ z ≤ 255 := by
  rw [address_host (Dotted.point_not_mem_toString a) (Dotted.point_not_mem_toString b) z hhost
    hsuffix]
  exact ⟨fun h => h.2.2, fun h => ⟨⟨a, ha, rfl⟩, ⟨b, hb, rfl⟩, h⟩⟩

theorem consistentPlan_single {config : LanConfig} {a b c : ℕ} (ha : a ≤ 255) (hb : b ≤ 255)
    (hc : c ≤ 255) (ifname : String) :
    let subnet := subnetText (toString (a : ℤ)).toList (toString (b : ℤ)).toList c
    ConsistentPlan config.address [unitAt config ifname subnet] [rangeAt subnet] ↔
      config.address = subnet ++ ".1" ∧ config.prefixLen ≤ 24 := by
  intro subnet
  have hvalid {suffix : String} {host : ℕ} (hhost : host ≤ 255)
      (hsuffix : suffix.toList = '.' :: (toString (host : ℤ)).toList) :
      Dotted.Address (subnet ++ suffix) :=
    (address_subnet_iff ha hb hhost hsuffix c).mpr (by omega)
  obtain ⟨h1, h50, h200⟩ := suffixes
  have hserves : (unitAt config ifname subnet).Serves (rangeAt subnet) ↔ config.prefixLen ≤ 24 :=
    serves_iff ha hb hc ifname _
  constructor
  · intro h
    exact ⟨List.mem_singleton.mp h.answered, hserves.mp (h.served _ List.mem_cons_self)⟩
  · rintro ⟨haddress, hprefix⟩
    refine ⟨rfl, List.mem_singleton.mpr haddress, ?_, ?_, List.pairwise_singleton _ _⟩
    · rintro p hp
      obtain rfl := List.mem_singleton.mp hp
      exact hserves.mpr hprefix
    · rw [haddress]
      simp [unitAt, rangeAt, hvalid (by decide) h1, hvalid (by decide) h50,
        hvalid (by decide) h200]

theorem consistentPlan_pair {config : LanConfig} {a b c : ℕ} (ha : a ≤ 255) (hb : b ≤ 255)
    (hc : c ≤ 255) (hparts : Dotted.parts config.address =
      (toString (a : ℤ)).toList :: (toString (b : ℤ)).toList :: third :: rest)
    (ht : parseOctet third = some (c : ℤ)) (i j : String) :
    let subnet (z : ℤ) := subnetText (toString (a : ℤ)).toList (toString (b : ℤ)).toList z
    ConsistentPlan config.address [unitAt config i (subnet c), unitAt config j (subnet (c + 1))]
        [rangeAt (subnet c), rangeAt (subnet (c + 1))] ↔
      config.address = subnet c ++ ".1" ∧ c + 1 ≤ 255 ∧ config.prefixLen ≤ 24 ∧
        2 ^ (24 - config.prefixLen) ∣ c + 1 := by
  intro subnet
  have hpa := Dotted.point_not_mem_toString a
  have hpb := Dotted.point_not_mem_toString b
  have hvalid (z : ℤ) {suffix : String} {host : ℕ} (hhost : host ≤ 255)
      (hsuffix : suffix.toList = '.' :: (toString (host : ℤ)).toList) :
      Dotted.Address (subnet z ++ suffix) ↔ 0 ≤ z ∧ z ≤ 255 :=
    address_subnet_iff ha hb hhost hsuffix z
  obtain ⟨h1, h50, h200⟩ := suffixes
  constructor
  · intro h
    have hnext : c + 1 ≤ 255 := by
      have := (hvalid (c + 1) (by decide) h1).mp (h.valid _ (by simp [unitAt]))
      omega
    have hprefix : config.prefixLen ≤ 24 :=
      (serves_iff ha hb hc i _).mp (h.served (_, _) List.mem_cons_self)
    refine ⟨?_, hnext, hprefix, ?_⟩
    · rcases List.mem_cons.mp h.answered with haddress | hsecond
      · exact haddress
      · -- The third part would have to be two numbers.
        have haddress : config.address = subnet (c + 1) ++ ".1" := List.mem_singleton.mp hsecond
        have hparts' := parts_host hpa hpb (c + 1) 1 h1
        rw [← haddress, hparts] at hparts'
        simp only [List.cons.injEq] at hparts'
        rw [hparts'.2.2.1] at ht
        have := parseOctet_toString ht
        omega
    · have happart := (List.pairwise_cons.mp h.disjoint).1 _ List.mem_cons_self
      exact (units_apart_iff ha hb hnext hprefix i j).mp (by exact_mod_cast happart)
  · rintro ⟨haddress, hnext, hprefix, hdvd⟩
    refine ⟨rfl, List.mem_cons.mpr (.inl haddress), ?_, ?_, ?_⟩
    · have hsecond := (serves_iff ha hb hnext j (subnet (c + 1) ++ ".1")).mpr hprefix
      simp only [List.zip_cons_cons, List.zip_nil_right, List.forall_mem_cons, List.not_mem_nil,
        IsEmpty.forall_iff, implies_true, and_true]
      exact ⟨(serves_iff ha hb hc i _).mpr hprefix, by exact_mod_cast hsecond⟩
    · have hbounds : (0 : ℤ) ≤ c ∧ (c : ℤ) ≤ 255 := by omega
      have hbounds' : (0 : ℤ) ≤ c + 1 ∧ (c : ℤ) + 1 ≤ 255 := by omega
      rw [haddress]
      simp [unitAt, rangeAt, hvalid _ (by decide) h1, hvalid _ (by decide) h50,
        hvalid _ (by decide) h200, hbounds, hbounds']
    · have happart := (units_apart_iff ha hb hnext hprefix i j).mpr hdvd
      refine List.pairwise_cons.mpr ⟨fun u hu => ?_, List.pairwise_singleton _ _⟩
      obtain rfl := List.mem_singleton.mp hu
      exact_mod_cast happart

/-- A plan that both renderers take is consistent just where it fits. -/
theorem consistentPlan_iff {config : LanConfig} {lanMode baseInterface : String}
    {units : List LanUnit} {ranges : List LanRange}
    (hunits : networkdUnits config lanMode baseInterface 0 (profilesForLanMode lanMode) = .ok units)
    (hranges : dnsmasqRangesOf config.address 0 (profilesForLanMode lanMode) = .ok ranges) :
    ConsistentPlan config.address units ranges ↔ PlanFits config lanMode := by
  obtain ⟨first, second, third, rest, t, hparts, ht, hplan⟩ := rendered hunits hranges
  have hpoint : ∀ part ∈ first :: second :: third :: rest, '.' ∉ part := by
    rw [← hparts]
    exact fun part => Dotted.point_not_mem
  -- Either side says what the numbers are.
  have hnumbers : ConsistentPlan config.address units ranges ∨ PlanFits config lanMode →
      ∃ a b c : ℕ, a ≤ 255 ∧ b ≤ 255 ∧ c ≤ 255 ∧ first = (toString (a : ℤ)).toList ∧
        second = (toString (b : ℤ)).toList ∧ t = c := by
    rintro (h | ⟨a, b, c, ha, hb, haddress, hlength, -⟩)
    · have hvalid : Dotted.Address (subnetText first second t ++ ".1") := by
        refine h.valid _ ?_
        rcases hplan with ⟨i, -, rfl, -⟩ | ⟨i, j, -, rfl, -⟩ <;> simp [unitAt]
      obtain ⟨⟨a, ha, hfirst⟩, ⟨b, hb, hsecond⟩, hlow, hhigh⟩ :=
        (address_gateway (hpoint first (by simp)) (hpoint second (by simp)) t).mp hvalid
      exact ⟨a, b, t.toNat, ha, hb, by omega, hfirst, hsecond, by omega⟩
    · obtain ⟨hfirst, hsecond, hthird⟩ := numbers_of_parts haddress hparts ht
      have hpos := List.length_pos_of_mem (bestEffort_mem_profilesForLanMode lanMode)
      exact ⟨a, b, c, ha, hb, by omega, hfirst, hsecond, hthird⟩
  by_cases heither : ConsistentPlan config.address units ranges ∨ PlanFits config lanMode
  · obtain ⟨a, b, c, ha, hb, hc, rfl, rfl, rfl⟩ := hnumbers heither
    rw [planFits_iff ha hb hparts ht]
    rcases hplan with ⟨i, hmode, rfl, rfl⟩ | ⟨i, j, hmode, rfl, rfl⟩
    · refine (consistentPlan_single ha hb hc i).trans ?_
      have hroom : c + (profilesForLanMode lanMode).length ≤ 256 := by
        rw [profilesForLanMode, if_pos hmode, singleLanProfiles]
        exact Nat.succ_le_succ hc
      exact ⟨fun h => ⟨h.1, hroom, h.2, fun h => absurd hmode h⟩, fun h => ⟨h.1, h.2.2.1⟩⟩
    · refine (consistentPlan_pair ha hb hc hparts ht i j).trans ?_
      have hroom : c + (profilesForLanMode lanMode).length ≤ 256 ↔ c + 1 ≤ 255 := by
        rw [profilesForLanMode, if_neg hmode, defaultProfiles]
        exact Nat.succ_le_succ_iff
      rw [hroom]
      exact ⟨fun h => ⟨h.1, h.2.1, h.2.2.1, fun _ => h.2.2.2⟩,
        fun h => ⟨h.1, h.2.1, h.2.2.1, h.2.2.2 hmode⟩⟩
  · exact iff_of_false (fun h => heither (.inl h)) fun h => heither (.inr h)

def secondHost : LanConfig := { LanConfig.default with address := "10.44.0.2" }

theorem captive_portal_nowhere :
    networkdUnits secondHost "single" "wlan0" 0 (profilesForLanMode "single") =
        .ok [⟨"wlan0", "10.44.0.1", 24⟩] ∧
      dnsmasqRangesOf secondHost.address 0 (profilesForLanMode "single") =
        .ok [⟨"10.44.0.50", "10.44.0.200", "10.44.0.1"⟩] ∧
      ¬ConsistentPlan secondHost.address [⟨"wlan0", "10.44.0.1", 24⟩]
        [⟨"10.44.0.50", "10.44.0.200", "10.44.0.1"⟩] := by
  refine ⟨by decide +kernel, by decide +kernel, fun h => ?_⟩
  have hanswered : "10.44.0.2" ∈ ["10.44.0.1"] := h.answered
  exact absurd hanswered (by decide)

theorem default_plan_consistent :
    ConsistentPlan LanConfig.default.address
      [⟨"wlan0_1.10", "10.44.0.1", 24⟩, ⟨"wlan0.20", "10.44.1.1", 24⟩]
      [⟨"10.44.0.50", "10.44.0.200", "10.44.0.1"⟩, ⟨"10.44.1.50", "10.44.1.200", "10.44.1.1"⟩] := by
  have hunits : networkdUnits .default "two_bss" "wlan0" 0 (profilesForLanMode "two_bss") =
      .ok [⟨"wlan0_1.10", "10.44.0.1", 24⟩, ⟨"wlan0.20", "10.44.1.1", 24⟩] := by decide +kernel
  refine (consistentPlan_iff hunits (by decide +kernel)).mpr ?_
  exact ⟨10, 44, 0, by decide, by decide, by decide, by decide, by decide, fun _ => by decide⟩

end Wifucked
