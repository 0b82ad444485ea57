import Wifucked.Lib.Dotted
import Wifucked.Lib.Prefixes

/-!
# Tunnel addresses for registered appliances

Each public key has one address of the pool, which a file keeps. The fabric
itself has the first address after the network's own.
-/

namespace Wifucked.Fabric

abbrev Address := ℕ

def dotted (a : Address) : String :=
  toString (a / 2 ^ 24 % 256) ++ "." ++ toString (a / 2 ^ 16 % 256) ++ "." ++
    toString (a / 2 ^ 8 % 256) ++ "." ++ toString (a % 256)

theorem toList_dotted (a : Address) :
    (dotted a).toList = (toString (a / 2 ^ 24 % 256)).toList ++ '.' ::
      ((toString (a / 2 ^ 16 % 256)).toList ++ '.' ::
        ((toString (a / 2 ^ 8 % 256)).toList ++ '.' :: (toString (a % 256)).toList)) := by
  simp [dotted]

theorem octetValue_toString (n : ℕ) :
    Dotted.octetValue (toString (n % 256)).toList = some (n % 256) :=
  Dotted.octetValue_eq_some.mpr ⟨by omega, rfl⟩

theorem number_dotted {a : ℕ} (h : a < 2 ^ 32) : Dotted.number (dotted a) = some a := by
  have hpoint : ∀ n : ℕ, '.' ∉ (toString n).toList := fun n => Dotted.point_not_mem_toString n
  have hparts : Dotted.parts (dotted a) = [(toString (a / 2 ^ 24 % 256)).toList,
      (toString (a / 2 ^ 16 % 256)).toList, (toString (a / 2 ^ 8 % 256)).toList,
      (toString (a % 256)).toList] := by
    rw [Dotted.parts, toList_dotted, List.splitOn_append_cons_self_of_not_mem (hpoint _),
      List.splitOn_append_cons_self_of_not_mem (hpoint _),
      List.splitOn_append_cons_self_of_not_mem (hpoint _), List.splitOn_eq_singleton (hpoint _)]
  rw [Dotted.number_of_parts hparts (octetValue_toString _) (octetValue_toString _)
    (octetValue_toString _) (octetValue_toString _)]
  refine congrArg some ?_
  omega

theorem dotted_inj {a b : ℕ} (ha : a < 2 ^ 32) (hb : b < 2 ^ 32) : dotted a = dotted b ↔ a = b := by
  refine ⟨fun h => ?_, fun h => h ▸ rfl⟩
  have hnumber := number_dotted ha
  rw [h, number_dotted hb] at hnumber
  exact (Option.some.inj hnumber).symm

/-- What `ip_network` accepts: no bit is set after the prefix. -/
structure Network where
  address : Address
  prefixlen : ℕ
  prefixlen_le : prefixlen ≤ 32
  aligned : 2 ^ (32 - prefixlen) ∣ address
  address_lt : address < 2 ^ 32

/-- `10.99.0.0/24`, the default of `FABRIC_TUNNEL_POOL`. -/
def tunnelPool : Network where
  address := 10 * 2 ^ 24 + 99 * 2 ^ 16
  prefixlen := 24
  prefixlen_le := by decide
  aligned := by decide
  address_lt := by decide

namespace Network

def size (n : Network) : ℕ := 2 ^ (32 - n.prefixlen)

def text (n : Network) : String := dotted n.address ++ "/" ++ toString n.prefixlen

/-- Without the network's own and the broadcast address, where there are others. -/
def hosts (n : Network) : List Address :=
  if n.prefixlen = 32 then [n.address]
  else if n.prefixlen = 31 then [n.address, n.address + 1]
  else List.range' (n.address + 1) (n.size - 2)

theorem mem_hosts {n : Network} (h : n.prefixlen ≤ 30) :
    a ∈ n.hosts ↔ n.address < a ∧ a + 1 < n.address + n.size := by
  have hrange : ∀ a first size : ℕ, 2 ^ 2 ≤ size →
      (first + 1 ≤ a ∧ a < first + 1 + (size - 2) ↔ first < a ∧ a + 1 < first + size) := by
    omega
  have hbits : 2 ≤ 32 - n.prefixlen := by omega
  have hsize : 2 ^ 2 ≤ n.size := Nat.pow_le_pow_right Nat.two_pos hbits
  have h32 : n.prefixlen ≠ 32 := by omega
  have h31 : n.prefixlen ≠ 31 := by omega
  simp only [hosts, h32, h31, if_false, List.mem_range'_1]
  exact hrange a n.address n.size hsize

theorem end_le (n : Network) : @LE.le ℕ _ (n.address + n.size) (2 ^ 32) := by
  obtain ⟨k, hk⟩ := n.aligned
  have hpow : 2 ^ 32 = 2 ^ (32 - n.prefixlen) * 2 ^ n.prefixlen := by
    rw [← pow_add, Nat.sub_add_cancel n.prefixlen_le]
  have hlt := n.address_lt
  rw [hk, hpow] at hlt
  have hsucc : k + 1 ≤ 2 ^ n.prefixlen := Nat.lt_of_mul_lt_mul_left hlt
  calc n.address + n.size = 2 ^ (32 - n.prefixlen) * (k + 1) := by rw [hk, size, mul_add_one]
    _ ≤ 2 ^ (32 - n.prefixlen) * 2 ^ n.prefixlen := Nat.mul_le_mul_left _ hsucc
    _ = 2 ^ 32 := hpow.symm

theorem lt_of_mem_hosts {n : Network} {a : ℕ} (h : a ∈ n.hosts) : a < 2 ^ 32 := by
  have hsize := end_le n
  unfold hosts at h
  split at h
  · rw [List.mem_singleton.mp h]
    exact n.address_lt
  · split at h
    · rename_i h31
      have hpair : n.size = 2 := by simp [size, h31]
      rcases List.mem_pair.mp h with rfl | rfl <;> omega
    · have hrange : _ ∧ (a : ℕ) < _ := List.mem_range'_1.mp h
      omega

end Network

inductive PeersFile where
  | missing
  | unreadable
  | peers (peers : Keyed (String × Address) Prod.fst)

structure PeerRegistry where
  network : Network
  file : PeersFile

structure PeerAllocation where
  publicKey : String
  address : Address
  /-- `false` where the key was known already. -/
  created : Bool
  deriving DecidableEq, Repr

namespace PeerRegistry

def serverAddress (r : PeerRegistry) : Address := r.network.address + 1

/-- A file that cannot be read counts as empty. -/
def load (r : PeerRegistry) : Keyed (String × Address) Prod.fst :=
  match r.file with
  | .missing => .empty
  | .unreadable => .empty
  | .peers peers => peers

def nextFree (r : PeerRegistry) (peers : Keyed (String × Address) Prod.fst) : Option Address :=
  let used := r.serverAddress :: peers.values.map Prod.snd
  r.network.hosts.find? fun candidate => candidate ∉ used

/-- `none` where the pool is exhausted. -/
def allocate (r : PeerRegistry) (publicKey : String) : Option (PeerRegistry × PeerAllocation) :=
  let peers := r.load
  match peers.get? publicKey with
  | some existing => some (r, ⟨publicKey, existing.2, false⟩)
  | none =>
    (r.nextFree peers).map fun address =>
      ({ r with file := .peers (peers.put (publicKey, address)) }, ⟨publicKey, address, true⟩)

theorem nextFree_fresh {r : PeerRegistry} (h : r.nextFree peers = some a) :
    a ∈ r.network.hosts ∧ a ≠ r.serverAddress ∧ ∀ e ∈ peers.values, e.2 ≠ a := by
  have hused := List.find?_some h
  simp only [List.mem_cons, not_or, decide_eq_true_eq] at hused
  refine ⟨List.mem_of_find?_eq_some h, hused.1, ?_⟩
  rintro e he rfl
  exact hused.2 (List.mem_map_of_mem he)

theorem allocate_cases {r r' : PeerRegistry} (h : r.allocate k = some (r', p)) :
    p.publicKey = k ∧
      (r' = r ∧ r.load.get? k = some (k, p.address) ∨
        r.load.get? k = none ∧ r.nextFree r.load = some p.address ∧
          r' = { r with file := .peers (r.load.put (k, p.address)) }) := by
  simp only [allocate] at h
  cases hk : r.load.get? k with
  | some existing =>
    rw [hk] at h
    obtain ⟨rfl, rfl⟩ := Prod.mk.inj (Option.some.inj h)
    obtain ⟨key, address⟩ := existing
    obtain rfl : key = k := Keyed.key_of_get? hk
    exact ⟨rfl, .inl ⟨rfl, rfl⟩⟩
  | none =>
    rw [hk] at h
    obtain ⟨a, ha, heq⟩ := Option.map_eq_some_iff.mp h
    obtain ⟨rfl, rfl⟩ := Prod.mk.inj heq
    exact ⟨rfl, .inr ⟨rfl, ha, rfl⟩⟩

theorem allocate_known {r : PeerRegistry} (h : r.load.get? k = some e) :
    r.allocate k = some (r, ⟨k, e.2, false⟩) := by
  simp [allocate, h]

theorem allocate_free {r : PeerRegistry} (hk : r.load.get? k = none)
    (ha : r.nextFree r.load = some a) :
    r.allocate k = some ({ r with file := .peers (r.load.put (k, a)) }, ⟨k, a, true⟩) := by
  simp [allocate, hk, ha]

theorem nextFree_none {r : PeerRegistry} {peers : Keyed (String × Address) Prod.fst} :
    r.nextFree peers = none ↔
      ∀ host ∈ r.network.hosts, host ≠ r.serverAddress → ∃ e ∈ peers.values, e.2 = host := by
  simp only [nextFree, List.find?_eq_none, decide_eq_true_eq, not_not, List.mem_cons,
    List.mem_map, or_iff_not_imp_left]

theorem allocate_none {r : PeerRegistry} :
    r.allocate k = none ↔ r.load.get? k = none ∧
      ∀ host ∈ r.network.hosts, host ≠ r.serverAddress → ∃ e ∈ r.load.values, e.2 = host := by
  cases hk : r.load.get? k with
  | some e => simp [allocate, hk]
  | none => simp [allocate, hk, nextFree_none]

theorem get?_allocate {r r' : PeerRegistry} (h : r.allocate k = some (r', p)) (j : String) :
    r'.load.get? j = if k = j then some (k, p.address) else r.load.get? j := by
  obtain ⟨-, ⟨rfl, hk⟩ | ⟨-, -, rfl⟩⟩ := allocate_cases h
  · split
    · rename_i hj
      rw [← hj, hk]
    · rfl
  · exact Keyed.get?_put _ _ _

theorem allocate_network {r r' : PeerRegistry} (h : r.allocate k = some (r', p)) :
    r'.network = r.network := by
  obtain ⟨-, ⟨rfl, -⟩ | ⟨-, -, rfl⟩⟩ := allocate_cases h
  · rfl
  · rfl

theorem allocate_keeps {r r' : PeerRegistry} (h : r.allocate k = some (r', p))
    (hj : r.load.get? j = some e) : r'.load.get? j = some e := by
  rw [get?_allocate h]
  obtain ⟨-, ⟨-, hk⟩ | ⟨hk, -, -⟩⟩ := allocate_cases h
  · split
    · rename_i heq
      rw [← hk, heq, hj]
    · exact hj
  · rw [if_neg, hj]
    rintro rfl
    rw [hk] at hj
    cases hj

def Distinct (r : PeerRegistry) : Prop :=
  ∀ j k a, r.load.get? j = some (j, a) → r.load.get? k = some (k, a) → j = k

theorem allocate_fresh {r r' : PeerRegistry} (hr : r.Distinct)
    (h : r.allocate k = some (r', p)) (hj : r.load.get? j = some (j, p.address)) : j = k := by
  obtain ⟨-, ⟨-, hk⟩ | ⟨-, hfree, -⟩⟩ := allocate_cases h
  · exact hr j k _ hj hk
  · exact absurd rfl ((nextFree_fresh hfree).2.2 _ (Keyed.get?_eq_some.mp hj).1)

theorem allocate_distinct {r r' : PeerRegistry} (hr : r.Distinct)
    (h : r.allocate k = some (r', p)) : r'.Distinct := by
  intro i j a hi hj
  rw [get?_allocate h] at hi hj
  split at hi
  · rename_i hik
    obtain rfl : p.address = a := by simpa using (Prod.mk.inj (Option.some.inj hi)).2
    split at hj
    · rename_i hjk
      rw [← hik, ← hjk]
    · rw [← hik, allocate_fresh hr h hj]
  · split at hj
    · rename_i hjk
      obtain rfl : p.address = a := by simpa using (Prod.mk.inj (Option.some.inj hj)).2
      rw [← hjk, allocate_fresh hr h hi]
    · exact hr i j a hi hj

/-- The file is absent, or `_store` left it. -/
inductive Written : PeerRegistry → Prop
  | absent (network : Network) : Written ⟨network, .missing⟩
  | store {r r' : PeerRegistry} : Written r → r.allocate k = some (r', p) → Written r'

theorem Written.distinct {r : PeerRegistry} (h : r.Written) : r.Distinct := by
  induction h with
  | absent network =>
    intro j k a hj
    cases hj
  | store _ hr ih => exact allocate_distinct ih hr

theorem Written.issued {r : PeerRegistry} (h : r.Written) (hk : r.load.get? k = some (k, a)) :
    a ∈ r.network.hosts ∧ a ≠ r.serverAddress := by
  induction h with
  | absent network => cases hk
  | store _ hr ih =>
    rw [get?_allocate hr] at hk
    simp only [serverAddress, allocate_network hr]
    split at hk
    · rename_i heq
      obtain rfl := congrArg Prod.snd (Option.some.inj hk)
      obtain ⟨-, ⟨-, hold⟩ | ⟨-, hfree, -⟩⟩ := allocate_cases hr
      · rw [heq] at hold
        exact ih hold
      · exact ⟨(nextFree_fresh hfree).1, (nextFree_fresh hfree).2.1⟩
    · exact ih hk

end PeerRegistry

end Wifucked.Fabric
