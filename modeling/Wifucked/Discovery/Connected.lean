import Wifucked.Atomics.Merging
import Wifucked.Discovery

/-!
# The network that is joined

Several access points of one network share an identity, and a sweep merges them
one after another: the last of them says by which interface the network is
reached, the first what health it starts with.
-/

namespace Wifucked

variable {K : Type}

-- ---------------------------------------------------------------------------
-- What a sweep reports last
-- ---------------------------------------------------------------------------

namespace Registry

variable {reg : Registry K} {now : K} {seen : List (Atomic K)} {id : String}

theorem ifname_merge (now : K) (reg : Registry K) (fresh : Atomic K) (id : String) :
    ((merge now reg fresh).get? id).map (·.ifname) =
      if fresh.id = id then some fresh.ifname else (reg.get? id).map (·.ifname) := by
  split
  · rename_i hid
    subst hid
    unfold merge
    cases hk : reg.get? fresh.id with
    | none => simp
    | some known => simp [Keyed.key_of_get? hk]
  · rename_i hid
    rw [get?_merge reg now fresh hid]

theorem ifname_merged (reg : Registry K) (now : K) (seen : List (Atomic K)) (id : String) :
    (Keyed.get? (seen.foldl (merge now) reg) id).map (·.ifname) =
      ((seen.filter fun a => a.id = id).getLast?.map (·.ifname)).or
        ((reg.get? id).map (·.ifname)) := by
  induction seen generalizing reg with
  | nil => simp
  | cons fresh seen ih =>
    rw [List.foldl_cons, ih, ifname_merge]
    by_cases hid : fresh.id = id
    · cases hlast : (seen.filter fun a => a.id = id).getLast? with
      | none => simp [hid, List.getLast?_cons, hlast]
      | some last => simp [hid, List.getLast?_cons, hlast]
    · simp [hid]

theorem ifname_observe (reg : Registry K) (now : K) (h : id ∈ seen.map (·.id)) :
    ((reg.observe now seen).get? id).map (·.ifname) =
      (seen.filter fun a => a.id = id).getLast?.map (·.ifname) := by
  rw [get?_observe reg now h, ifname_merged]
  cases hlast : (seen.filter fun a => a.id = id).getLast? with
  | none =>
    obtain ⟨a, ha, rfl⟩ := List.mem_map.mp h
    have hnil := List.getLast?_eq_none_iff.mp hlast
    simp [List.filter_eq_nil_iff] at hnil
    exact absurd rfl (hnil a ha)
  | some last => rfl

theorem ever_merge (now : K) (reg : Registry K) (fresh : Atomic K)
    (h : fresh.everConnected = true) : Ever (merge now reg fresh) fresh.id := by
  unfold Ever merge
  cases hk : reg.get? fresh.id with
  | none => simp [h]
  | some known => simp [Keyed.key_of_get? hk, h]

theorem ever_of_mem {fresh : Atomic K} (h : fresh ∈ seen) (he : fresh.everConnected = true)
    (reg : Registry K) (now : K) : Ever (reg.observe now seen) fresh.id := by
  rw [Ever, get?_observe reg now (List.mem_map_of_mem h)]
  induction seen generalizing reg with
  | nil => cases h
  | cons a seen ih =>
    rcases List.mem_cons.mp h with rfl | h
    · obtain ⟨known, hk, hever⟩ := Option.map_eq_some_iff.mp (ever_merge now reg fresh he)
      obtain ⟨b, hb, -, hkept⟩ := carried_merged hk now seen
      simp [hb, hkept hever]
    · exact ih h _

end Registry

-- ---------------------------------------------------------------------------
-- The access points of one network
-- ---------------------------------------------------------------------------

theorem Identity.wifiId_ne_usbId (ssid : String) (bssid : Option String) (kind : Kind)
    (vendor product : String) (serial portPath : Option String) :
    wifiId ssid bssid ≠ usbId kind vendor product serial portPath := by
  intro h
  have hw : (wifiId ssid bssid).toList.head? = some 'w' := by simp [wifiId]
  have hu : (usbId kind vendor product serial portPath).toList.head? = some 'u' := by
    unfold usbId
    cases serial.filter (· ≠ "") <;> cases kind <;> simp
  rw [h, hu] at hw
  cases hw

def StationLink.id (link : StationLink) : String := Identity.wifiId link.ssid (some link.bssid)

def StationLink.joins (link : StationLink) (network : ScannedNetwork) : Bool :=
  link.ssid = network.ssid && link.bssid = network.bssid

def StationLink.sharing (link : StationLink) (scan : List ScannedNetwork) : List ScannedNetwork :=
  scan.filter fun network => Identity.wifiId network.ssid (some network.bssid) = link.id

/-- `known` is what was known of the network, if it was known. -/
structure Joined (link : StationLink) (known : Option (Atomic K)) (a : Atomic K) : Prop where
  present : a.present = true
  ifname : a.ifname = some link.ifname
  everConnected : a.everConnected = true
  good : known.all (fun k => !k.present) → a.health = .good

variable [Zero K] {link : StationLink} {scan : List ScannedNetwork}

theorem wifiAtomic_id (link : Option StationLink) (network : ScannedNetwork) :
    (wifiAtomic link network : Atomic K).id = Identity.wifiId network.ssid (some network.bssid) :=
  rfl

theorem ifname_wifiAtomic (link : StationLink) (network : ScannedNetwork) :
    (wifiAtomic (some link) network : Atomic K).ifname = some link.ifname ↔
      link.joins network = true := by
  cases h : link.joins network <;> simp_all [wifiAtomic, StationLink.joins]

theorem health_wifiAtomic (link : StationLink) (network : ScannedNetwork) :
    (wifiAtomic (some link) network : Atomic K).health = .good ↔ link.joins network = true := by
  cases h : link.joins network <;> simp_all [wifiAtomic, StationLink.joins]

theorem id_of_joins {network : ScannedNetwork} (h : link.joins network = true) :
    (wifiAtomic (some link) network : Atomic K).id = link.id := by
  simp only [StationLink.joins, Bool.and_eq_true, decide_eq_true_eq] at h
  simp [wifiAtomic, StationLink.id, h]

/-- A sweep while the link is up: both sources in their order, where the USB one
may fail. -/
def StationLink.sweep (link : StationLink) (scan : List ScannedNetwork)
    (devices : Option (List UsbDevice)) (carrier : String → Bool) : List (Atomic K) :=
  Wifucked.sweep (some (discoverWifi (some link) scan))
    (devices.map fun l => discoverUsb l carrier)

theorem filter_sweep (link : StationLink) (scan : List ScannedNetwork)
    (devices : Option (List UsbDevice)) (carrier : String → Bool) :
    (link.sweep scan devices carrier : List (Atomic K)).filter (·.id = link.id) =
      (link.sharing scan).map (wifiAtomic (some link)) := by
  have husb : ((devices.map fun l => (discoverUsb l carrier : List (Atomic K))).getD []).filter
      (·.id = link.id) = [] := by
    cases devices with
    | none => rfl
    | some devices =>
      refine List.filter_eq_nil_iff.mpr fun a ha => ?_
      obtain ⟨device, -, hdevice⟩ := List.mem_filterMap.mp ha
      obtain ⟨ifname, -, rfl⟩ := Option.map_eq_some_iff.mp hdevice
      intro hid
      exact Identity.wifiId_ne_usbId _ _ _ _ _ _ _ (of_decide_eq_true hid).symm
  rw [StationLink.sweep, sweep, List.filter_append, husb, List.append_nil]
  simp only [Option.getD_some, discoverWifi, StationLink.sharing, List.filter_map,
    Function.comp_def, wifiAtomic_id]
  rfl

section

variable {reg : Registry K} {now : K} {devices : Option (List UsbDevice)}
  {carrier : String → Bool} {network : ScannedNetwork}

variable (devices carrier) in
theorem mem_sweep (h : network ∈ scan) :
    wifiAtomic (some link) network ∈ (link.sweep scan devices carrier : List (Atomic K)) :=
  List.mem_append_left _ (List.mem_map_of_mem h)

variable (devices carrier) in
theorem id_mem_sweep (h : network ∈ scan) (hjoins : link.joins network = true) :
    link.id ∈ (link.sweep scan devices carrier : List (Atomic K)).map (·.id) :=
  id_of_joins (K := K) hjoins ▸ List.mem_map_of_mem (mem_sweep devices carrier h)

theorem ifname_found (h : network ∈ scan) (hjoins : link.joins network = true)
    (ha : (reg.observe now (link.sweep scan devices carrier)).get? link.id = some a) :
    a.ifname = some link.ifname ↔ (link.sharing scan).getLast?.any link.joins = true := by
  have hifname := reg.ifname_observe now (id_mem_sweep devices carrier h hjoins)
  rw [ha, filter_sweep, List.getLast?_map] at hifname
  cases hl : (link.sharing scan).getLast? with
  | none => simp [hl] at hifname
  | some last =>
    simp only [hl, Option.map_some, Option.some.injEq] at hifname
    rw [hifname, ifname_wifiAtomic]
    rfl

theorem health_found (h : network ∈ scan) (hjoins : link.joins network = true)
    (ha : (reg.observe now (link.sweep scan devices carrier)).get? link.id = some a)
    (hpresent : a.present = true) (hnew : (reg.get? link.id).all (fun k => !k.present) = true) :
    a.health = .good ↔ (link.sharing scan).head?.any link.joins = true := by
  have hheld := reg.held_observe now (id_mem_sweep devices carrier h hjoins)
  have hnone : reg.held link.id = none := by
    cases hk : reg.get? link.id with
    | none => simp [Registry.held, hk]
    | some known => simpa [Registry.held, hk, Atomic.held] using hnew
  rw [hnone, Option.none_or, Registry.freshHealth, ← List.head?_filter, filter_sweep,
    List.head?_map, Registry.held, ha] at hheld
  cases hf : (link.sharing scan).head? with
  | none => simp [hf, Atomic.held, hpresent] at hheld
  | some first =>
    simp only [hf, Option.bind_some, Atomic.held, hpresent, if_true, Option.map_some,
      Option.some.injEq] at hheld
    rw [hheld, health_wifiAtomic]
    rfl

end

/-- The network that is joined is found as such exactly if the last of its
access points in the scan is the one joined and, where it was not there before,
the first is too. -/
theorem joined_found_iff (reg : Registry K) (now : K) (devices : Option (List UsbDevice))
    (carrier : String → Bool) (h : ∃ network ∈ scan, link.joins network = true) :
    (∃ a, (reg.observe now (link.sweep scan devices carrier)).get? link.id = some a ∧
      Joined link (reg.get? link.id) a) ↔
    (link.sharing scan).getLast?.any link.joins = true ∧
      ((reg.get? link.id).all (fun k => !k.present) = true →
        (link.sharing scan).head?.any link.joins = true) := by
  obtain ⟨network, hscan, hjoins⟩ := h
  have hid := id_mem_sweep (K := K) devices carrier hscan hjoins
  have hswept := reg.swept_observe now (link.sweep scan devices carrier)
  obtain ⟨a, ha⟩ := Option.isSome_iff_exists.mp ((hswept.ids link.id).mpr (.inr hid))
  have hpresent : a.present = true := (hswept.present _ a ha).mpr hid
  have hever : a.everConnected = true := by
    have h := Registry.ever_of_mem (mem_sweep devices carrier hscan) hjoins reg now
    rw [id_of_joins hjoins] at h
    simpa [Registry.Ever, ha] using h
  constructor
  · rintro ⟨b, hb, hjoined⟩
    obtain rfl : a = b := Option.some.inj (ha.symm.trans hb)
    exact ⟨(ifname_found hscan hjoins ha).mp hjoined.ifname,
      fun hnew => (health_found hscan hjoins ha hpresent hnew).mp (hjoined.good hnew)⟩
  · rintro ⟨hlast, hfirst⟩
    exact ⟨a, ha, hpresent, (ifname_found hscan hjoins ha).mpr hlast, hever,
      fun hnew => (health_found hscan hjoins ha hpresent hnew).mpr (hfirst hnew)⟩

def hotelScan : List ScannedNetwork :=
  [⟨"hotel-wifi", "a4:2b:b0:00:00:01", 6, -48, true⟩,
    ⟨"hotel-wifi", "a4:2b:b0:00:00:02", 11, -70, true⟩]

def hotelLink : StationLink := ⟨"hotel-wifi", "a4:2b:b0:00:00:01", "wlan0"⟩

theorem sharing_hotelScan : hotelLink.sharing hotelScan = hotelScan := by
  have hvendor : Identity.oui (some "a4:2b:b0:00:00:02") =
      Identity.oui (some "a4:2b:b0:00:00:01") := by decide +kernel
  simp [StationLink.sharing, hotelScan, hotelLink, StationLink.id, Identity.wifiId, hvendor]

def hotelRegistry : Registry ℤ :=
  Registry.observe .empty 0 (hotelLink.sweep (hotelScan.take 1) none fun _ => false)

theorem joined_found_again :
    ∃ a, (hotelRegistry.observe 10
        (hotelLink.sweep hotelScan.reverse none fun _ => false)).get? hotelLink.id = some a ∧
      Joined hotelLink (hotelRegistry.get? hotelLink.id) a := by
  have hfirst : ⟨"hotel-wifi", "a4:2b:b0:00:00:01", 6, -48, true⟩ ∈ hotelScan.take 1 := .head _
  have hswept := Registry.swept_observe (.empty : Registry ℤ) 0
    (hotelLink.sweep (hotelScan.take 1) none fun _ => false)
  have hid : hotelLink.id ∈
      (hotelLink.sweep (K := ℤ) (hotelScan.take 1) none fun _ => false).map (·.id) :=
    id_mem_sweep none (fun _ => false) hfirst rfl
  obtain ⟨a, ha⟩ := Option.isSome_iff_exists.mp ((hswept.ids hotelLink.id).mpr (.inr hid))
  have hpresent : a.present = true := (hswept.present _ a ha).mpr hid
  have hsharing : hotelLink.sharing hotelScan.reverse = hotelScan.reverse := by
    rw [StationLink.sharing, List.filter_reverse, ← StationLink.sharing, sharing_hotelScan]
  have hscan : ∃ network ∈ hotelScan.reverse, hotelLink.joins network = true :=
    ⟨_, List.mem_reverse.mpr (.head _), rfl⟩
  refine (joined_found_iff hotelRegistry 10 none (fun _ => false) hscan).mpr ⟨?_, fun hnew => ?_⟩
  · rw [hsharing]
    rfl
  · rw [hotelRegistry, ha] at hnew
    simp [hpresent] at hnew

/-- The second access point says that the network is not joined. -/
theorem joined_lost :
    ¬ ∃ a, (Registry.observe (.empty : Registry ℤ) 0
        (hotelLink.sweep hotelScan none fun _ => false)).get? hotelLink.id = some a ∧
      Joined hotelLink none a := by
  rintro ⟨a, ha, hjoined⟩
  have hmem : ⟨"hotel-wifi", "a4:2b:b0:00:00:01", 6, -48, true⟩ ∈ hotelScan := .head _
  have hlast := (ifname_found hmem rfl ha).mp hjoined.ifname
  rw [sharing_hotelScan] at hlast
  simp [hotelScan, hotelLink, StationLink.joins] at hlast

end Wifucked
