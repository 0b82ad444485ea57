import Wifucked.Usb

/-!
# Discovery: what the hardware reports, as atomics

A sweep says what is present. Everything remembered about a connection is left
at its default, for the registry to keep what it knows.
-/

namespace Wifucked

variable {K : Type} [Zero K]

structure ScannedNetwork where
  ssid : String
  bssid : String
  channel : Int
  signalDbm : Int
  secured : Bool

structure StationLink where
  ssid : String
  bssid : String
  ifname : String

structure Atomic.Fresh (a : Atomic K) : Prop where
  role : a.role = .wan
  capacity : a.capacity = .unmeasured
  cost : a.cost = .zero
  present : a.present = true

def wifiAtomic (link : Option StationLink) (network : ScannedNetwork) : Atomic K :=
  let connected := link.any fun l => l.ssid = network.ssid && l.bssid = network.bssid
  { id := Identity.wifiId network.ssid (some network.bssid)
    kind := .wifi
    label := network.ssid
    mode := .unused
    health := if connected then .good else .unknown
    role := .wan
    capacity := .unmeasured
    quality := .unmeasured
    cost := .zero
    ifname := if connected then link.map (·.ifname) else none
    present := true
    firstSeen := none
    lastSeen := none
    everConnected := connected
    attributes :=
      [("ssid", network.ssid), ("channel", toString network.channel),
        ("signal_dbm", toString network.signalDbm),
        ("secured", if network.secured then "yes" else "no"),
        ("connected", if connected then "yes" else "no")] }

def discoverWifi (link : Option StationLink) (scan : List ScannedNetwork) : List (Atomic K) :=
  scan.map (wifiAtomic link)

def usbAtomic (carrier : String → Bool) (device : UsbDevice) (ifname : String) : Atomic K :=
  let kind := if device.isTether then Kind.usbTether else .usbEthernet
  { id := Identity.usbId kind device.vendor device.product device.serial (some device.portPath)
    kind := kind
    label := if device.description = "" then "USB connection" else device.description
    mode := .normal
    health := if carrier ifname then .good else .down
    role := .wan
    capacity := .unmeasured
    quality := .unmeasured
    cost := .zero
    ifname := some ifname
    present := true
    firstSeen := none
    lastSeen := none
    everConnected := carrier ifname
    attributes :=
      [("transport", if device.isTether then "USB tethering" else "USB Ethernet"),
        ("vendor", device.vendor), ("product", device.product),
        ("serial_known", if device.serial.isSome then "yes" else "no"),
        ("port", device.portPath)] }

/-- `carrier` is false of an interface that is not listed. -/
def discoverUsb (devices : List UsbDevice) (carrier : String → Bool) : List (Atomic K) :=
  devices.filterMap fun device =>
    (device.ifname.filter (· ≠ "")).map (usbAtomic carrier device)

/-- One sweep: a source that raises adds nothing. -/
def sweep (wifi usb : Option (List (Atomic K))) : List (Atomic K) := wifi.getD [] ++ usb.getD []

theorem wifiAtomic_fresh (link : Option StationLink) (network : ScannedNetwork) :
    (wifiAtomic link network : Atomic K).Fresh := ⟨rfl, rfl, rfl, rfl⟩

theorem usbAtomic_fresh (carrier : String → Bool) (device : UsbDevice) (ifname : String) :
    (usbAtomic carrier device ifname : Atomic K).Fresh := ⟨rfl, rfl, rfl, rfl⟩

theorem sweep_fresh {wifi usb : Option (List (Atomic K))}
    (hwifi : ∀ l, wifi = some l → ∃ link scan, l = discoverWifi link scan)
    (husb : ∀ l, usb = some l → ∃ devices carrier, l = discoverUsb devices carrier)
    (h : a ∈ sweep wifi usb) : a.Fresh := by
  rcases List.mem_append.mp h with h | h
  · cases hw : wifi with
    | none => rw [hw] at h; cases h
    | some l =>
      obtain ⟨link, scan, rfl⟩ := hwifi l hw
      rw [hw] at h
      obtain ⟨network, -, rfl⟩ := List.mem_map.mp h
      exact wifiAtomic_fresh link network
  · cases hu : usb with
    | none => rw [hu] at h; cases h
    | some l =>
      obtain ⟨devices, carrier, rfl⟩ := husb l hu
      rw [hu] at h
      obtain ⟨device, -, hdevice⟩ := List.mem_filterMap.mp h
      obtain ⟨ifname, -, rfl⟩ := Option.map_eq_some_iff.mp hdevice
      exact usbAtomic_fresh carrier device ifname

-- ---------------------------------------------------------------------------
-- One interface, one atomic
-- ---------------------------------------------------------------------------

theorem ifnames_discoverUsb (devices : List UsbDevice) (carrier : String → Bool) :
    (discoverUsb devices carrier : List (Atomic K)).filterMap (·.ifname) =
      (devices.filterMap (·.ifname)).filter (· ≠ "") := by
  rw [discoverUsb, List.filterMap_filterMap, List.filter_filterMap]
  refine List.filterMap_congr fun device _ => ?_
  cases device.ifname.filter (· ≠ "") with
  | none => rfl
  | some ifname => rfl

/-- Every interface is reported once at most, with the device it is part of. -/
structure OneEach (K : Type) [Zero K] (s : SysUsb) : Prop where
  nodup : (s.devices.filterMap (·.ifname)).Nodup
  owned : ∀ u ∈ s.devices, ∀ n, u.ifname = some n → ∃ e ∈ s.buses.entries,
    e.files.idVendor = some u.vendor ∧ e.files.idProduct = some u.product ∧
      u.serial = e.files.serial ∧ u.portPath = e.name ∧ n ∈ e.below.own
  atomics : ∀ carrier,
    ((discoverUsb s.devices carrier : List (Atomic K)).filterMap (·.ifname)).Nodup

theorem oneEach_iff (s : SysUsb) :
    OneEach K s ↔
      ∀ e ∈ s.buses.entries, e.files.idVendor.isSome → e.files.idProduct.isSome →
        e.below.OwnFirst := by
  have hids : ∀ e : UsbEntry,
      e.device.isSome ↔ e.files.idVendor.isSome ∧ e.files.idProduct.isSome := by
    intro e
    unfold UsbEntry.device
    cases e.files.idVendor <;> cases e.files.idProduct <;> simp
  constructor
  · intro h e he hv hp
    obtain ⟨u, hdevice⟩ := Option.isSome_iff_exists.mp ((hids e).mpr ⟨hv, hp⟩)
    by_contra hfirst
    obtain ⟨n, hn, hforeign⟩ := SysUsb.reported_foreign he hdevice hfirst
    obtain ⟨d, hd, -, -, -, hport, hown⟩ := h.owned u (SysUsb.mem_devices.mpr ⟨e, he, hdevice⟩) n hn
    have hname : e.name = d.name := (UsbEntry.device_ok hdevice).2.2.2.1.symm.trans hport
    exact hforeign (SysUsb.entry_unique he hd hname ▸ hown)
  · intro h
    have hfirst : ∀ e ∈ s.buses.entries, e.device.isSome → e.below.OwnFirst :=
      fun e he hdevice => h e he ((hids e).mp hdevice).1 ((hids e).mp hdevice).2
    refine ⟨SysUsb.nodup_ifnames hfirst, fun u hu n hn => ?_, fun carrier => ?_⟩
    · obtain ⟨e, he, hdevice, hown⟩ := SysUsb.reported_own hfirst hu hn
      obtain ⟨hv, hp, hserial, hport, -⟩ := UsbEntry.device_ok hdevice
      exact ⟨e, he, hv, hp, hserial, hport, hown⟩
    · rw [ifnames_discoverUsb]
      exact (SysUsb.nodup_ifnames hfirst).filter _

def oneAdapter : SysUsb where
  buses :=
    .device "usb1" ⟨some "1d6b", some "0002", some "3f980000.usb", some "DWC OTG Controller"⟩
      (.interface ⟨some "09", some "00", some "00"⟩ [] <|
        .device "1-1" ⟨some "0bda", some "8153", some "000001", some "USB 10/100/1000 LAN"⟩
          (.interface ⟨some "02", some "06", some "00"⟩ ["eth0"] .nil) .nil)
      .nil
  nodup_names := by decide
  nodup_nets := by decide

/-- The hub is reported with the adapter's interface, and so is the adapter. -/
theorem oneAdapter_twice : ¬ OneEach ℤ oneAdapter := fun h => absurd h.nodup (by decide)

end Wifucked
