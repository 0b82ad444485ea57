import Mathlib.Data.List.Pairwise
import Mathlib.Data.List.Sort
import Mathlib.Data.String.Basic
import Wifucked.Atomics.Identity

/-!
# USB devices in sysfs

The directory of a device holds its own interface directories and the
directories of the devices plugged into it. Each device is reported with the
first network interface that a search of its directory comes to.
-/

namespace Wifucked

/-- What the files of an interface directory read as. -/
structure UsbDescriptor where
  interfaceClass : Option String
  interfaceSubClass : Option String
  interfaceProtocol : Option String
  deriving DecidableEq, Repr

/-- What the files of a device directory read as. -/
structure UsbFiles where
  idVendor : Option String
  idProduct : Option String
  serial : Option String
  product : Option String
  deriving DecidableEq, Repr

/-- What a directory holds, in the order in which a search visits it. -/
inductive Listing where
  | nil
  | interface (descriptor : UsbDescriptor) (nets : List String) (rest : Listing)
  | device (name : String) (files : UsbFiles) (below rest : Listing)

structure UsbEntry where
  name : String
  files : UsbFiles
  below : Listing

structure UsbDevice where
  vendor : String
  product : String
  serial : Option String
  portPath : String
  ifname : Option String
  isTether : Bool
  description : String
  deriving DecidableEq, Repr

def rndisClass : String := "e0"
def rndisSubclass : String := "01"
def rndisProtocol : String := "03"

def cdcClass : String := "02"
def cdcEthernetSubclasses : List String := ["06", "0c", "0d"]

def classifyInterface (d : UsbDescriptor) : Option Bool :=
  if d.interfaceClass = some rndisClass && d.interfaceSubClass = some rndisSubclass &&
      d.interfaceProtocol = some rndisProtocol then some true
  else if d.interfaceClass = some cdcClass &&
      d.interfaceSubClass.any (· ∈ cdcEthernetSubclasses) then some false
  else none

namespace Listing

/-- `rglob("net/*")`, which goes down into the devices below as well. -/
def nets : Listing → List (UsbDescriptor × String)
  | nil => []
  | interface descriptor names rest => names.map (fun name => (descriptor, name)) ++ rest.nets
  | device _ _ below rest => below.nets ++ rest.nets

/-- The devices, each of which has an entry in the flat list of them all. -/
def entries : Listing → List UsbEntry
  | nil => []
  | interface _ _ rest => rest.entries
  | device name files below rest => ⟨name, files, below⟩ :: (below.entries ++ rest.entries)

/-- The network interfaces that the interface directories of the device hold. -/
def own : Listing → List String
  | nil => []
  | interface _ names rest => names ++ rest.own
  | device _ _ _ rest => rest.own

/-- Whether a search that finds an interface finds one of the device's own,
since nothing plugged in before it has any. -/
def OwnFirst : Listing → Prop
  | nil => True
  | interface _ names rest => names ≠ [] ∨ rest.OwnFirst
  | device _ _ below rest => below.nets = [] ∧ rest.OwnFirst

end Listing

def netInterfaceFor (below : Listing) : Option String × Bool :=
  match below.nets with
  | [] => (none, false)
  | (descriptor, name) :: _ => (some name, (classifyInterface descriptor).getD true)

def UsbEntry.device (e : UsbEntry) : Option UsbDevice :=
  match e.files.idVendor, e.files.idProduct with
  | some vendor, some product =>
    let (ifname, isTether) := netInterfaceFor e.below
    some
      { vendor := vendor
        product := product
        serial := e.files.serial
        portPath := e.name
        ifname := ifname
        isTether := isTether
        description := e.files.product.getD "USB device" }
  | _, _ => none

/-- The devices of a host. The kernel gives each a name of its own, and each
network interface. -/
structure SysUsb where
  buses : Listing
  nodup_names : (buses.entries.map (·.name)).Nodup
  nodup_nets : (buses.nets.map (·.2)).Nodup

def SysUsb.devices (s : SysUsb) : List UsbDevice :=
  (s.buses.entries.insertionSort fun a b => a.name ≤ b.name).filterMap UsbEntry.device

-- ---------------------------------------------------------------------------
-- Whose interface it is
-- ---------------------------------------------------------------------------

namespace Listing

theorem perm_nets (l : Listing) :
    (l.nets.map (·.2)).Perm (l.own ++ l.entries.flatMap fun e => e.below.own) := by
  induction l with
  | nil => exact .refl _
  | interface descriptor names rest ih =>
    simp only [nets, own, entries, List.map_append, List.map_map, List.append_assoc]
    simpa [Function.comp_def] using ih.append_left names
  | device name files below rest ihBelow ihRest =>
    simp only [nets, own, entries, List.map_append, List.flatMap_cons, List.flatMap_append]
    refine (ihBelow.append ihRest).trans ?_
    rw [← List.append_assoc, ← List.append_assoc, ← List.append_assoc]
    exact (List.perm_append_comm.append_right _).trans (by simp)

variable {l : Listing} {net : UsbDescriptor × String}

theorem own_of_ownFirst (h : l.OwnFirst) (hn : l.nets = net :: ns) : net.2 ∈ l.own := by
  induction l with
  | nil => cases hn
  | interface descriptor names rest ih =>
    rcases names with _ | ⟨name, names⟩
    · exact ih (h.resolve_left (by simp)) hn
    · obtain ⟨rfl, -⟩ := List.cons.inj hn
      simp [own]
  | device name files below rest _ ih =>
    obtain ⟨hbelow, hrest⟩ := h
    rw [nets, hbelow, List.nil_append] at hn
    exact ih hrest hn

theorem entries_of_not_ownFirst (h : ¬ l.OwnFirst) :
    ∃ net ns, l.nets = net :: ns ∧ net.2 ∈ l.entries.flatMap fun e => e.below.own := by
  induction l with
  | nil => exact absurd trivial h
  | interface descriptor names rest ih =>
    obtain ⟨hnames, hrest⟩ := not_or.mp h
    obtain rfl : names = [] := not_not.mp hnames
    exact ih hrest
  | device name files below rest _ ih =>
    cases hbelow : below.nets with
    | nil =>
      obtain ⟨net, ns, hn, hm⟩ := ih fun hrest => h ⟨hbelow, hrest⟩
      refine ⟨net, ns, by rw [nets, hbelow, hn, List.nil_append], ?_⟩
      simp only [entries, List.flatMap_cons, List.flatMap_append, List.mem_append]
      exact .inr (.inr hm)
    | cons net ns =>
      refine ⟨net, ns ++ rest.nets, by rw [nets, hbelow, List.cons_append], ?_⟩
      have hm : net.2 ∈ below.own ++ below.entries.flatMap fun e => e.below.own :=
        below.perm_nets.subset (by simp [hbelow])
      simp only [entries, List.flatMap_cons, List.flatMap_append, List.mem_append]
      rcases List.mem_append.mp hm with hm | hm
      · exact .inl hm
      · exact .inr (.inl hm)

theorem nets_sublist (h : e ∈ l.entries) : e.below.nets.Sublist l.nets := by
  induction l with
  | nil => cases h
  | interface descriptor names rest ih => exact (ih h).trans (List.sublist_append_right _ _)
  | device name files below rest ihBelow ihRest =>
    rcases List.mem_cons.mp h with rfl | h
    · exact List.sublist_append_left _ _
    · rcases List.mem_append.mp h with h | h
      · exact (ihBelow h).trans (List.sublist_append_left _ _)
      · exact (ihRest h).trans (List.sublist_append_right _ _)

end Listing

theorem netInterfaceFor_eq_some {l : Listing} :
    (netInterfaceFor l).1 = some n ↔ ∃ net ns, l.nets = net :: ns ∧ net.2 = n := by
  unfold netInterfaceFor
  cases l.nets with
  | nil => simp
  | cons net ns => simp

theorem UsbEntry.device_ok {e : UsbEntry} (h : e.device = some u) :
    e.files.idVendor = some u.vendor ∧ e.files.idProduct = some u.product ∧
      u.serial = e.files.serial ∧ u.portPath = e.name ∧ u.ifname = (netInterfaceFor e.below).1 := by
  unfold device at h
  split at h
  · rename_i vendor product hv hp
    obtain rfl := Option.some.inj h
    exact ⟨hv, hp, rfl, rfl, rfl⟩
  · cases h

namespace SysUsb

theorem mem_devices {s : SysUsb} : u ∈ s.devices ↔ ∃ e ∈ s.buses.entries, e.device = some u := by
  simp [devices, List.mem_filterMap, (List.perm_insertionSort _ _).mem_iff]

theorem entry_unique {s : SysUsb} {e e' : UsbEntry} (h : e ∈ s.buses.entries)
    (h' : e' ∈ s.buses.entries) (hn : e.name = e'.name) : e = e' :=
  List.inj_on_of_nodup_map s.nodup_names h h' hn

theorem owner_unique {s : SysUsb} {e e' : UsbEntry} (h : e ∈ s.buses.entries)
    (h' : e' ∈ s.buses.entries) (hn : n ∈ e.below.own) (hn' : n ∈ e'.below.own) : e = e' := by
  have hnodup := (s.buses.perm_nets.nodup_iff.mp s.nodup_nets).of_append_right
  obtain ⟨-, hdisjoint⟩ := List.nodup_flatMap.mp hnodup
  have : Std.Symm (Function.onFun List.Disjoint fun e : UsbEntry => e.below.own) :=
    ⟨fun _ _ h _ hb ha => h ha hb⟩
  by_contra hne
  exact hdisjoint.forall h h' hne hn hn'

theorem reported_own {s : SysUsb}
    (h : ∀ e ∈ s.buses.entries, e.device.isSome → e.below.OwnFirst) (hu : u ∈ s.devices)
    (hn : u.ifname = some n) :
    ∃ e ∈ s.buses.entries, e.device = some u ∧ n ∈ e.below.own := by
  obtain ⟨e, he, hdevice⟩ := mem_devices.mp hu
  obtain ⟨-, -, -, -, hifname⟩ := UsbEntry.device_ok hdevice
  obtain ⟨net, ns, hnets, rfl⟩ := netInterfaceFor_eq_some.mp (hifname.symm.trans hn)
  exact ⟨e, he, hdevice, Listing.own_of_ownFirst (h e he (by simp [hdevice])) hnets⟩

theorem nodup_ifnames {s : SysUsb}
    (h : ∀ e ∈ s.buses.entries, e.device.isSome → e.below.OwnFirst) :
    (s.devices.filterMap (·.ifname)).Nodup := by
  have hperm := List.perm_insertionSort (fun a b : UsbEntry => a.name ≤ b.name) s.buses.entries
  have hentries : (s.buses.entries.insertionSort fun a b => a.name ≤ b.name).Nodup :=
    hperm.nodup_iff.mpr s.nodup_names.of_map
  rw [List.Nodup, List.pairwise_filterMap, devices, List.pairwise_filterMap]
  refine hentries.imp_of_mem ?_
  rintro e e' he he' hne u hu u' hu' n hn m hm rfl
  -- one name would be two devices' own
  have he := hperm.subset he
  have he' := hperm.subset he'
  obtain ⟨d, hd, hdu, hdn⟩ := reported_own h (mem_devices.mpr ⟨e, he, hu⟩) hn
  obtain ⟨d', hd', hdu', hdn'⟩ := reported_own h (mem_devices.mpr ⟨e', he', hu'⟩) hm
  have hport : ∀ {e d : UsbEntry} {u}, e ∈ s.buses.entries → d ∈ s.buses.entries →
      e.device = some u → d.device = some u → e = d := fun he hd h h' =>
    entry_unique he hd ((UsbEntry.device_ok h).2.2.2.1.symm.trans (UsbEntry.device_ok h').2.2.2.1)
  obtain rfl := hport he hd hu hdu
  obtain rfl := hport he' hd' hu' hdu'
  exact hne (owner_unique hd hd' hdn hdn')

/-- A search that comes to another device's interface first reports it. -/
theorem reported_foreign {s : SysUsb} {e : UsbEntry} (he : e ∈ s.buses.entries)
    (hdevice : e.device = some u) (h : ¬ e.below.OwnFirst) :
    ∃ n, u.ifname = some n ∧ n ∉ e.below.own := by
  obtain ⟨net, ns, hnets, hm⟩ := Listing.entries_of_not_ownFirst h
  obtain ⟨-, -, -, -, hifname⟩ := UsbEntry.device_ok hdevice
  refine ⟨net.2, hifname.trans (netInterfaceFor_eq_some.mpr ⟨net, ns, hnets, rfl⟩), fun hown => ?_⟩
  have hnodup := s.nodup_nets.sublist ((Listing.nets_sublist he).map (·.2))
  have hnodup := e.below.perm_nets.nodup_iff.mp hnodup
  exact List.disjoint_of_nodup_append hnodup hown hm

end SysUsb

end Wifucked
