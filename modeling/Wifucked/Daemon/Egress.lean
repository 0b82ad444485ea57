import Wifucked.Allocator.Dwell
import Wifucked.Daemon.Carrier

/-!
# Where a class leaves the box

Marked traffic is routed at the tunnel, and the tunnel is on the primary. A
share of an active backup therefore moves its class there only when the backup
is the primary, or the tunnel is left on it.
-/

namespace Wifucked

variable {K : Type}

/-- The connection the traffic of a class leaves over, through the tunnel. -/
def Daemon.egress (d : Daemon K) (profileName : String) : Option String :=
  d.handed.bind fun desired =>
    (d.profiles.find? fun p => p.name = profileName).bind fun p =>
      (desired.routes.find? fun r => r.fwmark = p.vlan).bind fun r =>
        if r.ifname = d.tunnel.interface then d.tunnel.viaAtomicId else none

theorem Daemon.bindTunnel_frame (d : Daemon K) (env : TunnelEnv) (byId : Registry K) :
    (d.bindTunnel env byId).profiles = d.profiles ∧
      (d.bindTunnel env byId).tunnel.interface = d.tunnel.interface := by
  unfold bindTunnel
  split
  · exact ⟨rfl, rfl⟩
  · split
    · exact ⟨rfl, rfl⟩
    · exact ⟨rfl, Tunnel.bindTo_interface ..⟩

open Allocator in
theorem Allocator.id_ne_of_mem_poolOf {i : DecideInput K} (hids : (i.atomics.map (·.id)).Nodup)
    (hx : backupOf i = some x) (hp : p ∈ poolOf i.atomics) : p.id ≠ x.id := by
  intro hid
  obtain ⟨hxa, hxm, -⟩ := mem_backupsOf.mp (mem_of_backupOf hx)
  obtain ⟨hpa, hpm⟩ := mem_poolOf hp
  rw [List.inj_on_of_nodup_map hids hpa hxa hid, hxm] at hpm
  cases hpm

variable [Field K] [LinearOrder K]

theorem Daemon.egress_fastLoop {d : Daemon K} (hal : d.allocation = some al)
    (hq : ∀ s ∈ al.shares, s.atomicId ∉ al.quiesced) (env : TunnelEnv) (hs : share ∈ al.shares)
    (hpos : share.ceilingBps ≠ 0) (hif : ((d.registry.get? share.atomicId).bind (·.iface)).isSome)
    (hprof : ∃ p ∈ d.profiles, p.name = share.profileName) :
    (d.fastLoop env).egress share.profileName = (d.fastLoop env).tunnel.viaAtomicId := by
  obtain ⟨desired, hr, hf⟩ := fastLoop_ok hal hq env
  obtain ⟨-, -, hroutes, -⟩ := render_eq_ok hr
  obtain ⟨hprofiles, hinterface⟩ :=
    bindTunnel_frame { d with handed := some desired } env d.registry.byId
  obtain ⟨p, hp⟩ : ∃ p, (d.profiles.find? fun p => p.name = share.profileName) = some p := by
    obtain ⟨p, hp, hname⟩ := hprof
    refine Option.ne_none_iff_exists'.mp fun hn => ?_
    have hne := List.find?_eq_none.mp hn p hp
    simp [hname] at hne
  obtain ⟨ifname, hifname⟩ := Option.isSome_iff_exists.mp hif
  have hroute : routeForShare d.registry.byId d.profiles d.tunnel.interface share =
      some ⟨p.vlan, tableForAtomic share.atomicId, d.tunnel.interface⟩ := by
    simp only [routeForShare, hpos, if_false, Registry.get?_byId, hifname, hp, Option.map_some]
  obtain ⟨r, hfind⟩ : ∃ r, (desired.routes.find? fun r => r.fwmark = p.vlan) = some r := by
    refine Option.ne_none_iff_exists'.mp fun hn => ?_
    have hne := List.find?_eq_none.mp hn _ ((hroutes _).mpr ⟨share, hs, hroute⟩)
    simp at hne
  have htunnel : r.ifname = d.tunnel.interface := by
    obtain ⟨s, -, hrs⟩ := (hroutes r).mp (List.mem_of_find?_eq_some hfind)
    exact ifname_of_routeForShare hrs
  have hhanded : (d.fastLoop env).handed = some desired := by rw [hf, bindTunnel_handed]
  have hprofiles : (d.fastLoop env).profiles = d.profiles := by rw [hf]; exact hprofiles
  have hinterface : (d.fastLoop env).tunnel.interface = d.tunnel.interface := by
    rw [hf]; exact hinterface
  simp only [egress, hhanded, hprofiles, hinterface, Option.bind_some, hp, hfind, htunnel,
    if_true]

variable [HalfPow K]

namespace Allocator

/-- A class that may spend on a backup asks for something. -/
def Spends (a : Allocator K) (i : DecideInput K) : Prop :=
  ∃ p ∈ a.profiles, p.mayUseBackup = true ∧ 0 < ((i.demand p.name).map (·.downBps)).getD 0

variable {a : Allocator K} {i : DecideInput K}

theorem mem_shares_active (hids : (i.atomics.map (·.id)).Nodup) (hx : backupOf i = some x) :
    share ∈ (a.allocate .active i).shares ∧ share.atomicId = x.id ↔
      share ∈ backupShares x.id i.demand a.profiles := by
  obtain ⟨hxa, hxm, -⟩ := mem_backupsOf.mp (mem_of_backupOf hx)
  rw [← if_pos (c := BackupState.active = .active ∧ backupOf i = some x)
    (t := backupShares x.id i.demand a.profiles) (e := []) ⟨rfl, hx⟩,
    ← filter_shares_backup hids hxa hxm]
  simp

theorem spends_iff (hids : (i.atomics.map (·.id)).Nodup) (hx : backupOf i = some x) :
    a.Spends i ↔ ∃ share ∈ (a.allocate .active i).shares,
      share.atomicId = x.id ∧ 0 < share.ceilingBps := by
  constructor
  · rintro ⟨p, hp, hmay, hpos⟩
    obtain ⟨hs, hid⟩ := (mem_shares_active hids hx).mpr (List.mem_map.mpr ⟨p, hp, rfl⟩)
    exact ⟨_, hs, hid, by simpa [hmay] using hpos⟩
  · rintro ⟨share, hs, hid, hpos⟩
    obtain ⟨p, hp, rfl⟩ := List.mem_map.mp ((mem_shares_active hids hx).mp ⟨hs, hid⟩)
    by_cases hmay : p.mayUseBackup = true
    · exact ⟨p, hp, hmay, by simpa [hmay] using hpos⟩
    · simp [hmay] at hpos

end Allocator

open Allocator

section

variable {d : Daemon K} {a : Allocator K} {i : DecideInput K} {env : TunnelEnv} {al : Allocation}

/-- Over an active backup the tunnel ends up on it where no NORMAL connection
is the primary, or where the primary cannot be bound and the tunnel was there. -/
theorem via_fastLoop_iff (hids : (i.atomics.map (·.id)).Nodup)
    (hallocate : a.allocate .active i = al) (hal : d.allocation = some al)
    (hx : backupOf i = some x) (hif : ((d.registry.get? x.id).bind (·.iface)).isSome)
    (henv : Tunnel.succeeds env = true) :
    (d.fastLoop env).tunnel.viaAtomicId = some x.id ↔
      poolOf i.atomics = [] ∨
        (∀ p, best a.t (poolOf i.atomics) i.now = some p →
          (d.registry.get? p.id).bind (·.iface) = none) ∧
        d.tunnel.viaAtomicId = some x.id := by
  subst hallocate
  have hprim : (a.allocate .active i).primaryId = (a.primaryOf .active i).map (·.id) := rfl
  rw [primaryOf_eq, if_pos (backupActiveIn_eq_true.mpr ⟨rfl, x, hx⟩), hx] at hprim
  rw [Daemon.fastLoop_via hal (fun _ => not_quiesced_of_mem_shares hids) env]
  by_cases hpool : poolOf i.atomics = []
  · -- The backup is the primary, and the move to it succeeds.
    rw [if_pos hpool, Option.map_some] at hprim
    obtain ⟨ifname, hifname⟩ := Option.isSome_iff_exists.mp hif
    have hb : d.reboundTo env = some x.id := by
      simp [Daemon.reboundTo, hal, hprim, hifname, henv]
    simp [hb, hpool]
  · rw [if_neg hpool] at hprim
    obtain ⟨p, hp⟩ := Option.ne_none_iff_exists'.mp (mt best_eq_none.mp hpool)
    have hne : p.id ≠ x.id := id_ne_of_mem_poolOf hids hx (mem_of_best hp)
    rw [hp, Option.map_some] at hprim
    simp only [hpool, hp, Option.some.injEq, forall_eq', false_or]
    cases hifname : (d.registry.get? p.id).bind (·.iface) with
    | none =>
      have hb : d.reboundTo env = none := by simp [Daemon.reboundTo, hal, hprim, hifname]
      simp [hb]
    | some ifname =>
      have hb : d.reboundTo env = some p.id := by
        simp [Daemon.reboundTo, hal, hprim, hifname, henv]
      simp [hb, hne]

theorem egress_of_active (hids : (i.atomics.map (·.id)).Nodup)
    (hallocate : a.allocate .active i = al) (hprofiles : a.profiles = d.profiles)
    (hal : d.allocation = some al) (hx : backupOf i = some x)
    (hif : ((d.registry.get? x.id).bind (·.iface)).isSome) (hs : share ∈ al.shares)
    (hid : share.atomicId = x.id) (hpos : 0 < share.ceilingBps) :
    (d.fastLoop env).egress share.profileName = (d.fastLoop env).tunnel.viaAtomicId := by
  subst hallocate
  refine Daemon.egress_fastLoop hal (fun _ => not_quiesced_of_mem_shares hids) env hs hpos.ne'
    (by rwa [hid]) ?_
  obtain ⟨p, hp, rfl⟩ := List.mem_map.mp ((mem_shares_active hids hx).mp ⟨hs, hid⟩)
  exact ⟨p, hprofiles ▸ hp, rfl⟩

/-- After a fast loop that can move the tunnel, every class with a share of the
active backup leaves over it, exactly when no class that may spend asks for
anything, or there was no NORMAL connection to be the primary, or the primary
has no interface now and the tunnel was on the backup before. -/
theorem egress_follows_shares_iff (hids : (i.atomics.map (·.id)).Nodup)
    (hprofiles : a.profiles = d.profiles) (hlast : (a.decide i).last = some al)
    (hal : d.allocation = some al) (hactive : al.backupActive = true) (hx : backupOf i = some x)
    (hif : ((d.registry.get? x.id).bind (·.iface)).isSome)
    (henv : Tunnel.succeeds env = true) :
    (∀ share ∈ al.shares, share.atomicId = x.id → 0 < share.ceilingBps →
        (d.fastLoop env).egress share.profileName = some x.id) ↔
      ¬a.Spends i ∨ poolOf i.atomics = [] ∨
        (∀ p, best a.t (poolOf i.atomics) i.now = some p →
          (d.registry.get? p.id).bind (·.iface) = none) ∧
        d.tunnel.viaAtomicId = some x.id := by
  have hdecided : a.allocate (a.decide i).h.state i = al := Option.some.inj hlast
  have hstate : (a.decide i).h.state = .active := by
    rw [← hdecided] at hactive
    exact (backupActiveIn_eq_true.mp hactive).1
  have hallocate : a.allocate .active i = al := hstate ▸ hdecided
  rw [spends_iff hids hx, hallocate, ← via_fastLoop_iff hids hallocate hal hx hif henv]
  constructor
  · intro h
    refine or_iff_not_imp_left.mpr fun hspends => ?_
    obtain ⟨share, hs, hid, hpos⟩ := not_not.mp hspends
    rw [← egress_of_active hids hallocate hprofiles hal hx hif hs hid hpos]
    exact h share hs hid hpos
  · rintro (hspends | hvia) share hs hid hpos
    · exact absurd ⟨share, hs, hid, hpos⟩ hspends
    · rw [egress_of_active hids hallocate hprofiles hal hx hif hs hid hpos, hvia]

end

def phone : Atomic ℚ :=
  { dock true with id := "wifi:phone", kind := .wifi, label := "Phone", ifname := some "wlan1" }

def calling : Demand := fun name =>
  if name = critical.name then some ⟨name, 2000000, 500000, true⟩ else none

/-- Up to the decision that activates the phone, a backup by the user's choice. -/
def dwelling (seen : List (Atomic ℚ)) : Daemon ℚ :=
  Runs.exec Daemon.step (Daemon.init { hotspot with lanMode := "two_bss" } none ⟨0, 0⟩)
    (during 0 [.discover seen, .setMode "wifi:phone" .backup, .decide calling] ++
      during 120 [.discover seen])

def activated (seen : List (Atomic ℚ)) : Daemon ℚ := (dwelling seen).decide ⟨120, 120⟩ calling

/-- Alone, the phone carries the call. -/
theorem egress_follows_shares_alone :
    ((activated [phone]).fastLoop wired).egress critical.name = some "wifi:phone" := by
  let i : DecideInput ℚ := ⟨120, (dwelling [phone]).registry.all, calling⟩
  let al : Allocation := ⟨some "wifi:phone", true,
    [⟨"wifi:phone", critical.name, 2000000⟩, ⟨"wifi:phone", bestEffort.name, 0⟩], []⟩
  have hal : ((dwelling [phone]).allocator.decide i).last = some al := by decide +kernel
  have hx : backupOf i =
      some { phone with mode := .backup, firstSeen := some 0, lastSeen := some 120 } := by
    decide +kernel
  have hfollows := (egress_follows_shares_iff (d := activated [phone]) (i := i) (by decide +kernel)
    rfl hal hal rfl hx (by decide +kernel) (by decide +kernel : Tunnel.succeeds wired = true)).mpr
    (.inr (.inl (by decide +kernel)))
  exact hfollows ⟨"wifi:phone", critical.name, 2000000⟩ (by simp [al]) rfl (by decide)

/-- Beside a degraded NORMAL connection the call is given to the phone, and
still leaves over that connection. -/
theorem egress_stays_behind :
    let d := activated [{ dock true with health := .degraded }, phone]
    ¬∀ al, d.allocation = some al → al.backupActive = true →
      ∀ share ∈ al.shares, share.atomicId = "wifi:phone" → 0 < share.ceilingBps →
        (d.fastLoop wired).egress share.profileName = some "wifi:phone" := by
  decide +kernel

end Wifucked
