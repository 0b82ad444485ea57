import Wifucked.Allocator.Filling
import Wifucked.Daemon.Measured

/-!
# Whether an estimate can be learned

A route is installed for what a decision believes of the pool. A connection
that was never measured is given enough to be learned; one whose estimate has
aged is believed to have nothing, and keeps it so.
-/

namespace Wifucked

variable {K : Type}

-- ---------------------------------------------------------------------------
-- What the shares of the primary come to
-- ---------------------------------------------------------------------------

namespace Allocator

theorem exists_positive_share {ps : List ServiceProfile} {headroom : Int} (x : String)
    (demand : Demand) (h : 0 < headroom) (hp : p ∈ ps) (hwant : 0 < wantBps demand p.name) :
    ∃ s ∈ primaryShares x demand headroom ps, ∃ q ∈ ps, s.profileName = q.name ∧
      0 < wantBps demand q.name ∧ 0 < s.ceilingBps := by
  induction ps generalizing headroom with
  | nil => cases hp
  | cons q ps ih =>
    rw [primaryShares_cons, if_pos h.ne']
    by_cases hq : 0 < wantBps demand q.name
    · exact ⟨_, List.mem_cons_self, q, List.mem_cons_self, rfl, hq, lt_min hq h⟩
    · have hp : p ∈ ps := by
        rcases List.mem_cons.mp hp with rfl | hp
        · exact absurd hwant hq
        · exact hp
      have hgive : min (wantBps demand q.name) headroom ≤ 0 :=
        (min_le_left _ _).trans (not_lt.mp hq)
      have hleft : 0 < max 0 (headroom - min (wantBps demand q.name) headroom) :=
        lt_max_of_lt_right (by omega)
      obtain ⟨s, hs, r, hr, hshare⟩ := ih hleft hp
      exact ⟨s, List.mem_cons_of_mem _ hs, r, List.mem_cons_of_mem _ hr, hshare⟩

variable [Field K] [LinearOrder K] [HalfPow K]

/-- Never measured, or measured with confidence at something. -/
def Learnable (t : Thresholds K) (now : K) (a : Atomic K) : Prop :=
  confident t a now = false ∧ a.capacity.measuredAt = none ∨
    confident t a now = true ∧ 0 < a.capacity.downBps

theorem believedBps_pos {t : Thresholds K} {a : Atomic K} {now : K} :
    0 < believedBps t a now ↔ Learnable t now a := by
  unfold believedBps Learnable
  cases confident t a now with
  | true => simp
  | false =>
    cases a.capacity.measuredAt with
    | none => simp [bootstrapHeadroomBps]
    | some m => simp

theorem believedBps_nonneg (t : Thresholds K) {a : Atomic K} (h : 0 ≤ a.capacity.downBps)
    (now : K) : 0 ≤ believedBps t a now := by
  unfold believedBps
  split
  · exact h
  · split
    · simp [bootstrapHeadroomBps]
    · exact le_rfl

theorem usableCapacity_pos_iff (t : Thresholds K) {pool : List (Atomic K)} (now : K)
    (h : ∀ a ∈ pool, 0 ≤ a.capacity.downBps) :
    0 ≤ usableCapacity t pool now ∧
      (0 < usableCapacity t pool now ↔ ∃ a ∈ pool, Learnable t now a) := by
  induction pool with
  | nil => simp [usableCapacity]
  | cons a pool ih =>
    obtain ⟨ha, hpool⟩ := List.forall_mem_cons.mp h
    obtain ⟨hnonneg, hpos⟩ := ih hpool
    have hbelieved := believedBps_nonneg t ha now
    have hsum : usableCapacity t (a :: pool) now =
        believedBps t a now + usableCapacity t pool now := rfl
    have hsome : (∃ b ∈ a :: pool, Learnable t now b) ↔
        Learnable t now a ∨ ∃ b ∈ pool, Learnable t now b := by simp
    rw [hsum, hsome, ← hpos, ← believedBps_pos]
    omega

/-- With a pool there is a primary, which is not the backup, and its shares
come out of what is believed of the pool. -/
theorem shares_of_pool (a : Allocator K) (state : BackupState) (i : DecideInput K)
    (hids : (i.atomics.map (·.id)).Nodup) (hpool : poolOf i.atomics ≠ []) :
    ∃ p ∈ poolOf i.atomics, (a.allocate state i).primaryId = some p.id ∧
      ∀ s, s.atomicId = p.id → (s ∈ (a.allocate state i).shares ↔
        s ∈ primaryShares p.id i.demand (max 0 (a.normalCapacity i))
          (a.profiles.insertionSort fun p q => p.priority.value ≤ q.priority.value)) := by
  obtain ⟨p, hbest⟩ := Option.ne_none_iff_exists'.mp (mt best_eq_none.mp hpool)
  have hp := mem_of_best hbest
  have hprimary : a.primaryOf state i = some p := by
    rw [primaryOf_eq, if_neg hpool, hbest]
  have hne : some p ≠ backupOf i := fun h => id_ne_of_backupOf hids hp h.symm rfl
  refine ⟨p, hp, by rw [allocate, build, hprimary]; rfl, fun s hs => ?_⟩
  simp only [allocate, build, hprimary, normalShares, if_pos hne, List.mem_append]
  refine or_iff_left fun hspend => ?_
  obtain ⟨b, hb, -, hs'⟩ := mem_spendingShares hspend
  exact id_ne_of_backupOf hids hp hb (hs.symm.trans (atomicId_of_mem_backupShares hs'))

end Allocator

namespace Daemon

variable [Field K] [LinearOrder K] [HalfPow K]

def Demands (d : Daemon K) (demand : Demand) (p : ServiceProfile) : Prop :=
  p ∈ d.allocator.profiles ∧ ∃ want, demand p.name = some want ∧
    (0 < want.downBps ∨ 0 < want.upBps)

/-- The decision gives some demanding class a share of the primary, and the
route for it is rendered wherever the primary has an interface. -/
def OpensRoute (d : Daemon K) (r : Reading K) (demand : Demand) : Prop :=
  ∃ al x s p, (d.decide r demand).allocation = some al ∧ al.primaryId = some x ∧
    s ∈ al.shares ∧ s.atomicId = x ∧ 0 < s.ceilingBps ∧ s.profileName = p.name ∧
    d.Demands demand p ∧
    ((d.registry.get? x).bind (·.iface) ≠ none → ∃ desired,
      render al d.registry.byId d.profiles d.tunnel.interface = .ok desired ∧
        ∃ route ∈ desired.routes,
          routeForShare d.registry.byId d.profiles d.tunnel.interface s = some route)

theorem wantBps_pos {demand : Demand} {name : String} :
    0 < Allocator.wantBps demand name ↔ ∃ want, demand name = some want ∧
      (0 < want.downBps ∨ 0 < want.upBps) := by
  unfold Allocator.wantBps
  cases demand name with
  | none => simp
  | some want => simp

/-- A decision opens a route out of a pool exactly where there is something to
learn from it. -/
theorem opensRoute_iff {d : Daemon K} (hprofiles : d.allocator.profiles = d.profiles)
    (hcapacity : d.registry.All Capacious) {r : Reading K} {demand : Demand}
    (hpool : Allocator.poolOf d.registry.all ≠ []) (hdemand : ∃ p, d.Demands demand p) :
    d.OpensRoute r demand ↔
      ∃ a ∈ Allocator.poolOf d.registry.all, Allocator.Learnable d.allocator.t r.now a := by
  set i : DecideInput K := ⟨r.now, d.registry.all, demand⟩ with hi
  have hnonneg : ∀ a ∈ Allocator.poolOf d.registry.all, 0 ≤ a.capacity.downBps := fun a ha =>
    (hcapacity a (d.registry.perm_all.mem_iff.mp (List.mem_of_mem_filter ha))).1
  obtain ⟨hcap, hpos⟩ := Allocator.usableCapacity_pos_iff d.allocator.t r.now hnonneg
  rw [← hpos]
  set state := (d.allocator.nextHysteresis i).state
  obtain ⟨x, hx, hprimary, hshares⟩ :=
    d.allocator.shares_of_pool state i d.registry.nodup_all hpool
  have hal : (d.decide r demand).allocation = some (d.allocator.allocate state i) := rfl
  constructor
  · rintro ⟨al, y, s, p, hal', hy, hs, hid, hceiling, -⟩
    obtain rfl := Option.some.inj (hal.symm.trans hal')
    obtain rfl := Option.some.inj (hprimary.symm.trans hy)
    have hs := (hshares s hid).mp hs
    by_contra hzero
    have hheadroom : max 0 (d.allocator.normalCapacity i) = 0 := max_eq_left (not_lt.mp hzero)
    rw [hheadroom] at hs
    exact hceiling.ne' (Allocator.ceiling_of_no_headroom hs)
  · intro hcap
    obtain ⟨p, hp, hwant⟩ := hdemand
    have hp := (List.perm_insertionSort (fun p q : ServiceProfile =>
      p.priority.value ≤ q.priority.value) d.allocator.profiles).mem_iff.mpr hp
    obtain ⟨s, hs, q, hq, hname, hwants, hceiling⟩ := Allocator.exists_positive_share x.id demand
      (lt_max_of_lt_right hcap) hp (wantBps_pos.mpr hwant)
    have hid := Allocator.atomicId_of_mem_primaryShares hs
    have hs := (hshares s hid).mpr hs
    have hq := (List.perm_insertionSort _ _).mem_iff.mp hq
    refine ⟨_, x.id, s, q, hal, hprimary, hs, hid, hceiling, hname,
      ⟨hq, wantBps_pos.mp hwants⟩, fun hiface => ?_⟩
    obtain ⟨desired, hrender⟩ : ∃ desired, render (d.allocator.allocate state i) d.registry.byId
        d.profiles d.tunnel.interface = .ok desired :=
      render_ok fun s hs => Allocator.not_quiesced_of_mem_shares d.registry.nodup_all hs
    obtain ⟨ifname, hifname⟩ := Option.ne_none_iff_exists'.mp hiface
    obtain ⟨profile, hprofile⟩ : ∃ profile,
        (d.profiles.find? fun p => p.name = s.profileName) = some profile := by
      rw [← Option.isSome_iff_exists, List.find?_isSome]
      exact ⟨q, hprofiles ▸ hq, by simp [hname]⟩
    have hroute : routeForShare d.registry.byId d.profiles d.tunnel.interface s =
        some ⟨profile.vlan, tableForAtomic s.atomicId, d.tunnel.interface⟩ := by
      simp [routeForShare, hceiling.ne', hid, hifname, hprofile]
    obtain ⟨-, -, hroutes, -⟩ := render_eq_ok hrender
    exact ⟨desired, hrender, _, (hroutes _).mpr ⟨s, hs, hroute⟩, hroute⟩

variable [FloorRing K]

variable [IsStrictOrderedRing K]

/-- From any state that sweeps, measurements and restarts lead to. -/
theorem opensRoute_run_iff (config : Config K) (r : Reading K) {es : List (Event K)}
    (hes : Runs.Along step Genuine (init config none r) es) {r' : Reading K} {demand : Demand}
    (hpool : Allocator.poolOf (Runs.exec step (init config none r) es).registry.all ≠ [])
    (hdemand : ∃ p, (Runs.exec step (init config none r) es).Demands demand p) :
    (Runs.exec step (init config none r) es).OpensRoute r' demand ↔
      ∃ a ∈ Allocator.poolOf (Runs.exec step (init config none r) es).registry.all,
        Allocator.Learnable (Runs.exec step (init config none r) es).allocator.t r'.now a := by
  have hconfigured := configured_run config none r es
  exact opensRoute_iff hconfigured.profiles_eq (capacious_run config r hes) hpool hdemand

def busyOnce : Observation ℚ := ⟨"usb:dock", 10000000, 1000000, none, none, none, none, true⟩

def measuredOnce : List (Event ℚ) :=
  during 0 [.discover [dock true], .measure (dock true) busyOnce]

theorem measuredOnce_genuine :
    Runs.Along step Genuine (init hotspot none ⟨0, 0⟩) measuredOnce := by
  have hheld : (((init hotspot none ⟨0, 0⟩).step ⟨⟨0, 0⟩, .discover [dock true]⟩).registry.get?
      "usb:dock").map (·.capacity) = some (dock true).capacity := by decide +kernel
  refine ⟨?_, ⟨fun a ha => ?_, by decide, by decide⟩, trivial⟩
  · intro a ha
    rw [List.mem_singleton.mp ha]
    exact ⟨rfl, rfl, rfl, rfl⟩
  · have ha : Keyed.get? ((init hotspot none ⟨0, 0⟩).step
        ⟨⟨0, 0⟩, .discover [dock true]⟩).registry "usb:dock" = some a := ha
    rw [ha] at hheld
    exact Option.some.inj hheld

theorem opensRoute_measuredOnce :
    (Runs.exec step (init hotspot none ⟨0, 0⟩) measuredOnce).OpensRoute ⟨10, 10⟩ browsing ↔
      ∃ a ∈ Allocator.poolOf (Runs.exec step (init hotspot none ⟨0, 0⟩) measuredOnce).registry.all,
        Allocator.Learnable (Runs.exec step (init hotspot none ⟨0, 0⟩) measuredOnce).allocator.t
          10 a :=
  opensRoute_run_iff hotspot ⟨0, 0⟩ measuredOnce_genuine (by decide +kernel)
    ⟨bestEffort, by decide +kernel, ⟨_, rfl, .inl (by decide)⟩⟩

/-- Two hours later the adapter is all there is and gets no route. -/
theorem aged_out_of_routes :
    Allocator.poolOf (Runs.exec step (init hotspot none ⟨0, 0⟩) measuredOnce).registry.all ≠ [] ∧
      (Runs.exec step (init hotspot none ⟨0, 0⟩) measuredOnce).Demands browsing bestEffort ∧
      ¬ (Runs.exec step (init hotspot none ⟨0, 0⟩) measuredOnce).OpensRoute ⟨7200, 7200⟩
        browsing := by
  refine ⟨by decide +kernel, ⟨by decide +kernel, ⟨_, rfl, .inl (by decide)⟩⟩, ?_⟩
  rintro ⟨al, x, s, p, hal, -, hs, -, hceiling, -⟩
  have hzero : (((Runs.exec step (init hotspot none ⟨0, 0⟩) measuredOnce).decide ⟨7200, 7200⟩
      browsing).allocation.map fun al => al.shares.map (·.ceilingBps)) = some [0] := by
    decide +kernel
  rw [hal] at hzero
  have hzero : al.shares.map (·.ceilingBps) = [0] := Option.some.inj hzero
  have hmem : s.ceilingBps ∈ al.shares.map (·.ceilingBps) := List.mem_map_of_mem hs
  rw [hzero] at hmem
  exact hceiling.ne' (List.mem_singleton.mp hmem)

end Daemon

end Wifucked
