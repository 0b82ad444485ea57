import Wifucked.Allocator.Filling

/-!
# One path, or the sum of them

One connection of the pool carries the traffic; the others are quiesced. What
is handed out and what the deficit is taken from is the sum of what is
believed of the whole pool.
-/

namespace Wifucked.Allocator

theorem sum_map_of_mem {α : Type u} {κ : Type v} [DecidableEq κ] {key : α → κ} {l : List α}
    {a : α} (h : (l.map key).Nodup) (ha : a ∈ l) (f : α → Int) :
    (l.map f).sum = f a + ((l.filter fun b => key b ≠ key a).map f).sum := by
  induction l with
  | nil => cases ha
  | cons b l ih =>
    obtain ⟨hb, hl⟩ := List.nodup_cons.mp h
    rcases List.mem_cons.mp ha with rfl | ha
    · have hrest : (l.filter fun c => key c ≠ key a) = l := by
        rw [List.filter_eq_self]
        intro c hc
        have : key c ≠ key a := fun he => hb (he ▸ List.mem_map_of_mem hc)
        simpa using this
      rw [List.filter_cons_of_neg (by simp), hrest, List.map_cons, List.sum_cons]
    · have hne : key b ≠ key a := fun he => hb (he ▸ List.mem_map_of_mem ha)
      rw [List.filter_cons_of_pos (by simpa using hne), List.map_cons, List.sum_cons, ih hl ha,
        List.map_cons, List.sum_cons]
      omega

section

variable {K : Type} [Field K] [LinearOrder K] [HalfPow K]

def ceilingOn (allocation : Allocation) (id : String) : Int :=
  ((allocation.shares.filter (·.atomicId = id)).map (·.ceilingBps)).sum

/-- The NORMAL primary is given no more than is believed of it, and the deficit
is what critical demand has over that. -/
def FailsOver (a : Allocator K) (i : DecideInput K) : Prop :=
  ∀ p ∈ poolOf i.atomics, (a.decided i).primaryId = some p.id →
    ceilingOn (a.decided i) p.id ≤ believedBps a.t p i.now ∧
      a.criticalDemand i - a.normalCapacity i = a.criticalDemand i - believedBps a.t p i.now

def passedOverBps (a : Allocator K) (i : DecideInput K) (p : Atomic K) : Int :=
  usableCapacity a.t ((poolOf i.atomics).filter (·.id ≠ p.id)) i.now

theorem normalCapacity_eq_add {a : Allocator K} {i : DecideInput K}
    (hids : (i.atomics.map (·.id)).Nodup) (hp : p ∈ poolOf i.atomics) :
    a.normalCapacity i = believedBps a.t p i.now + a.passedOverBps i p :=
  sum_map_of_mem (hids.sublist (List.filter_sublist.map _)) hp _

variable {a : Allocator K} {state : BackupState} {i : DecideInput K}

theorem best_of_primaryId (hids : (i.atomics.map (·.id)).Nodup) (hp : p ∈ poolOf i.atomics)
    (h : (a.allocate state i).primaryId = some p.id) :
    best a.t (poolOf i.atomics) i.now = some p := by
  obtain ⟨q, hq, hid⟩ := Option.map_eq_some_iff.mp h
  have hqp : q = p :=
    List.inj_on_of_nodup_map hids (mem_atomics_of_primaryOf hq) (mem_poolOf hp).1 hid
  rwa [hqp, primaryOf_eq, if_neg (List.ne_nil_of_mem hp)] at hq

theorem primaryOf_of_best (h : best a.t (poolOf i.atomics) i.now = some p) :
    a.primaryOf state i = some p := by
  rw [primaryOf, h, Option.some_or]

theorem ceilingOn_best (hids : (i.atomics.map (·.id)).Nodup)
    (h : best a.t (poolOf i.atomics) i.now = some p) :
    ceilingOn (a.allocate state i) p.id =
      ((primaryShares p.id i.demand (max 0 (a.normalCapacity i))
        (inOrder a.profiles)).map (·.ceilingBps)).sum := by
  have hp := mem_of_best h
  have hne : some p ≠ backupOf i := fun hb => id_ne_of_backupOf hids hp hb.symm rfl
  have hown : (primaryShares p.id i.demand (max 0 (a.normalCapacity i))
      (inOrder a.profiles)).filter (·.atomicId = p.id) =
      primaryShares p.id i.demand (max 0 (a.normalCapacity i)) (inOrder a.profiles) := by
    rw [List.filter_eq_self]
    intro s hs
    simp [atomicId_of_mem_primaryShares hs]
  have hother : ∀ active : Bool, (spendingShares a.profiles (backupOf i) active
      i.demand).filter (·.atomicId = p.id) = [] := by
    intro active
    rw [List.filter_eq_nil_iff]
    intro s hs
    obtain ⟨b, hb, -, hs⟩ := mem_spendingShares hs
    simp [atomicId_of_mem_backupShares hs, (id_ne_of_backupOf hids hp hb).symm]
  simp only [ceilingOn, allocate, build, normalShares, primaryOf_of_best h, if_pos hne,
    List.filter_append, hother, List.append_nil]
  rw [← inOrder, hown]

/-- The allocator fails over, and does not aggregate, exactly where nothing is
believed of the connections it passes over. -/
theorem failsOver_iff (a : Allocator K) (i : DecideInput K)
    (hids : (i.atomics.map (·.id)).Nodup) :
    a.FailsOver i ↔ ∀ p, best a.t (poolOf i.atomics) i.now = some p →
      a.passedOverBps i p = 0 ∧ 0 ≤ believedBps a.t p i.now := by
  constructor
  · intro h p hbest
    have hp := mem_of_best hbest
    have hprimary : (a.decided i).primaryId = some p.id := by
      simp only [decided, allocate, build, primaryOf_of_best hbest, Option.map_some]
    obtain ⟨hgiven, hdeficit⟩ := h p hp hprimary
    have hsum := normalCapacity_eq_add (a := a) hids hp
    refine ⟨by omega, ?_⟩
    by_contra hneg
    -- With less than nothing believed of it, the primary is still given nothing.
    have hnone : max 0 (a.normalCapacity i) = 0 := max_eq_left (by omega)
    rw [decided, ceilingOn_best hids hbest, hnone,
      List.sum_eq_zero fun x hx => by
        obtain ⟨s, hs, rfl⟩ := List.mem_map.mp hx
        exact ceiling_of_no_headroom hs] at hgiven
    exact hneg hgiven
  · intro h p hp hprimary
    have hbest := best_of_primaryId hids hp hprimary
    obtain ⟨hothers, hnonneg⟩ := h p hbest
    have hsum := normalCapacity_eq_add (a := a) hids hp
    rw [hothers, add_zero] at hsum
    refine ⟨?_, by rw [hsum]⟩
    rw [decided, ceilingOn_best hids hbest, hsum, max_eq_right hnonneg]
    exact sum_primaryShares_le p.id i.demand hnonneg

end

def measuredHotspot (id : String) : Atomic ℚ :=
  { unmeasured id .wifi .normal with
    capacity := ⟨8000000, 8000000, 3 / 10, some 0⟩ }

def twoHotspots : DecideInput ℚ :=
  { campsite 0 16000000 with
    atomics := ["wlan1", "wlan2"].map measuredHotspot ++ [unmeasured "phone" .usbTether .backup] }

theorem failsOver_campsite :
    let a := init (Thresholds.defaults ℚ) defaultProfiles 0
    a.FailsOver (campsite 0 2000000) ↔
      ∀ p, best a.t (poolOf (campsite 0 2000000).atomics) 0 = some p →
        a.passedOverBps (campsite 0 2000000) p = 0 ∧ 0 ≤ believedBps a.t p 0 := by
  intro a
  exact failsOver_iff a (campsite 0 2000000) (by decide)

/-- One hotspot is handed twice what it can carry, and no backup is armed. -/
theorem not_failsOver_twoHotspots :
    let a := init (Thresholds.defaults ℚ) defaultProfiles 0
    (twoHotspots.atomics.map (·.id)).Nodup ∧ ¬a.FailsOver twoHotspots ∧
      ceilingOn (a.decided twoHotspots) "wlan1" = 16000000 ∧
      believedBps a.t (measuredHotspot "wlan1") 0 = 8000000 ∧
      (a.decide twoHotspots).h.state = .idle := by
  intro a
  have hgiven : ceilingOn (a.decided twoHotspots) "wlan1" = 16000000 := by decide +kernel
  have hbelieved : believedBps a.t (measuredHotspot "wlan1") 0 = 8000000 := by decide +kernel
  refine ⟨by decide, fun h => ?_, hgiven, hbelieved, by decide +kernel⟩
  obtain ⟨hle, -⟩ := h (measuredHotspot "wlan1") (by decide +kernel) (by decide +kernel)
  have hle : ceilingOn (a.decided twoHotspots) "wlan1" ≤
      believedBps a.t (measuredHotspot "wlan1") 0 := hle
  rw [hgiven, hbelieved] at hle
  exact absurd hle (by decide)

end Wifucked.Allocator
