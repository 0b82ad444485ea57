import Mathlib.Algebra.Order.Ring.Int
import Wifucked.Lib.Filling
import Wifucked.Allocator.Dwell
import Wifucked.Allocator.Shares

/-!
# What the classes get of the primary

The classes are served in the order of their priority, each from what the ones
before it left over.
-/

namespace Wifucked.Allocator

def wantBps (demand : Demand) (name : String) : Int :=
  ((demand name).map fun want => max want.downBps want.upBps).getD 0

theorem primaryShares_cons (x : String) (demand : Demand) (headroom : Int) (p : ServiceProfile)
    (ps : List ServiceProfile) :
    primaryShares x demand headroom (p :: ps) =
      ⟨x, p.name, if headroom ≠ 0 then min (wantBps demand p.name) headroom else 0⟩ ::
        primaryShares x demand
          (max 0 (headroom - if headroom ≠ 0 then min (wantBps demand p.name) headroom else 0))
          ps := rfl

theorem sum_primaryShares_le {ps : List ServiceProfile} {headroom : Int} (x : String)
    (demand : Demand) (h : 0 ≤ headroom) :
    ((primaryShares x demand headroom ps).map (·.ceilingBps)).sum ≤ headroom := by
  induction ps generalizing headroom with
  | nil => exact h
  | cons p ps ih =>
    rw [primaryShares_cons, List.map_cons, List.sum_cons]
    generalize hgive : (if headroom ≠ 0 then min (wantBps demand p.name) headroom else 0) = give
    have hle : give ≤ headroom := by
      rw [← hgive]
      split <;> omega
    rw [max_eq_right (sub_nonneg.mpr hle)]
    exact le_sub_iff_add_le'.mp (ih (sub_nonneg.mpr hle))

theorem ceiling_of_no_headroom {ps : List ServiceProfile}
    (h : s ∈ primaryShares x demand 0 ps) : s.ceilingBps = 0 := by
  induction ps with
  | nil => cases h
  | cons q ps ih =>
    rw [primaryShares_cons] at h
    rcases List.mem_cons.mp h with rfl | h
    · rfl
    · exact ih h

theorem primaryShares_eq_fill {ps : List ServiceProfile} {headroom : Int} (x : String)
    {demand : Demand} (hwant : ∀ name, 0 ≤ wantBps demand name) (h : 0 ≤ headroom) :
    primaryShares x demand headroom ps =
      (Filling.fill (fun p : ServiceProfile => wantBps demand p.name) headroom ps).map fun y =>
        ⟨x, y.1.name, y.2⟩ := by
  induction ps generalizing headroom with
  | nil => rfl
  | cons p ps ih =>
    have hp := hwant p.name
    have hgive : (if headroom ≠ 0 then min (wantBps demand p.name) headroom else 0) =
        min (wantBps demand p.name) headroom := by
      split <;> omega
    have hleft : max 0 (headroom - min (wantBps demand p.name) headroom) =
        headroom - min (wantBps demand p.name) headroom := by omega
    rw [primaryShares_cons, hgive, hleft, ih (by omega), Filling.fill_cons, List.map_cons]

theorem wantBps_nonneg {demand : Demand}
    (h : ∀ name want, demand name = some want → 0 ≤ want.downBps ∧ 0 ≤ want.upBps)
    (name : String) : 0 ≤ wantBps demand name := by
  unfold wantBps
  cases hd : demand name with
  | none => exact le_rfl
  | some want => exact (h name want hd).1.trans (le_max_left _ _)

structure Fills (profiles : List ServiceProfile) (demand : Demand) (capacity : Int)
    (g : ServiceProfile → Int) : Prop where
  bounds : ∀ p ∈ profiles, 0 ≤ g p ∧ g p ≤ wantBps demand p.name
  total : (profiles.map g).sum =
    min (profiles.map fun p => wantBps demand p.name).sum (max 0 capacity)
  priority : ∀ p ∈ profiles, 0 < g p → ∀ q ∈ profiles, q.priority.value < p.priority.value →
    g q = wantBps demand q.name

def inOrder (profiles : List ServiceProfile) : List ServiceProfile :=
  profiles.insertionSort fun p q => p.priority.value ≤ q.priority.value

theorem pairwise_inOrder (profiles : List ServiceProfile) :
    (inOrder profiles).Pairwise fun p q => p.priority.value ≤ q.priority.value := by
  have : Std.Total fun p q : ServiceProfile => p.priority.value ≤ q.priority.value :=
    ⟨fun p q => le_total p.priority.value q.priority.value⟩
  have : IsTrans ServiceProfile fun p q => p.priority.value ≤ q.priority.value :=
    ⟨fun _ _ _ h h' => h.trans h'⟩
  exact List.pairwise_insertionSort _ profiles

/-- In an ordered list, what holds of a place and every one behind it holds of a
class and every one it comes before. -/
theorem before_of_pairwise {profiles : List ServiceProfile}
    {R : ServiceProfile → ServiceProfile → Prop} (h : (inOrder profiles).Pairwise R)
    (hp : p ∈ profiles) (hq : q ∈ profiles) (hlt : q.priority.value < p.priority.value) :
    R q p := by
  have hmem : ∀ {r}, r ∈ profiles → r ∈ inOrder profiles := (List.mem_insertionSort _).mpr
  refine (List.Pairwise.forall_of_forall_of_flip (R := fun q p =>
    q.priority.value < p.priority.value → R q p) ?_ ?_ ?_) (hmem hq) (hmem hp) hlt
  · exact fun r _ hr => absurd hr (lt_irrefl _)
  · refine h.imp ?_
    intro r s hr _
    exact hr
  · refine (pairwise_inOrder profiles).imp ?_
    intro r s hle hlt
    exact absurd hlt hle.not_gt

theorem exists_fills {profiles : List ServiceProfile} {demand : Demand} (x : String)
    (capacity : Int) (hnames : (profiles.map (·.name)).Nodup)
    (hwant : ∀ name, 0 ≤ wantBps demand name) :
    ∃ g, Fills profiles demand capacity g ∧
      primaryShares x demand (max 0 capacity) (inOrder profiles) =
        (inOrder profiles).map fun p => ⟨x, p.name, g p⟩ := by
  have hperm : (inOrder profiles).Perm profiles := List.perm_insertionSort _ _
  have hleft : 0 ≤ max 0 capacity := le_max_left _ _
  have hall : ∀ p ∈ inOrder profiles, 0 ≤ wantBps demand p.name := fun p _ => hwant p.name
  obtain ⟨g, hg⟩ := Filling.exists_fill_eq (fun p : ServiceProfile => wantBps demand p.name)
    (max 0 capacity) (hperm.nodup_iff.mpr (List.Nodup.of_map _ hnames))
  have hmem : ∀ p ∈ profiles, (p, g p) ∈
      Filling.fill (fun q => wantBps demand q.name) (max 0 capacity) (inOrder profiles) := by
    intro p hp
    rw [hg]
    exact List.mem_map_of_mem (hperm.mem_iff.mpr hp)
  refine ⟨g, ⟨fun p hp => ⟨?_, ?_⟩, ?_, ?_⟩, ?_⟩
  · exact Filling.nonneg_of_mem_fill hall hleft (hmem p hp)
  · exact Filling.le_want_of_mem_fill (hmem p hp)
  · have hsum := Filling.sum_fill hall hleft
    rw [hg, List.map_map] at hsum
    rw [← (hperm.map g).sum_eq, ← (hperm.map _).sum_eq]
    exact hsum
  · have hfirst := Filling.pairwise_fill hall hleft
    rw [hg, List.pairwise_map] at hfirst
    exact fun p hp hpos q hq hlt => before_of_pairwise hfirst hp hq hlt hpos
  · rw [primaryShares_eq_fill x hwant hleft, hg, List.map_map]
    rfl

section

variable {K : Type} [Field K] [LinearOrder K] [HalfPow K]

/-- What a connection out of the pool is given as the primary, class by class. -/
theorem shares_fill (a : Allocator K) (i : DecideInput K)
    (hnames : (a.profiles.map (·.name)).Nodup)
    (hdemand : ∀ name want, i.demand name = some want → 0 ≤ want.downBps ∧ 0 ≤ want.upBps)
    (hp : a.primaryOf (a.decide i).h.state i = some p) (hne : some p ≠ backupOf i) :
    ∃ g, Fills a.profiles i.demand (a.normalCapacity i) g ∧
      (a.decided i).shares =
        (inOrder a.profiles).map (fun q => ⟨p.id, q.name, g q⟩) ++
          spendingShares a.profiles (backupOf i) (a.decided i).backupActive i.demand := by
  obtain ⟨g, hg, hshares⟩ :=
    exists_fills p.id (a.normalCapacity i) hnames (wantBps_nonneg hdemand)
  refine ⟨g, hg, ?_⟩
  rw [← hshares]
  simp only [decided, allocate, build, normalShares, hp, if_pos hne, inOrder]

end

theorem campsite_demand {now : ℚ} {criticalBps : Int} (h : 0 ≤ criticalBps) (name : String)
    (want : ClassDemand) (hw : (campsite now criticalBps).demand name = some want) :
    0 ≤ want.downBps ∧ 0 ≤ want.upBps := by
  simp only [campsite, ite_eq_iff, Option.some.injEq, reduceCtorEq, and_false, or_false] at hw
  obtain ⟨-, rfl⟩ := hw
  exact ⟨h, le_rfl⟩

theorem shares_fill_campsite :
    let a := init (Thresholds.defaults ℚ) defaultProfiles 0
    let i := campsite 0 2000000
    ∃ g, Fills a.profiles i.demand (a.normalCapacity i) g ∧
      (a.decided i).shares =
        (inOrder a.profiles).map (fun q => ⟨"wlan1", q.name, g q⟩) ++
          spendingShares a.profiles (backupOf i) (a.decided i).backupActive i.demand := by
  intro a i
  exact shares_fill (p := unmeasured "wlan1" .wifi .normal) a i (by decide)
    (campsite_demand (by decide)) (by decide +kernel) (by decide +kernel)

end Wifucked.Allocator
