import Wifucked.Lib.Runs
import Wifucked.Allocator.Dwell
import Wifucked.Allocator.Shares

/-!
# Best-effort demand cannot spend money

Two runs that differ only in what best-effort clients want and in upload
figures treat the backup alike.
-/

namespace Wifucked.Allocator

variable {K : Type}

def criticalDown (demand : Demand) : Int := ((demand critical.name).map (·.downBps)).getD 0

structure SameCritical (i j : DecideInput K) : Prop where
  now : i.now = j.now
  atomics : i.atomics = j.atomics
  critical : criticalDown i.demand = criticalDown j.demand
  ids : (i.atomics.map (·.id)).Nodup

def sharesOn (a : Allocator K) (id : String) : List Share :=
  ((a.last.map (·.shares)).getD []).filter (·.atomicId = id)

structure Agree (d e : DecideInput K × Allocator K) : Prop where
  state : d.2.h.state = e.2.h.state
  transitions : d.2.h.transitions = e.2.h.transitions
  backupActive : d.2.backupActive = e.2.backupActive
  primaryId : d.2.last.map (·.primaryId) = e.2.last.map (·.primaryId)
  quiesced : d.2.last.map (·.quiesced) = e.2.last.map (·.quiesced)
  onBackup : ∀ b ∈ d.1.atomics, b.mode = .backup → d.2.sharesOn b.id = e.2.sharesOn b.id

structure Alike (a b : Allocator K) : Prop where
  t : a.t = b.t
  left : a.profiles = defaultProfiles
  right : b.profiles = defaultProfiles
  h : a.h = b.h

theorem demandFor_critical (demand : Demand) :
    demandFor defaultProfiles demand .critical = criticalDown demand := by
  simp [demandFor, defaultProfiles, critical, bestEffort, criticalDown]

theorem backupShares_default (x : String) (demand : Demand) :
    backupShares x demand defaultProfiles =
      [⟨x, critical.name, criticalDown demand⟩, ⟨x, bestEffort.name, 0⟩] := by
  simp [backupShares, defaultProfiles, critical, bestEffort, criticalDown]

section step

variable {a b : Allocator K} {i j : DecideInput K}

theorem Alike.criticalDemand (h : Alike a b) (hs : SameCritical i j) :
    a.criticalDemand i = b.criticalDemand j := by
  simp only [Allocator.criticalDemand, h.left, h.right, demandFor_critical, hs.critical]

variable [Field K] [LinearOrder K] [HalfPow K]

theorem Alike.normalCapacity (h : Alike a b) (hs : SameCritical i j) :
    a.normalCapacity i = b.normalCapacity j := by
  simp only [Allocator.normalCapacity, h.t, hs.now, hs.atomics]

theorem Alike.nextHysteresis (h : Alike a b) (hs : SameCritical i j) :
    a.nextHysteresis i = b.nextHysteresis j := by
  unfold Allocator.nextHysteresis baseline
  rw [h.normalCapacity hs, h.criticalDemand hs, h.t, h.h, hs.now, hs.atomics]

theorem Alike.decide (h : Alike a b) (hs : SameCritical i j) :
    Alike (a.decide i) (b.decide j) :=
  ⟨h.t, h.left, h.right, h.nextHysteresis hs⟩

theorem Alike.agree (h : Alike a b) (hs : SameCritical i j) :
    Agree (i, a.decide i) (j, b.decide j) := by
  have hh : (a.decide i).h = (b.decide j).h := h.nextHysteresis hs
  have hbackup : backupOf i = backupOf j := by rw [backupOf, backupOf, hs.atomics]
  have hactive : ∀ state, backupActiveIn state i = backupActiveIn state j := by
    intro state
    rw [backupActiveIn, backupActiveIn, hbackup]
  have hprimary : ∀ state, a.primaryOf state i = b.primaryOf state j := by
    intro state
    rw [primaryOf, primaryOf, h.t, hs.now, hs.atomics, hactive, hbackup]
  have hlast : (a.decide i).last = some (a.allocate (a.decide i).h.state i) := rfl
  have hlast' : (b.decide j).last = some (b.allocate (a.decide i).h.state j) := by rw [hh]; rfl
  refine ⟨by rw [hh], by rw [hh], ?_, ?_, ?_, fun c hc hm => ?_⟩
  · simp [backupActive, hlast, hlast', allocate, build, hactive]
  · simp [hlast, hlast', allocate, build, hprimary]
  · simp [hlast, hlast', allocate, build, hprimary, hactive, hbackup, hs.atomics]
  · have hc' : c ∈ j.atomics := hs.atomics ▸ hc
    have hids' : (j.atomics.map (·.id)).Nodup := hs.atomics ▸ hs.ids
    simp only [sharesOn, hlast, hlast', Option.map_some, Option.getD_some]
    rw [filter_shares_backup hs.ids hc hm, filter_shares_backup hids' hc' hm, hbackup, h.left,
      h.right, backupShares_default, backupShares_default, hs.critical]

end step

variable [Field K] [LinearOrder K] [HalfPow K]

theorem bestEffort_share_backup {a : Allocator K} {i : DecideInput K}
    (hp : a.profiles = defaultProfiles) (hids : (i.atomics.map (·.id)).Nodup) (hb : b ∈ i.atomics)
    (hm : b.mode = .backup) :
    ∀ s ∈ (a.decide i).sharesOn b.id, s.profileName = bestEffort.name → s.ceilingBps = 0 := by
  intro s hs hname
  have hlast : (a.decide i).last = some (a.allocate (a.decide i).h.state i) := rfl
  simp only [sharesOn, hlast, Option.map_some, Option.getD_some] at hs
  rw [filter_shares_backup hids hb hm, hp, backupShares_default] at hs
  split at hs
  · simp only [List.mem_cons, List.not_mem_nil, or_false] at hs
    rcases hs with rfl | rfl
    · have hother : critical.name ≠ bestEffort.name := by decide
      exact absurd hname hother
    · rfl
  · cases hs

-- ---------------------------------------------------------------------------
-- A single hotspot
-- ---------------------------------------------------------------------------

structure Resting (t : Thresholds K) (a : Allocator K) : Prop where
  t : a.t = t
  profiles : a.profiles = singleLanProfiles
  state : a.h.state = .idle
  backupActive : a.backupActive = false

theorem usableCapacity_nonneg {t : Thresholds K} {pool : List (Atomic K)} {now : K}
    (h : ∀ a ∈ pool, 0 ≤ a.capacity.downBps) : 0 ≤ usableCapacity t pool now := by
  refine List.sum_nonneg fun x hx => ?_
  obtain ⟨a, ha, rfl⟩ := List.mem_map.mp hx
  unfold believedBps
  split
  · exact h a ha
  · split
    · exact (by decide : (0 : Int) ≤ bootstrapHeadroomBps)
    · exact le_rfl

theorem Resting.decide {t : Thresholds K} (ht : 0 ≤ t.activationDeficitBps) {a : Allocator K}
    (h : Resting t a) {i : DecideInput K} (hi : ∀ c ∈ i.atomics, 0 ≤ c.capacity.downBps) :
    Resting t (a.decide i) := by
  have hnone : ¬a.InDeficit i := by
    have hcap : 0 ≤ a.normalCapacity i :=
      usableCapacity_nonneg fun c hc => hi c (mem_poolOf hc).1
    have hdem : a.criticalDemand i = 0 := by
      simp [Allocator.criticalDemand, h.profiles, demandFor, singleLanProfiles, bestEffort]
    simp only [InDeficit, inDeficit, h.t, hdem]
    omega
  have hidle : (a.decide i).h.state = .idle := (a.decide_move i).from_idle h.state hnone
  refine ⟨h.t, h.profiles, hidle, ?_⟩
  rw [← Bool.not_eq_true, backupActive_decide, hidle]
  simp

/-- With two classes, runs that differ in best-effort demand and in upload
figures agree on everything about the backup, and best effort gets nothing on
it; with one class the backup stays off. -/
theorem bestEffort_noninterference (t : Thresholds K) (now₀ : K) :
    (∀ is js : List (DecideInput K), List.Forall₂ SameCritical is js →
      List.Forall₂ Agree (Runs.log decide (init t defaultProfiles now₀) is)
        (Runs.log decide (init t defaultProfiles now₀) js)) ∧
    (∀ is : List (DecideInput K), (∀ i ∈ is, (i.atomics.map (·.id)).Nodup) →
      ∀ d ∈ Runs.log decide (init t defaultProfiles now₀) is, ∀ b ∈ d.1.atomics,
        b.mode = .backup → ∀ s ∈ d.2.sharesOn b.id,
          s.profileName = bestEffort.name → s.ceilingBps = 0) ∧
    (0 ≤ t.activationDeficitBps → ∀ is : List (DecideInput K),
      (∀ i ∈ is, ∀ c ∈ i.atomics, 0 ≤ c.capacity.downBps) →
      ∀ d ∈ Runs.log decide (init t singleLanProfiles now₀) is, d.2.backupActive = false) := by
  refine ⟨fun is js h => ?_, fun is hids => ?_, fun ht is hcap => ?_⟩
  · have hstart : Alike (init t defaultProfiles now₀) (init t defaultProfiles now₀) :=
      ⟨rfl, rfl, rfl, rfl⟩
    exact Runs.log_forall₂ Alike (fun a b i j hr hs => ⟨hr.decide hs, hr.agree hs⟩) hstart h
  · have hstart : (init t defaultProfiles now₀).profiles = defaultProfiles := rfl
    have hstep : ∀ (a : Allocator K) (i : DecideInput K), a.profiles = defaultProfiles →
        (i.atomics.map (·.id)).Nodup → (a.decide i).profiles = defaultProfiles := fun _ _ hp _ => hp
    intro d hd b hb hm
    obtain ⟨hid, a, hp, hda⟩ :=
      Runs.log_inv (fun a : Allocator K => a.profiles = defaultProfiles) hstep hstart hids d hd
    rw [hda]
    exact bestEffort_share_backup hp hid hb hm
  · have hstart : Resting t (init t singleLanProfiles now₀) := ⟨rfl, rfl, rfl, rfl⟩
    have hstep : ∀ (a : Allocator K) (i : DecideInput K), Resting t a →
        (∀ c ∈ i.atomics, 0 ≤ c.capacity.downBps) → Resting t (a.decide i) :=
      fun _ _ h hi => h.decide ht hi
    intro d hd
    obtain ⟨hcaps, a, ha, hda⟩ := Runs.log_inv (Resting t) hstep hstart hcap d hd
    rw [hda]
    exact (ha.decide ht hcaps).backupActive

def crowded (i : DecideInput ℚ) (downBps upBps : Int) : DecideInput ℚ :=
  { i with demand := fun name =>
      if name = bestEffort.name then some ⟨name, downBps, upBps, false⟩ else i.demand name }

def backedUp : List (DecideInput ℚ) := luckySample ++ [campsite 121 2000000]

theorem bestEffort_noninterference_campsite :
    let t := Thresholds.defaults ℚ
    let crowd := backedUp.map (crowded · 80000000 9000000)
    (Runs.log decide (init t defaultProfiles 0) crowd).map (·.2.backupActive) =
        [false, true, true] ∧
      List.Forall₂ Agree (Runs.log decide (init t defaultProfiles 0) backedUp)
        (Runs.log decide (init t defaultProfiles 0) crowd) ∧
      (∀ d ∈ Runs.log decide (init t defaultProfiles 0) crowd, ∀ b ∈ d.1.atomics,
        b.mode = .backup → ∀ s ∈ d.2.sharesOn b.id,
          s.profileName = bestEffort.name → s.ceilingBps = 0) ∧
      ∀ d ∈ Runs.log decide (init t singleLanProfiles 0) crowd, d.2.backupActive = false := by
  intro t crowd
  have hids : ∀ i ∈ backedUp, (i.atomics.map (·.id)).Nodup := by decide
  have hsame : List.Forall₂ SameCritical backedUp crowd := by
    rw [show crowd = backedUp.map (crowded · 80000000 9000000) from rfl, List.forall₂_map_right_iff,
      List.forall₂_same]
    exact fun i hi => ⟨rfl, rfl, rfl, hids i hi⟩
  refine ⟨by decide +kernel, (bestEffort_noninterference t 0).1 _ _ hsame,
    (bestEffort_noninterference t 0).2.1 _ (by decide),
    (bestEffort_noninterference t 0).2.2 (by decide) _ (by decide)⟩

end Wifucked.Allocator
