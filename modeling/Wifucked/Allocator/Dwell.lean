import Wifucked.Lib.Runs
import Wifucked.Lib.Signal
import Wifucked.Allocator.Hysteresis

/-!
# Dwells over whole runs

How far apart activations are, and how long a surplus lasts before traffic
leaves the backup. A run is an allocator and the list of the calls of `decide`.
-/

namespace Wifucked.Allocator

section

variable {K : Type} [LinearOrder K]

def armedSince (a : Allocator K) (now : K) : K := if a.h.state = .arming then a.h.since else now

structure Between (a : Allocator K) (now : K) : Prop where
  active : a.backupActive = true ↔ a.h.state = .active
  since : a.h.state = .arming → a.h.since ≤ now

theorem Between.init (t : Thresholds K) (profiles : List ServiceProfile) (now₀ now : K) :
    Between (init t profiles now₀) now := by
  constructor <;> simp [Allocator.init, backupActive]

theorem Between.armedSince_le {a : Allocator K} (h : Between a now) : a.armedSince now ≤ now := by
  unfold armedSince
  split
  · rename_i ha; exact h.since ha
  · exact le_rfl

variable [Field K] [HalfPow K]

abbrev decisions (a : Allocator K) (is : List (DecideInput K)) :
    List (DecideInput K × Allocator K) := Runs.log decide a is

def Clocked (is : List (DecideInput K)) : Prop := is.Pairwise fun i j => i.now ≤ j.now

theorem Clocked.decisions {is : List (DecideInput K)} (h : Clocked is) (a : Allocator K) :
    (a.decisions is).Pairwise fun d e => d.1.now ≤ e.1.now := by
  rw [Clocked, ← Runs.map_fst_log decide a is, List.pairwise_map] at h
  exact h

abbrev carried (d : DecideInput K × Allocator K) : Bool := d.2.backupActive

def activations (a : Allocator K) (is : List (DecideInput K)) :
    List (DecideInput K × Allocator K) :=
  Signal.rises carried a.backupActive (a.decisions is)

def releases (a : Allocator K) (is : List (DecideInput K)) :
    List (DecideInput K × Allocator K) :=
  Signal.falls carried a.backupActive (a.decisions is)

@[simp] theorem activations_cons (a : Allocator K) (i : DecideInput K)
    (is : List (DecideInput K)) : a.activations (i :: is) =
      if !a.backupActive && (a.decide i).backupActive
      then (i, a.decide i) :: (a.decide i).activations is else (a.decide i).activations is := rfl

-- ---------------------------------------------------------------------------
-- Activations
-- ---------------------------------------------------------------------------

theorem Between.decide {a : Allocator K} {i : DecideInput K} (h : Between a now)
    (hi : now ≤ i.now) : Between (a.decide i) i.now := by
  refine ⟨backupActive_decide a i, fun ha => ?_⟩
  rcases (a.decide_move i).to_arming ha with hs | ⟨hb, hs, -⟩
  · exact hs.le
  · exact hs.trans_le ((h.since hb).trans hi)

theorem Between.armedSince_mono {a : Allocator K} {i : DecideInput K} (h : Between a now)
    (hi : now ≤ i.now) : a.armedSince now ≤ (a.decide i).armedSince i.now := by
  have hle : a.armedSince now ≤ i.now := h.armedSince_le.trans hi
  by_cases ha : (a.decide i).h.state = .arming
  · rw [armedSince.eq_def (a.decide i), if_pos ha]
    rcases (a.decide_move i).to_arming ha with hs | ⟨hb, hs, -⟩
    · exact hle.trans hs.ge
    · have hb : a.h.state = .arming := hb
      rw [armedSince, if_pos hb]
      exact hs.ge
  · rwa [armedSince.eq_def (a.decide i), if_neg ha]

variable [IsStrictOrderedRing K]

/-- Every activation to come is a dwell after the arming it rests on. -/
theorem armedSince_le_activations {a : Allocator K} {is : List (DecideInput K)}
    (h : Between a now) (hnow : ∀ i ∈ is, now ≤ i.now) (hs : Clocked is) :
    ∀ d ∈ a.activations is, a.armedSince now + a.t.activationDwellS ≤ d.1.now := by
  induction is generalizing a now with
  | nil => intro d hd; cases hd
  | cons i is ih =>
    obtain ⟨hi, hs⟩ := List.pairwise_cons.mp hs
    have hni : now ≤ i.now := hnow i List.mem_cons_self
    have hrest : ∀ d ∈ (a.decide i).activations is,
        a.armedSince now + a.t.activationDwellS ≤ d.1.now := by
      intro d hd
      have hd' := ih (h.decide hni) hi hs d hd
      rw [decide_t] at hd'
      linarith [h.armedSince_mono hni]
    intro d hd
    rw [activations_cons] at hd
    split at hd
    · rename_i hrise
      simp only [Bool.and_eq_true, Bool.not_eq_true'] at hrise
      rcases List.mem_cons.mp hd with rfl | hd
      · have hidle : a.h.state ≠ .active := by
          intro ha
          rw [h.active.mpr ha] at hrise
          exact absurd hrise.1 (by simp)
        have hon := (backupActive_decide a i).mp hrise.2
        obtain ⟨-, ⟨ha, -⟩ | ⟨ha, -, he⟩⟩ := (a.decide_move i).to_active hon
        · exact absurd ha hidle
        · have ha : a.h.state = .arming := ha
          have he : a.t.activationDwellS ≤ i.now - a.h.since := he
          rw [armedSince, if_pos ha]
          linarith
      · exact hrest d hd
    · exact hrest d hd

theorem activations_apart {a : Allocator K} {is : List (DecideInput K)} (h : Between a now)
    (hnow : ∀ i ∈ is, now ≤ i.now) (hs : Clocked is) :
    (a.activations is).Pairwise fun d e => d.1.now + a.t.activationDwellS ≤ e.1.now := by
  induction is generalizing a now with
  | nil => exact .nil
  | cons i is ih =>
    obtain ⟨hi, hs⟩ := List.pairwise_cons.mp hs
    have hb := h.decide (hnow i List.mem_cons_self)
    have hrest := ih hb hi hs
    rw [activations_cons]
    split
    · rename_i hrise
      simp only [Bool.and_eq_true] at hrise
      refine List.pairwise_cons.mpr ⟨fun e he => ?_, hrest⟩
      have hfar := armedSince_le_activations hb hi hs e he
      have hon : (a.decide i).h.state = .active := (backupActive_decide a i).mp hrise.2
      rwa [armedSince, hon, if_neg (by simp), decide_t] at hfar
    · exact hrest

structure AntiFlap (a : Allocator K) (is : List (DecideInput K)) : Prop where
  active : ∀ d ∈ a.decisions is, d.2.backupActive = true ↔ d.2.h.state = .active
  apart : (a.activations is).Pairwise fun d e => d.1.now + a.t.activationDwellS ≤ e.1.now
  activations_le : ∀ lo T, 0 ≤ T →
    ((Signal.within (·.1.now) lo (lo + T) (a.activations is)).length : K) ≤
      T / a.t.activationDwellS + 1
  releases_le : ∀ lo T, 0 ≤ T →
    (Signal.within (·.1.now) lo (lo + T) (a.releases is)).length ≤
      (Signal.within (·.1.now) lo (lo + T) (a.activations is)).length + 1

/-- Activations are a dwell apart, so that a window of time holds a bounded
number of them and at most one more release. -/
theorem antiFlap {t : Thresholds K} (hdwell : 0 < t.activationDwellS)
    (profiles : List ServiceProfile) (now₀ : K) {is : List (DecideInput K)} (hs : Clocked is) :
    AntiFlap (init t profiles now₀) is := by
  have happart : ((init t profiles now₀).activations is).Pairwise fun d e =>
      d.1.now + t.activationDwellS ≤ e.1.now := by
    cases is with
    | nil => exact .nil
    | cons i is =>
      refine activations_apart (.init t profiles now₀ i.now) (fun j hj => ?_) hs
      rcases List.mem_cons.mp hj with rfl | hj
      · exact le_rfl
      · exact (List.pairwise_cons.mp hs).1 j hj
  refine ⟨fun d hd => ?_, happart, fun lo T hT => ?_, fun lo T _ => ?_⟩
  · obtain ⟨b, hb⟩ := Runs.mem_log hd
    rw [hb]
    exact backupActive_decide b d.1
  · exact Signal.length_within_le hdwell hT happart
  · exact Signal.falls_within_le (hs.decisions _) _

def unmeasured (id : String) (kind : Kind) (mode : Mode) : Atomic ℚ where
  id := id
  kind := kind
  label := id
  mode := mode
  health := .good
  role := .wan
  capacity := .unmeasured
  quality := .unmeasured
  cost := .zero
  ifname := some id
  present := true
  firstSeen := none
  lastSeen := none
  everConnected := false
  attributes := []

def campsite (now : ℚ) (criticalBps : Int) : DecideInput ℚ where
  now := now
  atomics := ["wlan1", "wlan2", "wlan3", "wlan4"].map (unmeasured · .wifi .normal) ++
    [unmeasured "phone" .usbTether .backup]
  demand := fun name =>
    if name = critical.name then some ⟨name, criticalBps, 0, false⟩ else none

def luckySample : List (DecideInput ℚ) := [campsite 0 2000000, campsite 120 2000000]

theorem antiFlap_luckySample :
    AntiFlap (init (Thresholds.defaults ℚ) defaultProfiles 0) luckySample :=
  antiFlap (by norm_num [Thresholds.defaults]) defaultProfiles 0 (by
    simp only [Clocked, luckySample, campsite]
    norm_num)

end

-- ---------------------------------------------------------------------------
-- Releases
-- ---------------------------------------------------------------------------

section

variable {K : Type} [LinearOrder K] [Field K] [HalfPow K]

def after (a : Allocator K) (is : List (DecideInput K)) : Allocator K := Runs.exec decide a is

/-- The call after `pre` takes traffic off a backup that is still there. -/
def Releases (a : Allocator K) (pre : List (DecideInput K)) (i : DecideInput K) : Prop :=
  (a.after pre).backupActive = true ∧ ((a.after pre).decide i).backupActive = false ∧ HaveBackup i

/-- The surplus was there at every call of a span that ends at `i` and is at
least the recovery dwell long. -/
def Sustained (a : Allocator K) (pre : List (DecideInput K)) (i : DecideInput K) : Prop :=
  ∃ before first span, pre ++ [i] = before ++ first :: span ∧
    (∀ j ∈ first :: span, a.Recovered j) ∧ a.t.recoveryDwellS ≤ i.now - first.now

def SurplusWhileActive (a : Allocator K) (pre : List (DecideInput K)) (i : DecideInput K) : Prop :=
  (a.after pre).h.state = .active ∧ HaveBackup i ∧ a.Recovered i

@[simp] theorem after_concat (a : Allocator K) (pre : List (DecideInput K)) (i : DecideInput K) :
    a.after (pre ++ [i]) = (a.after pre).decide i := by
  simp [after, Runs.exec]

theorem after_config (a : Allocator K) (pre : List (DecideInput K)) :
    (a.after pre).t = a.t ∧ (a.after pre).profiles = a.profiles :=
  Runs.exec_keeps (P := fun b : Allocator K => b.t = a.t ∧ b.profiles = a.profiles)
    (fun _ _ _ h => h) ⟨rfl, rfl⟩

theorem recovered_after (a : Allocator K) (pre : List (DecideInput K)) (i : DecideInput K) :
    (a.after pre).Recovered i ↔ a.Recovered i := by
  obtain ⟨ht, hp⟩ := a.after_config pre
  simp only [Recovered, normalCapacity, criticalDemand, ht, hp]

theorem after_active (t : Thresholds K) (profiles : List ServiceProfile) (now₀ : K)
    (pre : List (DecideInput K)) : ((init t profiles now₀).after pre).backupActive = true ↔
      ((init t profiles now₀).after pre).h.state = .active := by
  rcases List.eq_nil_or_concat pre with rfl | ⟨pre, i, rfl⟩
  · exact (Between.init t profiles now₀ now₀).active
  · rw [List.concat_eq_append, after_concat]
    exact backupActive_decide _ i

theorem releases_iff (t : Thresholds K) (profiles : List ServiceProfile) (now₀ : K)
    (pre : List (DecideInput K)) (i : DecideInput K) :
    (init t profiles now₀).Releases pre i ↔ (init t profiles now₀).SurplusWhileActive pre i := by
  unfold Releases SurplusWhileActive
  rw [after_active, ← Bool.not_eq_true, backupActive_decide]
  constructor
  · rintro ⟨ha, hoff, hb⟩
    rw [decide_active_iff ha hb, not_not, recovered_after] at hoff
    exact ⟨ha, hb, hoff⟩
  · rintro ⟨ha, hb, hr⟩
    refine ⟨ha, ?_, hb⟩
    rw [decide_active_iff ha hb, not_not, recovered_after]
    exact hr

theorem overlap_of_active {a : Allocator K} {i : DecideInput K} (hr : a.Recovered i)
    (h : (a.decide i).h.state = .active) :
    a.t.activationDeficitBps + a.t.recoveryMarginBps < 0 := by
  obtain ⟨-, ⟨-, hn⟩ | ⟨-, hd, -⟩⟩ := (a.decide_move i).to_active h
  · exact absurd hr hn
  · simp only [InDeficit, inDeficit] at hd
    simp only [Recovered, recovered] at hr
    omega

/-- A sustained surplus that finds the backup active began at that call, or an
earlier call of the span found a deficit as well. -/
theorem overlap_of_sustained {a : Allocator K} {i : DecideInput K}
    (hactive : (a.after pre).h.state = .active) (h : a.Sustained pre i) :
    a.t.recoveryDwellS ≤ 0 ∨ a.t.activationDeficitBps + a.t.recoveryMarginBps < 0 := by
  obtain ⟨before, first, span, hspan, hrec, hlong⟩ := h
  rcases List.eq_nil_or_concat span with rfl | ⟨inner, last, rfl⟩
  · -- The span is the call itself.
    obtain ⟨-, rfl⟩ : pre = before ∧ i = first := by simpa using List.append_inj' hspan rfl
    rw [sub_self] at hlong
    exact .inl hlong
  · -- The call before it is in the span too, and left the backup active.
    have hpre : pre = before ++ first :: inner := by
      rw [List.concat_eq_append, ← List.cons_append, ← List.append_assoc] at hspan
      exact (List.append_inj' hspan rfl).1
    obtain ⟨most, j, hj⟩ : ∃ most j, first :: inner = most ++ [j] :=
      ⟨_, _, (List.dropLast_append_getLast (List.cons_ne_nil first inner)).symm⟩
    have hjrec : a.Recovered j := by
      refine hrec j ?_
      rw [List.concat_eq_append, ← List.cons_append, hj]
      simp
    have hact : ((a.after (before ++ most)).decide j).h.state = .active := by
      rw [← after_concat, List.append_assoc, ← hj, ← hpre]
      exact hactive
    have hover := overlap_of_active ((recovered_after a _ j).mpr hjrec) hact
    rw [(a.after_config _).1] at hover
    exact .inr hover

/-- Every release was sustained exactly when each surplus found while the
backup carried traffic needed no dwell, or the thresholds overlap and the
surplus had already lasted. -/
theorem releases_sustained_iff (t : Thresholds K) (profiles : List ServiceProfile) (now₀ : K)
    (is : List (DecideInput K)) :
    let a := init t profiles now₀
    (∀ pre i post, is = pre ++ i :: post → a.Releases pre i → a.Sustained pre i) ↔
      ∀ pre i post, is = pre ++ i :: post → a.SurplusWhileActive pre i →
        t.recoveryDwellS ≤ 0 ∨
          t.activationDeficitBps + t.recoveryMarginBps < 0 ∧ a.Sustained pre i := by
  intro a
  constructor
  · intro h pre i post he hs
    have hsus := h pre i post he ((releases_iff t profiles now₀ pre i).mpr hs)
    exact (overlap_of_sustained hs.1 hsus).imp_right fun hover => ⟨hover, hsus⟩
  · intro h pre i post he hrel
    have hs := (releases_iff t profiles now₀ pre i).mp hrel
    rcases h pre i post he hs with hzero | ⟨-, hsus⟩
    · refine ⟨pre, i, [], rfl, by simpa using hs.2.2, ?_⟩
      rw [sub_self]
      exact hzero
    · exact hsus

/-- A single good sample takes critical traffic off the backup. -/
theorem release_not_sustained :
    let a := init (Thresholds.defaults ℚ) defaultProfiles 0
    Clocked (luckySample ++ [campsite 121 0]) ∧
      a.Releases luckySample (campsite 121 0) ∧ ¬a.Sustained luckySample (campsite 121 0) := by
  refine ⟨?_, ⟨by decide +kernel, by decide +kernel, ?_⟩, ?_⟩
  · simp only [Clocked, luckySample, campsite]
    norm_num
  · exact ⟨unmeasured "phone" .usbTether .backup, by decide, by decide⟩
  · rintro ⟨before, first, span, he, -, hlong⟩
    have hfirst : first ∈ luckySample ++ [campsite 121 0] := by simp [he]
    have hstart : 0 ≤ first.now := by
      simp only [luckySample, List.cons_append, List.nil_append, List.mem_cons,
        List.not_mem_nil, or_false] at hfirst
      rcases hfirst with rfl | rfl | rfl <;> norm_num [campsite]
    have hdwell : (300 : ℚ) ≤ 121 - first.now := hlong
    linarith

end

end Wifucked.Allocator
