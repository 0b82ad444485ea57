import Wifucked.Lib.Runs
import Wifucked.Probe

/-!
# What idle observations do to an estimate

An idle observation keeps the figures and the time they were measured at, but
writes the decayed confidence back. The next reading decays that value from
the same time again, so each idle observation multiplies every later
confidence by the decay up to it.
-/

namespace Wifucked

section

variable {K : Type} [Field K] [LinearOrder K] [HalfPow K]

def foldAll [FloorRing K] (capacity : Capacity K) (observations : List (Observation K × K)) :
    Capacity K :=
  Runs.exec (fun c o => fold c o.1 o.2) capacity observations

def decayFactor (measuredAt now : K) : K :=
  halfPow (max 0 (now - measuredAt) / confidenceHalfLifeS K)

theorem decayConfidence_eq {c : Capacity K} (hm : c.measuredAt = some m) :
    decayConfidence c now = if 0 < c.confidence then c.confidence * decayFactor m now else 0 := by
  simp [decayConfidence, hm, Capacity.known, decayFactor]

theorem fold_idle [FloorRing K] (c : Capacity K) {o : Observation K} (hi : o.saturated = false)
    (now : K) : fold c o now = { c with confidence := decayConfidence c now } := by
  simp [fold, hi]

end

theorem decayFactor_pos (m now : ℝ) : 0 < decayFactor m now := halfPow_real_pos _

theorem decayFactor_le_one (m now : ℝ) : decayFactor m now ≤ 1 := by
  rcases (le_max_left 0 (now - m)).eq_or_lt with h | h
  · simp [decayFactor, ← h]
  · exact (halfPow_real_lt_one (div_pos h (by norm_num [confidenceHalfLifeS]))).le

theorem decayFactor_anti (m : ℝ) (h : s ≤ t) : decayFactor m t ≤ decayFactor m s := by
  refine halfPow_real_anti (div_le_div_of_nonneg_right ?_ (by norm_num [confidenceHalfLifeS]))
  exact max_le_max le_rfl (sub_le_sub_right h m)

theorem decayConfidence_bounds {c : Capacity ℝ} (h : 0 ≤ c.confidence) (now : ℝ) :
    0 ≤ decayConfidence c now ∧ decayConfidence c now ≤ c.confidence := by
  cases hm : c.measuredAt with
  | none => simp [decayConfidence, hm, h]
  | some m =>
    rw [decayConfidence_eq hm]
    split
    · exact ⟨mul_nonneg h (decayFactor_pos m now).le,
        mul_le_of_le_one_right h (decayFactor_le_one m now)⟩
    · exact ⟨le_rfl, h⟩

theorem decayConfidence_anti (c : Capacity ℝ) (h : s ≤ t) :
    decayConfidence c t ≤ decayConfidence c s := by
  cases hm : c.measuredAt with
  | none => simp [decayConfidence, hm]
  | some m =>
    rw [decayConfidence_eq hm, decayConfidence_eq hm]
    split
    case isTrue hc => exact mul_le_mul_of_nonneg_left (decayFactor_anti m h) hc.le
    case isFalse => exact le_rfl

theorem decayFactor_eq_one (hm : m ≤ now) : decayFactor (m : ℝ) now = 1 ↔ now = m := by
  constructor
  · intro h
    by_contra hne
    have hpos : 0 < now - m := sub_pos.mpr (lt_of_le_of_ne hm (Ne.symm hne))
    have hlt : decayFactor m now < 1 := by
      refine halfPow_real_lt_one (div_pos ?_ (by norm_num [confidenceHalfLifeS]))
      exact lt_max_of_lt_right hpos
    exact hlt.ne h
  · rintro rfl
    simp [decayFactor]

theorem decayConfidence_fold_idle {c : Capacity ℝ} (hm : c.measuredAt = some m)
    {o : Observation ℝ} (hi : o.saturated = false) (s t : ℝ) :
    decayConfidence (fold c o s) t = decayConfidence c t * decayFactor m s := by
  have hm' : (fold c o s).measuredAt = some m := by simpa [fold_idle c hi] using hm
  rw [decayConfidence_eq hm', decayConfidence_eq hm, fold_idle c hi]
  simp only [decayConfidence_eq hm]
  by_cases hc : 0 < c.confidence
  · have hs : 0 < c.confidence * decayFactor m s := mul_pos hc (decayFactor_pos m s)
    simp only [hc, hs, if_true]
    ring
  · simp [hc]

theorem decayConfidence_foldAll {c : Capacity ℝ} (hm : c.measuredAt = some m)
    {os : List (Observation ℝ × ℝ)} (hi : ∀ o ∈ os, o.1.saturated = false) (t : ℝ) :
    decayConfidence (foldAll c os) t =
      decayConfidence c t * (os.map fun o => decayFactor m o.2).prod := by
  induction os generalizing c with
  | nil => simp [foldAll]
  | cons o os ih =>
    have ho := hi o List.mem_cons_self
    have hm' : (fold c o.1 o.2).measuredAt = some m := by simpa [fold_idle c ho] using hm
    have h := ih hm' fun p hp => hi p (List.mem_cons_of_mem _ hp)
    calc decayConfidence (foldAll c (o :: os)) t
        = decayConfidence (fold c o.1 o.2) t * (os.map fun o => decayFactor m o.2).prod := h
      _ = decayConfidence c t * decayFactor m o.2 * (os.map fun o => decayFactor m o.2).prod := by
          rw [decayConfidence_fold_idle hm ho]
      _ = decayConfidence c t * ((o :: os).map fun o => decayFactor m o.2).prod := by
          simp [mul_assoc]

private theorem prod_eq_one_iff {l : List ℝ} (h : ∀ x ∈ l, 0 < x ∧ x ≤ 1) :
    0 < l.prod ∧ l.prod ≤ 1 ∧ (l.prod = 1 ↔ ∀ x ∈ l, x = 1) := by
  induction l with
  | nil => simp
  | cons x l ih =>
    obtain ⟨hx0, hx1⟩ := h x List.mem_cons_self
    obtain ⟨hl0, hl1, hl⟩ := ih fun y hy => h y (List.mem_cons_of_mem _ hy)
    rw [List.prod_cons]
    refine ⟨mul_pos hx0 hl0, mul_le_one₀ hx1 hl0.le hl1, ?_⟩
    rw [List.forall_mem_cons, ← hl]
    constructor
    · intro he
      have hx : x = 1 := le_antisymm hx1 (by nlinarith)
      exact ⟨hx, by rwa [hx, one_mul] at he⟩
    · rintro ⟨rfl, he⟩
      rw [he, one_mul]

/-- Idle observations leave the aging of an estimate alone exactly when there
is no confidence to lose or all of them came at the moment of measurement. -/
theorem idle_aging_iff {c : Capacity ℝ} {m : ℝ} {os : List (Observation ℝ × ℝ)}
    (hm : c.measuredAt = some m) (hidle : ∀ o ∈ os, o.1.saturated = false)
    (hafter : ∀ o ∈ os, m ≤ o.2) (t : ℝ) :
    decayConfidence (foldAll c os) t = decayConfidence c t ↔
      c.confidence ≤ 0 ∨ ∀ o ∈ os, o.2 = m := by
  have hzero : decayConfidence c t = 0 ↔ c.confidence ≤ 0 := by
    rw [decayConfidence_eq hm]
    by_cases hc : 0 < c.confidence
    · simp [hc, hc.ne', (decayFactor_pos m t).ne']
    · simp [hc, not_lt.mp hc]
  have hone : (os.map fun o => decayFactor m o.2).prod = 1 ↔ ∀ o ∈ os, o.2 = m := by
    have hmem : ∀ x ∈ os.map fun o => decayFactor m o.2, 0 < x ∧ x ≤ 1 := by
      rw [List.forall_mem_map]
      exact fun o _ => ⟨decayFactor_pos m o.2, decayFactor_le_one m o.2⟩
    rw [(prod_eq_one_iff hmem).2.2, List.forall_mem_map]
    exact forall₂_congr fun o ho => decayFactor_eq_one (hafter o ho)
  rw [decayConfidence_foldAll hm hidle, mul_right_eq_self₀, hzero, hone, or_comm]

def freshEstimate (K : Type) [Zero K] [One K] : Capacity K := ⟨10000000, 1000000, 1, some 0⟩

def idleObservation (K : Type) : Observation K where
  atomicId := "wifi:hotel"
  downBps := 0
  upBps := 0
  rttMs := none
  jitterMs := none
  lossPct := none
  bloatMs := none
  saturated := false

/-- One idle observation a half-life after the measurement leaves a quarter of
the confidence; without it half is left. -/
theorem idle_fold_ages_twice :
    decayConfidence (foldAll (freshEstimate ℝ) [(idleObservation ℝ, 1800)]) 1800 ≠
      decayConfidence (freshEstimate ℝ) 1800 := by
  have hm : (freshEstimate ℝ).measuredAt = some 0 := rfl
  have hf : decayFactor (0 : ℝ) 1800 = 1 / 2 := by
    norm_num [decayFactor, confidenceHalfLifeS, halfPow_real]
  have hplain : decayConfidence (freshEstimate ℝ) 1800 = 1 / 2 := by
    rw [decayConfidence_eq hm, hf]
    norm_num [freshEstimate]
  rw [decayConfidence_foldAll hm (by simp [idleObservation]), hplain]
  norm_num [hf]

theorem idle_aging_iff_freshEstimate :
    decayConfidence (foldAll (freshEstimate ℝ) [(idleObservation ℝ, 1800)]) 1800 =
        decayConfidence (freshEstimate ℝ) 1800 ↔
      (freshEstimate ℝ).confidence ≤ 0 ∨ ∀ o ∈ [(idleObservation ℝ, (1800 : ℝ))], o.2 = 0 :=
  idle_aging_iff rfl (by simp [idleObservation]) (by simp) 1800

end Wifucked
