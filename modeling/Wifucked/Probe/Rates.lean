import Wifucked.Probe.Budget

/-!
# Rates, and what an estimate makes of them

One reading of the queue stands for both directions, and the queue is the one of
the upload.
-/

namespace Wifucked

variable {K : Type} [Field K] [LinearOrder K] [IsStrictOrderedRing K] [FloorRing K] {elapsed : K}

theorem throughput_eq (he : 0 < elapsed) (previous bytes : ℤ) :
    throughput elapsed previous bytes = ⌊((max 0 (bytes - previous) * 8 : ℤ) : K) / elapsed⌋ := by
  have hpos : (0 : K) ≤ ((max 0 (bytes - previous) * 8 : ℤ) : K) / elapsed :=
    div_nonneg (Int.cast_nonneg (by positivity)) he.le
  rw [throughput, trunc, if_pos hpos]

theorem throughput_nonneg (he : 0 < elapsed) (previous bytes : ℤ) :
    0 ≤ throughput elapsed previous bytes := by
  rw [throughput_eq he]
  exact Int.floor_nonneg.mpr (div_nonneg (Int.cast_nonneg (by positivity)) he.le)

theorem le_throughput_iff (he : 0 < elapsed) (previous bytes rate : ℤ) :
    rate ≤ throughput elapsed previous bytes ↔
      (rate : K) * elapsed ≤ 8 * ((max 0 (bytes - previous) : ℤ) : K) := by
  rw [throughput_eq he, Int.le_floor, le_div_iff₀ he, Int.cast_mul, mul_comm (8 : K),
    Int.cast_ofNat]

theorem le_ewma_iff {weight : K} (h0 : 0 < weight) (h1 : weight < 1) {old new : ℤ}
    (hnew : 0 ≤ new) : old ≤ ewma weight old new ↔ old ≤ new := by
  have hmean : (old : K) * (1 - weight) + new * weight = old + (new - old) * weight := by ring
  rw [ewma, hmean, trunc]
  split
  · rename_i hpos
    rw [Int.le_floor, le_add_iff_nonneg_right, mul_nonneg_iff_of_pos_right h0, sub_nonneg,
      Int.cast_le]
  · rename_i hneg
    -- The old value was below zero, and so below the new one.
    have hnew' : (0 : K) ≤ new := Int.cast_nonneg hnew
    have hold : (old : K) < 0 := by
      by_contra hold
      refine hneg ?_
      rw [← hmean]
      exact add_nonneg (mul_nonneg (not_lt.mp hold) (sub_nonneg.mpr h1.le))
        (mul_nonneg hnew' h0.le)
    have hrise : (old : K) ≤ old + (new - old) * weight :=
      le_add_of_nonneg_right (mul_nonneg (sub_nonneg.mpr (hold.le.trans hnew')) h0.le)
    refine iff_of_true ?_ ((Int.cast_lt_zero.mp hold).le.trans hnew)
    exact Int.cast_le.mp (hrise.trans (Int.le_ceil _))

variable [HalfPow K]

/-- An estimate that a saturated window is folded into keeps its download, just
where the download of the window came to that much. -/
theorem fold_keeps_download_iff {p : LinuxProber K} {atomic : Atomic K} {look : Look K}
    {o : Observation K} (ho : (p.observe atomic look).2 = .ok (some o))
    (hsat : o.saturated = true) :
    ∃ previous, p.Saturated atomic look previous ∧ ∀ (capacity : Capacity K) (now : K),
      capacity.downBps ≤ (fold capacity o now).downBps ↔
        (capacity.downBps : K) * (look.passive.now - previous.now) ≤
          8 * ((max 0 (look.passive.rxBytes - previous.rxBytes) : ℤ) : K) := by
  have hwindow : (p.observe atomic look).2.toOption.join.map LinuxProber.window =
      some (true, o.downBps, o.upBps) := by
    rw [ho, ← hsat]
    rfl
  obtain ⟨previous, hprevious, hdown, -⟩ := LinuxProber.window_saturated_iff.mp hwindow
  refine ⟨previous, hprevious, fun capacity now => ?_⟩
  have hnonneg := throughput_nonneg hprevious.later previous.rxBytes look.passive.rxBytes
  rw [← le_throughput_iff hprevious.later, hdown]
  rw [hdown] at hnonneg
  simp only [fold, hsat, if_true]
  split
  · exact le_ewma_iff (by norm_num) (by norm_num) hnonneg
  · exact le_ewma_iff (by norm_num) (by norm_num) hnonneg

def uploading : Look ℚ where
  passive := ⟨⟨10, 0, 25000000, 0⟩, 3000⟩
  now := 10
  ping := fun _ => ⟨10, none⟩

def readOnce : LinuxProber ℚ :=
  ((LinuxProber.init 2).observe (cable "eth1") ⟨⟨⟨0, 0, 0, 0⟩, 0⟩, 0, fun _ => ⟨0, none⟩⟩).1

def uploaded : Observation ℚ where
  atomicId := "eth1"
  downBps := 0
  upBps := 20000000
  rttMs := none
  jitterMs := none
  lossPct := none
  bloatMs := none
  saturated := true

theorem upload_burst_lowers_download :
    (readOnce.observe (cable "eth1") uploading).2 = .ok (some uploaded) ∧
      ¬100000000 ≤ (fold ⟨100000000, 20000000, 1, none⟩ uploaded 10).downBps := by
  decide +kernel

def downloading : Look ℚ where
  passive := ⟨⟨10, 25000000, 0, 0⟩, 3000⟩
  now := 10
  ping := fun _ => ⟨10, none⟩

theorem download_burst_keeps_download :
    ∃ o, (readOnce.observe (cable "eth1") downloading).2 = .ok (some o) ∧
      12000000 ≤ (fold ⟨12000000, 8000000, 1, some 0⟩ o 10).downBps := by
  have ho : (readOnce.observe (cable "eth1") downloading).2 =
      .ok (some { uploaded with downBps := 20000000, upBps := 0 }) := by decide +kernel
  obtain ⟨previous, hprevious, h⟩ := fold_keeps_download_iff ho rfl
  refine ⟨_, ho, (h ⟨12000000, 8000000, 1, some 0⟩ 10).mpr ?_⟩
  have hlast : (readOnce.last.get? (cable "eth1").id).map (·.2) = some ⟨0, 0, 0, 0⟩ := rfl
  rw [← Option.some.inj (hlast.symm.trans hprevious.last)]
  norm_num [downloading]

end Wifucked
