import Wifucked.Allocator.Dwell
import Wifucked.Allocator.Shares

/-!
# Whether a decision record tells the truth

A record is written when the allocation changes. Its action is read off the
state the decision ends in and off its primary, not off the figures it is
written with.
-/

namespace Wifucked.Allocator

section

variable {K : Type} [Field K] [LinearOrder K] {t : Thresholds K} {now : K}
  {deficit surplus backup : Prop} {x y : Timer K}

theorem Move.to_rest (h : Move t now deficit surplus backup x y) :
    y.state = .idle ∨ y.state = .releasing ↔
      match x.state with
      | .idle | .arming => ¬(deficit ∧ backup)
      | .active => ¬backup ∨ surplus
      | .releasing => surplus := by
  cases h with
  | rest hn => simp [hn]
  | arm hd hb => simp [hd, hb]
  | disarm hn => simpa [imp_iff_not_or] using hn
  | wait hd hb => simp [hd, hb]
  | activate hd hb => simp [hd, hb]
  | lose hb => simp [hb]
  | release hb hs => simp [hs]
  | carry hb hs => simp [hb, hs]
  | rearm hs => simp [hs]
  | cool hs => simp [hs]
  | retire hs => simp [hs]

end

section

variable {K : Type} [Field K] [LinearOrder K] [HalfPow K]

/-- What the record a call writes says is so. -/
def Truthful (a : Allocator K) (i : DecideInput K) : Prop :=
  ∀ r, a.recordOf i = some r →
    (r.action = "activate_backup" → r.deficitBps > r.thresholds.activationDeficitBps) ∧
    (r.action = "allocate_normal" → r.normalCapacityBps ≥ r.criticalDemandBps) ∧
    (r.action = "no_connectivity" → poolOf i.atomics = [] ∧ ¬HaveBackup i)

/-- The allocation is the last one again, so that nothing is written. -/
def Repeats (a : Allocator K) (i : DecideInput K) : Prop :=
  a.last.map (·.key) = some (a.decided i).key

/-- The call neither arms the backup nor puts traffic on it. -/
def Rests (a : Allocator K) (i : DecideInput K) : Prop :=
  match a.h.state with
  | .idle | .arming => ¬(a.InDeficit i ∧ HaveBackup i)
  | .active => ¬HaveBackup i ∨ a.Recovered i
  | .releasing => a.Recovered i

/-- The ways in which a record says what is not so: the backup carries on
between the two thresholds, a shortfall is not acted on, or a backup at hand is
not counted as a connection. -/
inductive Misleads (a : Allocator K) (i : DecideInput K) : Prop where
  | between : a.h.state = .active → HaveBackup i → ¬a.Recovered i → ¬a.InDeficit i → Misleads a i
  | shortfall : a.Rests i → poolOf i.atomics ≠ [] → a.normalCapacity i < a.criticalDemand i →
    Misleads a i
  | standby : a.Rests i → poolOf i.atomics = [] → HaveBackup i → Misleads a i

variable {a : Allocator K} {i : DecideInput K}

theorem rests_iff : (a.decide i).h.state = .idle ∨ (a.decide i).h.state = .releasing ↔
    a.Rests i := (a.decide_move i).to_rest

theorem backupActive_decided :
    (a.decided i).backupActive = true ↔ (a.decide i).h.state = .active := backupActive_decide a i

theorem recordOf_eq (h : ¬a.Repeats i) :
    a.recordOf i = some (record a.t (a.decide i).h.state (a.decided i) (a.normalCapacity i)
      (a.criticalDemand i) (a.criticalDemand i - a.normalCapacity i)) := if_pos h

theorem recordOf_eq_none (h : a.Repeats i) : a.recordOf i = none := if_neg (not_not.mpr h)

theorem primaryId_decided (h : (a.decide i).h.state ≠ .active) :
    (a.decided i).primaryId = none ↔ poolOf i.atomics = [] := by
  have hoff : backupActiveIn (a.decide i).h.state i = false := by simp [backupActiveIn, h]
  rw [decided, allocate, build, Option.map_eq_none_iff, primaryOf_eq, hoff]
  split
  · simp_all
  · rename_i hpool
    rw [best_eq_none]

theorem truthful_of_active (h : ¬a.Repeats i) (hs : (a.decide i).h.state = .active) :
    a.Truthful i ↔ a.InDeficit i := by
  have hon := backupActive_decided.mpr hs
  simp [Truthful, recordOf_eq h, record, hon, InDeficit, inDeficit]

theorem truthful_of_arming (h : ¬a.Repeats i) (hs : (a.decide i).h.state = .arming) :
    a.Truthful i := by
  have hoff : (a.decided i).backupActive ≠ true := mt backupActive_decided.mp (by simp [hs])
  simp [Truthful, recordOf_eq h, record, hoff, hs]

theorem truthful_of_rests (h : ¬a.Repeats i)
    (hs : (a.decide i).h.state = .idle ∨ (a.decide i).h.state = .releasing) :
    a.Truthful i ↔ (poolOf i.atomics ≠ [] → a.criticalDemand i ≤ a.normalCapacity i) ∧
      (poolOf i.atomics = [] → ¬HaveBackup i) := by
  have hactive : (a.decide i).h.state ≠ .active := by rcases hs with hs | hs <;> simp [hs]
  have harming : (a.decide i).h.state ≠ .arming := by rcases hs with hs | hs <;> simp [hs]
  have hoff : (a.decided i).backupActive ≠ true := mt backupActive_decided.mp hactive
  have hprimary := primaryId_decided hactive
  by_cases hpool : poolOf i.atomics = []
  · simp [Truthful, recordOf_eq h, record, hoff, harming, hprimary.mpr hpool, hpool]
  · simp [Truthful, recordOf_eq h, record, hoff, harming, mt hprimary.mp hpool, hpool]

/-- A record tells the truth unless it is one of those that mislead. -/
theorem truthful_iff (a : Allocator K) (i : DecideInput K) :
    a.Truthful i ↔ (¬a.Repeats i → ¬a.Misleads i) := by
  by_cases hrep : a.Repeats i
  · simp [Truthful, recordOf_eq_none hrep, hrep]
  rw [imp_iff_right hrep]
  have hbetween : a.h.state = .active → HaveBackup i → ¬a.Recovered i →
      (a.decide i).h.state = .active := fun ha hb hr => (decide_active_iff ha hb).mpr hr
  by_cases hrest : a.Rests i
  · have hnext := rests_iff.mpr hrest
    rw [truthful_of_rests hrep hnext]
    constructor
    · rintro ⟨hnormal, hnone⟩ (⟨ha, hb, hr, -⟩ | ⟨-, hpool, hlt⟩ | ⟨-, hpool, hb⟩)
      · simp [hbetween ha hb hr] at hnext
      · exact hlt.not_ge (hnormal hpool)
      · exact hnone hpool hb
    · intro h
      exact ⟨fun hpool => not_lt.mp fun hlt => h (.shortfall hrest hpool hlt),
        fun hpool hb => h (.standby hrest hpool hb)⟩
  · cases hs : (a.decide i).h.state with
    | idle => exact absurd (rests_iff.mp (.inl hs)) hrest
    | releasing => exact absurd (rests_iff.mp (.inr hs)) hrest
    | arming =>
      refine iff_of_true (truthful_of_arming hrep hs) ?_
      rintro (⟨ha, hb, hr, -⟩ | ⟨h, -⟩ | ⟨h, -⟩)
      · simp [hbetween ha hb hr] at hs
      · exact hrest h
      · exact hrest h
    | active =>
      rw [truthful_of_active hrep hs]
      constructor
      · rintro hd (⟨-, -, -, hn⟩ | ⟨h, -⟩ | ⟨h, -⟩)
        · exact hn hd
        · exact hrest h
        · exact hrest h
      · intro h
        obtain ⟨hb, ⟨ha, hr⟩ | ⟨-, hd, -⟩⟩ := (a.decide_move i).to_active hs
        · by_contra hn
          exact h (.between ha hb hr hn)
        · exact hd

/-- In a run every record tells the truth exactly where none misleads. -/
theorem records_truthful_iff (t : Thresholds K) (profiles : List ServiceProfile) (now₀ : K)
    (is : List (DecideInput K)) :
    let a := init t profiles now₀
    Runs.Along decide Truthful a is ↔
      Runs.Along decide (fun a i => ¬a.Repeats i → ¬a.Misleads i) a is :=
  Runs.along_congr truthful_iff

end

def phoneOnly : DecideInput ℚ :=
  { campsite 0 0 with atomics := [unmeasured "phone" .usbTether .backup] }

/-- The first record of an appliance with a phone at hand says there is no usable
connection. -/
theorem not_truthful_phoneOnly :
    let a := init (Thresholds.defaults ℚ) defaultProfiles 0
    (a.recordOf phoneOnly).map (·.action) = some "no_connectivity" ∧ HaveBackup phoneOnly ∧
      ¬Runs.Along decide Truthful a [phoneOnly] := by
  intro a
  have hb : HaveBackup phoneOnly := ⟨unmeasured "phone" .usbTether .backup, by decide, by decide⟩
  have hrecord : (a.recordOf phoneOnly).map (·.action) = some "no_connectivity" := by
    decide +kernel
  refine ⟨hrecord, hb, ?_⟩
  rintro ⟨htruth, -⟩
  obtain ⟨r, hr, haction⟩ := Option.map_eq_some_iff.mp hrecord
  exact ((htruth r hr).2.2 haction).2 hb

end Wifucked.Allocator
