import Wifucked.Allocator.Dwell

/-!
# What the transition counter counts

A release is counted when it has cooled down, and one that is aborted is not;
a backup that is lost while it carries traffic is not counted at all.
-/

namespace Wifucked.Allocator

def owed : BackupState → ℕ
  | .releasing => 1
  | _ => 0

theorem owed_eq_zero {state : BackupState} : owed state = 0 ↔ ¬state = .releasing := by
  cases state <;> simp [owed]

def changed (before now : BackupState) : ℕ :=
  if before = .active ↔ now = .active then 0 else 1

section

variable {K : Type} [Field K] [LinearOrder K] {t : Thresholds K} {now : K}
  {deficit surplus backup : Prop} {x y : Timer K}

theorem Move.tally (h : Move t now deficit surplus backup x y) :
    ∃ missed : ℕ,
      (missed = 0 ↔ (x.state = .active → backup) ∧ (x.state = .releasing → surplus)) ∧
      changed x.state y.state + owed x.state + x.transitions =
        y.transitions + missed + owed y.state := by
  cases h with
  | rest | arm | disarm | wait => exact ⟨0, by simp, by simp [changed, owed]⟩
  | activate => exact ⟨0, by simp, by simp [changed, owed]; omega⟩
  | lose hb => exact ⟨1, by simp [hb], by simp [changed, owed]; omega⟩
  | release hb => exact ⟨0, by simp [hb], by simp [changed, owed]; omega⟩
  | carry hb => exact ⟨0, by simp [hb], by simp [changed, owed]⟩
  | rearm hs => exact ⟨1, by simp [hs], by simp [changed, owed]; omega⟩
  | cool hs => exact ⟨0, by simp [hs], by simp [changed, owed]; omega⟩
  | retire hs => exact ⟨0, by simp [hs], by simp [changed, owed]; omega⟩

theorem Move.to_releasing (h : Move t now deficit surplus backup x y) :
    y.state = .releasing ↔ surplus ∧ (x.state = .active ∧ backup ∨
      x.state = .releasing ∧ now - x.since < t.recoveryDwellS) := by
  cases h with
  | rest | arm | disarm | wait | activate => simp
  | lose hb => simp [hb]
  | release hb hs => simp [hb, hs]
  | carry hb hs => simp [hs]
  | rearm hs => simp [hs]
  | cool hs he => simp [hs, he]
  | retire hs he => simp [he]

end

section

variable {K : Type} [Field K] [LinearOrder K] [HalfPow K]

def changes (a : Allocator K) (is : List (DecideInput K)) : List (DecideInput K × Allocator K) :=
  Signal.changes carried a.backupActive (a.decisions is)

def Counted (a : Allocator K) (i : DecideInput K) : Prop :=
  (a.h.state = .active → HaveBackup i) ∧ (a.h.state = .releasing → a.Recovered i)

def Cooling (a : Allocator K) (i : DecideInput K) : Prop :=
  a.Recovered i ∧ (a.h.state = .active ∧ HaveBackup i ∨
    a.h.state = .releasing ∧ i.now - a.h.since < a.t.recoveryDwellS)

theorem decide_releasing_iff (a : Allocator K) (i : DecideInput K) :
    (a.decide i).h.state = .releasing ↔ a.Cooling i := (a.decide_move i).to_releasing

theorem length_changes_cons {a : Allocator K} (h : a.backupActive = true ↔ a.h.state = .active)
    (i : DecideInput K) (is : List (DecideInput K)) : (a.changes (i :: is)).length =
      changed a.h.state (a.decide i).h.state + ((a.decide i).changes is).length := by
  have hsame : (a.decide i).backupActive = a.backupActive ↔
      (a.h.state = .active ↔ (a.decide i).h.state = .active) := by
    rw [← h, ← backupActive_decide, Bool.eq_iff_iff]
    exact iff_comm
  have hunfold : a.changes (i :: is) = if (a.decide i).backupActive = a.backupActive
      then (a.decide i).changes is else (i, a.decide i) :: (a.decide i).changes is := rfl
  rw [hunfold, changed]
  simp only [hsame]
  split
  · rw [Nat.zero_add]
  · rw [List.length_cons, Nat.add_comm]

/-- What a run changes is counted, missed, or owed. -/
theorem changes_tally {a : Allocator K} (h : a.backupActive = true ↔ a.h.state = .active)
    (is : List (DecideInput K)) :
    ∃ missed : ℕ, (missed = 0 ↔ Runs.Along decide Counted a is) ∧
      (a.changes is).length + owed a.h.state + a.h.transitions =
        (a.after is).h.transitions + missed + owed (a.after is).h.state := by
  induction is generalizing a with
  | nil => exact ⟨0, by simp, by simp [changes, after, Signal.changes]; omega⟩
  | cons i is ih =>
    obtain ⟨missed, hmissed, hstep⟩ := (a.decide_move i).tally
    obtain ⟨rest, hrest, hrun⟩ := ih (backupActive_decide a i)
    refine ⟨missed + rest, ?_, ?_⟩
    · rw [Nat.add_eq_zero_iff, hmissed, hrest]
      rfl
    · have hafter : a.after (i :: is) = (a.decide i).after is := rfl
      rw [length_changes_cons h, hafter]
      change changed a.h.state (a.decide i).h.state + owed a.h.state + a.h.transitions =
        (a.decide i).h.transitions + missed + owed (a.decide i).h.state at hstep
      omega

/-- The counter tells how often traffic changed exactly where no backup was
lost, no release was aborted and none is under way. -/
theorem transitions_eq_iff (t : Thresholds K) (profiles : List ServiceProfile) (now₀ : K)
    (is : List (DecideInput K)) :
    let a := init t profiles now₀
    (a.after is).h.transitions = (a.changes is).length ↔
      Runs.Along decide Counted a is ∧
        ∀ pre i, is = pre ++ [i] → ¬(a.after pre).Cooling i := by
  intro a
  obtain ⟨missed, hmissed, htally⟩ := changes_tally (a := a) (after_active t profiles now₀ []) is
  have hstart : owed a.h.state = 0 ∧ a.h.transitions = 0 := ⟨rfl, rfl⟩
  have hcool : owed (a.after is).h.state = 0 ↔
      ∀ pre i, is = pre ++ [i] → ¬(a.after pre).Cooling i := by
    rcases List.eq_nil_or_concat is with rfl | ⟨before, j, rfl⟩
    · simp [after, a, init, owed]
    · rw [List.concat_eq_append, after_concat, owed_eq_zero, decide_releasing_iff]
      constructor
      · intro hcool pre i he
        obtain ⟨hpre, hlast⟩ := List.append_inj' he rfl
        rwa [← hpre, ← List.singleton_inj.mp hlast]
      · intro h
        exact h before j rfl
  rw [← hmissed, ← hcool]
  change (a.changes is).length + owed a.h.state + a.h.transitions =
    (a.after is).h.transitions + missed + owed (a.after is).h.state at htally
  omega

end

def unplugged : List (DecideInput ℚ) :=
  luckySample ++
    [{ campsite 121 2000000 with atomics := ["wlan1"].map (unmeasured · .wifi .normal) }]

/-- Traffic went onto the backup and off it, and one change is counted. -/
theorem transitions_unplugged :
    let a := init (Thresholds.defaults ℚ) defaultProfiles 0
    (a.after unplugged).h.transitions ≠ (a.changes unplugged).length ∧
      (a.changes unplugged).length = 2 ∧ (a.after unplugged).h.transitions = 1 := by
  decide +kernel

end Wifucked.Allocator
