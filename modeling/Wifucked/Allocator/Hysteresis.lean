import Wifucked.Allocator

/-!
# What one decision can do to the hysteresis

`Move` is the state machine on its own: a state, the time it was entered, how
often traffic was moved, and one rule for each way on with the guard it is
taken under. `decide_move` reads a call of `decide` as one move.
-/

namespace Wifucked

structure Timer (K : Type) where
  state : BackupState
  since : K
  transitions : Nat

def Hysteresis.timer (h : Hysteresis K) : Timer K := ⟨h.state, h.since, h.transitions⟩

namespace Allocator

variable {K : Type} [Field K] [LinearOrder K]

section

variable (t : Thresholds K) (now : K) (deficit surplus backup : Prop)

inductive Move : Timer K → Timer K → Prop where
  | rest : ¬(deficit ∧ backup) → Move ⟨.idle, since, n⟩ ⟨.idle, since, n⟩
  | arm : deficit → backup → Move ⟨.idle, since, n⟩ ⟨.arming, now, n⟩
  | disarm : ¬deficit ∨ ¬backup → Move ⟨.arming, since, n⟩ ⟨.idle, now, n⟩
  | wait : deficit → backup → now - since < t.activationDwellS →
    Move ⟨.arming, since, n⟩ ⟨.arming, since, n⟩
  | activate : deficit → backup → t.activationDwellS ≤ now - since →
    Move ⟨.arming, since, n⟩ ⟨.active, now, n + 1⟩
  | lose : ¬backup → Move ⟨.active, since, n⟩ ⟨.idle, now, n⟩
  | release : backup → surplus → Move ⟨.active, since, n⟩ ⟨.releasing, now, n⟩
  | carry : backup → ¬surplus → Move ⟨.active, since, n⟩ ⟨.active, since, n⟩
  | rearm : ¬surplus → Move ⟨.releasing, since, n⟩ ⟨.arming, now, n⟩
  | cool : surplus → now - since < t.recoveryDwellS →
    Move ⟨.releasing, since, n⟩ ⟨.releasing, since, n⟩
  | retire : surplus → t.recoveryDwellS ≤ now - since →
    Move ⟨.releasing, since, n⟩ ⟨.idle, now, n + 1⟩

variable {t now deficit surplus backup} {x y : Timer K}

theorem Move.to_active (h : Move t now deficit surplus backup x y) (hy : y.state = .active) :
    backup ∧ (x.state = .active ∧ ¬surplus ∨
      x.state = .arming ∧ deficit ∧ t.activationDwellS ≤ now - x.since) := by
  cases h with
  | activate hd hb he => exact ⟨hb, .inr ⟨rfl, hd, he⟩⟩
  | carry hb hs => exact ⟨hb, .inl ⟨rfl, hs⟩⟩
  | _ => cases hy

theorem Move.to_arming (h : Move t now deficit surplus backup x y) (hy : y.state = .arming) :
    y.since = now ∨ x.state = .arming ∧ y.since = x.since ∧ deficit := by
  cases h with
  | arm | rearm => exact .inl rfl
  | wait hd => exact .inr ⟨rfl, rfl, hd⟩
  | _ => cases hy

theorem Move.from_idle (h : Move t now deficit surplus backup x y) (hx : x.state = .idle)
    (hd : ¬deficit) : y.state = .idle := by
  cases h with
  | rest => rfl
  | arm h => exact absurd h hd
  | _ => cases hx

theorem Move.from_active (h : Move t now deficit surplus backup x y) (hx : x.state = .active)
    (hb : backup) : y.state = .active ↔ ¬surplus := by
  cases h with
  | lose hn => exact absurd hb hn
  | release _ hs => simp [hs]
  | carry _ hs => simp [hs]
  | _ => cases hx

end

theorem stepHysteresis_move (t : Thresholds K) (h : Hysteresis K) (now : K)
    (deficit normalCapacity criticalDemand : Int) (backups : List (Atomic K)) :
    Move t now (inDeficit t deficit) (recovered t normalCapacity criticalDemand)
      (haveBackup backups) h.timer
      (stepHysteresis t h now deficit normalCapacity criticalDemand backups).timer := by
  obtain ⟨state, since, n, lastLiveness⟩ := h
  cases state with
  | idle =>
    simp only [stepHysteresis]
    split
    · rename_i hd; exact .arm hd.1 hd.2
    · rename_i hd; exact .rest hd
  | arming =>
    simp only [stepHysteresis]
    split
    · rename_i hd; exact .disarm hd
    · rename_i hd
      obtain ⟨hd, hb⟩ : inDeficit t deficit ∧ haveBackup backups := by simpa [not_or] using hd
      split
      · rename_i he; exact .activate hd hb he
      · rename_i he; exact .wait hd hb (not_le.mp he)
  | active =>
    simp only [stepHysteresis]
    split
    · rename_i hb; exact .lose hb
    · rename_i hb
      split
      · rename_i hr; exact .release (not_not.mp hb) hr
      · rename_i hr; exact .carry (not_not.mp hb) hr
  | releasing =>
    simp only [stepHysteresis]
    split
    · rename_i hr; exact .rearm hr
    · rename_i hr
      split
      · rename_i he; exact .retire (not_not.mp hr) he
      · rename_i he; exact .cool (not_not.mp hr) (not_le.mp he)

theorem isSome_chosenBackup {K : Type} {backups : List (Atomic K)} :
    (chosenBackup backups).isSome ↔ haveBackup backups := by
  rw [Option.isSome_iff_ne_none, ne_eq, chosenBackup, List.argmax_eq_none, List.filter_eq_nil_iff]
  simp [haveBackup]

section

variable [HalfPow K]

def InDeficit (a : Allocator K) (i : DecideInput K) : Prop :=
  inDeficit a.t (a.criticalDemand i - a.normalCapacity i)

def Recovered (a : Allocator K) (i : DecideInput K) : Prop :=
  recovered a.t (a.normalCapacity i) (a.criticalDemand i)

def HaveBackup (i : DecideInput K) : Prop := haveBackup (backupsOf i.atomics)

def backupActive (a : Allocator K) : Bool := a.last.any (·.backupActive)

theorem decide_move (a : Allocator K) (i : DecideInput K) :
    Move a.t i.now (a.InDeficit i) (a.Recovered i) (HaveBackup i) a.h.timer (a.decide i).h.timer :=
  stepHysteresis_move a.t (a.baseline i) i.now (a.criticalDemand i - a.normalCapacity i)
    (a.normalCapacity i) (a.criticalDemand i) (backupsOf i.atomics)

@[simp] theorem decide_t (a : Allocator K) (i : DecideInput K) : (a.decide i).t = a.t := rfl

@[simp] theorem decide_profiles (a : Allocator K) (i : DecideInput K) :
    (a.decide i).profiles = a.profiles := rfl

theorem backupActive_decide (a : Allocator K) (i : DecideInput K) :
    (a.decide i).backupActive = true ↔ (a.decide i).h.state = .active := by
  have hlast : (a.decide i).backupActive =
      ((a.decide i).h.state = .active && (chosenBackup (backupsOf i.atomics)).isSome) := rfl
  rw [hlast]
  constructor
  · intro h
    simp only [Bool.and_eq_true, decide_eq_true_eq] at h
    exact h.1
  · intro h
    obtain ⟨hb, -⟩ := (a.decide_move i).to_active h
    simp [h, isSome_chosenBackup.mpr hb]

theorem decide_active_iff {a : Allocator K} {i : DecideInput K} (h : a.h.state = .active)
    (hb : HaveBackup i) : (a.decide i).h.state = .active ↔ ¬a.Recovered i :=
  (a.decide_move i).from_active h hb

end

end Allocator

end Wifucked
