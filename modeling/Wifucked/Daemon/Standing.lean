import Wifucked.Allocator.Shares
import Wifucked.Daemon.Modes

/-!
# What a standing allocation rests on

An allocation stands until the next decision, while modes are written under
it. Runs keep the writes since the decision: a connection the allocation uses
still has the permission it was chosen with, or the mode last written to it.
-/

namespace Wifucked

def Allocation.Uses (al : Allocation) (id : String) : Prop :=
  al.primaryId = some id ∨ ∃ s ∈ al.shares, s.atomicId = id

/-- UNUSED never carries traffic, BACKUP only while the backup is active. -/
def Permits (state : BackupState) (mode : Mode) : Prop :=
  mode ≠ .unused ∧ (mode = .backup → state = .active)

instance : Decidable (Permits state mode) := inferInstanceAs (Decidable (_ ∧ _))

/-- The daemon, and the mode writes since its last decision, the latest first. -/
structure Logged (K : Type) where
  daemon : Daemon K
  writes : List (String × Mode)

section

variable {K : Type} [Field K] [LinearOrder K] [HalfPow K]

/-- A connection a decision uses has the permission for it. -/
theorem Allocator.permits_of_uses {a : Allocator K} {state : BackupState} {i : DecideInput K}
    {id : String} (h : (a.allocate state i).Uses id) :
    ∃ c ∈ i.atomics, c.id = id ∧ Permits state c.mode := by
  have hpool : ∀ p ∈ poolOf i.atomics, Permits state p.mode := by
    intro p hp
    rw [(mem_poolOf hp).2]
    exact ⟨by simp, by simp⟩
  have hbackup : ∀ b ∈ backupsOf i.atomics, state = .active → Permits state b.mode := by
    intro b hb hs
    rw [(mem_backupsOf.mp hb).2.1]
    exact ⟨by simp, fun _ => hs⟩
  rcases h with hp | ⟨s, hs, rfl⟩
  · obtain ⟨p, hprim, rfl⟩ := Option.map_eq_some_iff.mp hp
    rw [primaryOf_eq] at hprim
    split at hprim
    · split at hprim
      · rename_i hact
        have hb := mem_of_backupOf hprim
        have hs := (backupActiveIn_eq_true.mp hact).1
        exact ⟨p, (mem_backupsOf.mp hb).1, rfl, hbackup p hb hs⟩
      · cases hprim
    · have hp := mem_of_best hprim
      exact ⟨p, (mem_poolOf hp).1, rfl, hpool p hp⟩
  · rcases mem_shares_allocate hs with ⟨p, hp, -, hid⟩ | ⟨b, hb, -, hact, hs⟩
    · exact ⟨p, (mem_poolOf hp).1, hid.symm, hpool p hp⟩
    · have hid := atomicId_of_mem_backupShares hs
      exact ⟨b, (mem_backupsOf.mp hb).1, hid.symm, hbackup b hb hact⟩

end

namespace Logged

variable {K : Type}

def state (s : Logged K) : BackupState := s.daemon.allocator.h.state

def lastWrite (s : Logged K) (id : String) : Option Mode :=
  (s.writes.find? fun w => w.1 = id).map (·.2)

/-- A write since the decision took the connection out of permission. -/
def Withdrawn (s : Logged K) (id : String) : Prop :=
  ∃ mode, s.lastWrite id = some mode ∧ ¬Permits s.state mode

def MayCarry (s : Logged K) (id : String) : Prop :=
  ∀ mode, s.daemon.registry.modeOf id = some mode → Permits s.state mode

/-- The allocation that stands, seen from the writes since its decision. -/
structure Standing (s : Logged K) : Prop where
  uses : ∀ al, s.daemon.allocation = some al → ∀ id, al.Uses id →
    ∃ mode, s.daemon.registry.modeOf id = some mode ∧
      (s.lastWrite id = some mode ∨ s.lastWrite id = none ∧ Permits s.state mode)
  shared : ∀ al, s.daemon.allocation = some al → ∀ share ∈ al.shares,
    share.atomicId ∉ al.quiesced

theorem Standing.mayCarry_iff {s : Logged K} (h : s.Standing) (hal : s.daemon.allocation = some al)
    {id : String} (hu : al.Uses id) : s.MayCarry id ↔ ¬s.Withdrawn id := by
  obtain ⟨mode, hm, hw⟩ := h.uses al hal id hu
  simp only [MayCarry, Withdrawn, hm, Option.some.injEq, forall_eq']
  rcases hw with hw | ⟨hw, hp⟩
  · simp [hw]
  · simp [hw, hp]

variable [Field K] [LinearOrder K]

def init (config : Config K) (file : Option (StateFile K)) (r : Reading K) : Logged K where
  daemon := Daemon.init config file r
  writes := []

theorem standing_init (config : Config K) (file : Option (StateFile K)) (r : Reading K) :
    (init config file r).Standing := by
  constructor <;> intro al hal <;> cases hal

variable [FloorRing K] [HalfPow K]

def step (s : Logged K) (e : Event K) : Logged K where
  daemon := s.daemon.step e
  writes :=
    match e.action with
    | .decide _ => []
    | _ => (s.daemon.modeWrite e).toList ++ s.writes

theorem standing_decide (s : Logged K) (r : Reading K) (demand : Demand) :
    (s.step ⟨r, .decide demand⟩).Standing := by
  have hal : (s.step ⟨r, .decide demand⟩).daemon.allocation = some (s.daemon.allocator.allocate
      (s.step ⟨r, .decide demand⟩).state ⟨r.now, s.daemon.registry.all, demand⟩) := rfl
  constructor
  · intro al h id hu
    obtain rfl := Option.some.inj (hal.symm.trans h)
    obtain ⟨c, hc, rfl, hp⟩ := Allocator.permits_of_uses hu
    exact ⟨c.mode, Registry.modeOf_of_mem_all hc, .inr ⟨rfl, hp⟩⟩
  · intro al h share hs
    obtain rfl := Option.some.inj (hal.symm.trans h)
    exact Allocator.not_quiesced_of_mem_shares s.daemon.registry.nodup_all hs

theorem lastWrite_step {s : Logged K} {e : Event K} (hd : ∀ demand, e.action ≠ .decide demand)
    (id : String) : (s.step e).lastWrite id =
      (Daemon.written (s.daemon.modeWrite e) id).or (s.lastWrite id) := by
  have hw : (s.step e).writes = (s.daemon.modeWrite e).toList ++ s.writes := by
    cases ha : e.action with
    | decide demand => exact absurd ha (hd demand)
    | _ => simp only [step, ha]
  rw [lastWrite, hw]
  cases s.daemon.modeWrite e with
  | none => simp [Daemon.written, lastWrite]
  | some w => by_cases hid : w.1 = id <;> simp [Daemon.written, lastWrite, hid]

theorem standing_step {s : Logged K} (h : s.Standing) (e : Event K) : (s.step e).Standing := by
  by_cases hd : ∃ demand, e.action = .decide demand
  · obtain ⟨r, action⟩ := e
    obtain ⟨demand, rfl⟩ := hd
    exact standing_decide s r demand
  by_cases hr : e.action = .restart
  · have hnone : (s.step e).daemon.allocation = none := by
      simp only [step, Daemon.step, hr]
      rfl
    constructor <;> intro al hal <;> rw [hnone] at hal <;> cases hal
  have hd : ∀ demand, e.action ≠ .decide demand := fun demand hd' => hd ⟨demand, hd'⟩
  obtain ⟨hal, htimer⟩ := Daemon.step_frame s.daemon hd hr
  have hal : (s.step e).daemon.allocation = s.daemon.allocation := hal
  have hstate : (s.step e).state = s.state := congrArg (·.state) htimer
  refine ⟨fun al ha id hu => ?_, fun al ha => h.shared al (hal ▸ ha)⟩
  obtain ⟨mode, hm, hw⟩ := h.uses al (hal ▸ ha) id hu
  have hmode : (s.step e).daemon.registry.modeOf id =
      (Daemon.written (s.daemon.modeWrite e) id).or ((s.daemon.registry.modeOf id).or _) :=
    Daemon.modeOf_step hr id
  rw [hmode, lastWrite_step hd, hstate, hm]
  cases Daemon.written (s.daemon.modeWrite e) id with
  | some m => exact ⟨m, rfl, .inl rfl⟩
  | none => exact ⟨mode, rfl, by simpa using hw⟩

end Logged

end Wifucked
