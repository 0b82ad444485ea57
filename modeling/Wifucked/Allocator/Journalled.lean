import Wifucked.Allocator.Filling
import Wifucked.Allocator.Reasons

/-!
# Which changes of the allocation are journalled

A change is told by the primary, the backup and the shares. What is to carry no
traffic is part of the allocation and is left out, so a connection may come to
rest, or leave, without a record. What each part of an allocation comes from is
read off the call's input and the state it starts in.
-/

namespace Wifucked

-- ---------------------------------------------------------------------------
-- What a change is told by
-- ---------------------------------------------------------------------------

/-- The same traffic on the same connections, the shares in any order. -/
structure Allocation.SameTraffic (a b : Allocation) : Prop where
  primaryId : a.primaryId = b.primaryId
  backupActive : a.backupActive = b.backupActive
  shares : a.shares.Perm b.shares

/-- Equal in every field, up to the order of the shares. -/
def Allocation.Same (a b : Allocation) : Prop := a.SameTraffic b ∧ a.quiesced = b.quiesced

theorem Share.sortKey_injective : Function.Injective Share.sortKey := by
  intro s t h
  have h := congrArg ofLex h
  have hid : s.atomicId = t.atomicId := congrArg Prod.fst h
  have hrest := congrArg ofLex (congrArg Prod.snd h)
  have hname : s.profileName = t.profileName := congrArg Prod.fst hrest
  have hceiling : s.ceilingBps = t.ceilingBps := congrArg Prod.snd hrest
  cases s
  cases t
  simp_all

def Share.NotAfter (s t : Share) : Prop := s.sortKey ≤ t.sortKey

instance : DecidableRel Share.NotAfter := fun s t =>
  inferInstanceAs (Decidable (s.sortKey ≤ t.sortKey))

instance : Std.Total Share.NotAfter := ⟨fun s t => le_total s.sortKey t.sortKey⟩

instance : IsTrans Share Share.NotAfter := ⟨fun _ _ _ => le_trans⟩

instance : Std.Antisymm Share.NotAfter :=
  ⟨fun _ _ hst hts => Share.sortKey_injective (le_antisymm hst hts)⟩

theorem insertionSort_shares_eq_iff {ss ts : List Share} :
    (ss.insertionSort fun s t => s.sortKey ≤ t.sortKey) =
      (ts.insertionSort fun s t => s.sortKey ≤ t.sortKey) ↔ ss.Perm ts := by
  have hperm (l : List Share) : (l.insertionSort Share.NotAfter).Perm l :=
    List.perm_insertionSort _ l
  have hsorted (l : List Share) : (l.insertionSort Share.NotAfter).Pairwise Share.NotAfter :=
    List.pairwise_insertionSort _ l
  change ss.insertionSort Share.NotAfter = ts.insertionSort Share.NotAfter ↔ _
  constructor
  · intro h
    exact (hperm ss).symm.trans (h ▸ hperm ts)
  · intro h
    exact (((hperm ss).trans h).trans (hperm ts).symm).eq_of_pairwise' (hsorted ss) (hsorted ts)

theorem Allocation.key_eq_iff {a b : Allocation} : a.key = b.key ↔ a.SameTraffic b := by
  simp only [Allocation.key, Prod.mk.injEq, insertionSort_shares_eq_iff]
  exact ⟨fun ⟨hp, hb, hs⟩ => ⟨hp, hb, hs⟩, fun ⟨hp, hb, hs⟩ => ⟨hp, hb, hs⟩⟩

namespace Allocator

-- ---------------------------------------------------------------------------
-- What is withheld
-- ---------------------------------------------------------------------------

section

variable {K : Type}

def Listed (ids : List String) : Prop := ids.Pairwise (· ≤ ·) ∧ ids.Nodup

theorem listed_quiescedIds (pool : List (Atomic K)) (primary backup : Option (Atomic K))
    (active : Bool) : Listed (quiescedIds pool primary backup active) :=
  ⟨List.pairwise_insertionSort _ _,
    (List.perm_insertionSort _ _).nodup_iff.mpr (List.nodup_dedup _)⟩

theorem Listed.eq_iff {ids jds : List String} (hi : Listed ids) (hj : Listed jds) :
    ids = jds ↔ ∀ x, x ∈ ids ↔ x ∈ jds := by
  constructor
  · rintro rfl x
    rfl
  · intro h
    exact ((List.perm_ext_iff_of_nodup hi.2 hj.2).mpr h).eq_of_pairwise' hi.1 hj.1

end

section

variable {K : Type} [LinearOrder K] [Field K] {t : Thresholds K} {now : K}
  {deficit surplus backup : Prop} {x y : Timer K}

theorem Move.active_iff (h : Move t now deficit surplus backup x y) : y.state = .active ↔
    backup ∧ (x.state = .active ∧ ¬surplus ∨
      x.state = .arming ∧ deficit ∧ t.activationDwellS ≤ now - x.since) := by
  refine ⟨h.to_active, ?_⟩
  rintro ⟨hb, ⟨hx, hs⟩ | ⟨hx, hd, he⟩⟩
  · exact (h.from_active hx hb).mpr hs
  · cases h with
    | activate => rfl
    | disarm hn => exact absurd hn (not_or.mpr ⟨not_not.mpr hd, not_not.mpr hb⟩)
    | wait _ _ hlt => exact absurd he (not_le.mpr hlt)
    | _ => cases hx

end

section

variable {K : Type} [Field K] [LinearOrder K] [HalfPow K]

-- ---------------------------------------------------------------------------
-- What an allocation comes from
-- ---------------------------------------------------------------------------

/-- The backup is spent on: it was before and there is no surplus, or the deficit
has lasted. -/
def KeepsBackup (a : Allocator K) (i : DecideInput K) : Prop :=
  HaveBackup i ∧ (a.h.state = .active ∧ ¬a.Recovered i ∨
    a.h.state = .arming ∧ a.InDeficit i ∧ a.t.activationDwellS ≤ i.now - a.h.since)

/-- The best of the pool has this name; or the pool is empty, and the backup that is
spent on has it. -/
def Leads (a : Allocator K) (i : DecideInput K) (x : String) : Prop :=
  (∃ p, best a.t (poolOf i.atomics) i.now = some p ∧ p.id = x) ∨
    poolOf i.atomics = [] ∧ a.KeepsBackup i ∧ ∃ b, backupOf i = some b ∧ b.id = x

/-- What the classes get of the capacity that is believed, in the order of their priority. -/
def onPool (a : Allocator K) (i : DecideInput K) : List Share :=
  match best a.t (poolOf i.atomics) i.now with
  | none => []
  | some p => primaryShares p.id i.demand (max 0 (a.normalCapacity i)) (inOrder a.profiles)

/-- What the classes that may use it get of a backup. -/
def onBackup (a : Allocator K) (i : DecideInput K) : List Share :=
  match backupOf i with
  | none => []
  | some b => backupShares b.id i.demand a.profiles

def Idle (a : Allocator K) (i : DecideInput K) (x : String) : Prop :=
  (¬a.KeepsBackup i ∧ ∃ b, backupOf i = some b ∧ b.id = x) ∨
    ∃ p ∈ poolOf i.atomics, p.id = x ∧ ¬a.Leads i x

variable {a : Allocator K} {i j : DecideInput K}

theorem backupActive_decided_iff : (a.decided i).backupActive = true ↔ a.KeepsBackup i :=
  backupActive_decided.trans (a.decide_move i).active_iff

theorem primaryId_eq_some {x : String} : (a.decided i).primaryId = some x ↔ a.Leads i x := by
  have hactive : backupActiveIn (a.decide i).h.state i = true ↔ a.KeepsBackup i :=
    backupActive_decided_iff
  have hprimary : (a.decided i).primaryId =
      (a.primaryOf (a.decide i).h.state i).map (·.id) := rfl
  rw [hprimary, primaryOf_eq, Leads]
  by_cases hpool : poolOf i.atomics = []
  · rw [if_pos hpool, best_eq_none.mpr hpool]
    by_cases hs : a.KeepsBackup i
    · rw [if_pos (hactive.mpr hs)]
      simp [hpool, hs]
    · rw [if_neg fun h => hs (hactive.mp h)]
      simp [hs]
  · rw [if_neg hpool]
    simp [hpool]

theorem shares_decided : (a.decided i).shares =
    a.onPool i ++ if (a.decided i).backupActive then a.onBackup i else [] := by
  have hshares : (a.decided i).shares =
      normalShares a.profiles (a.primaryOf (a.decide i).h.state i) (backupOf i)
          (a.normalCapacity i) i.demand ++
        spendingShares a.profiles (backupOf i) (a.decided i).backupActive i.demand := rfl
  have hspending : spendingShares a.profiles (backupOf i) (a.decided i).backupActive i.demand =
      if (a.decided i).backupActive then a.onBackup i else [] := by
    unfold spendingShares onBackup
    cases backupOf i <;> simp
  rw [hshares, hspending, onPool, primaryOf_eq]
  congr 1
  by_cases hpool : poolOf i.atomics = []
  · rw [if_pos hpool, best_eq_none.mpr hpool]
    split
    · cases hb : backupOf i <;> simp [normalShares]
    · rfl
  · rw [if_neg hpool]
    obtain ⟨p, hp⟩ : ∃ p, best a.t (poolOf i.atomics) i.now = some p :=
      Option.ne_none_iff_exists'.mp (mt best_eq_none.mp hpool)
    have hne : some p ≠ backupOf i := fun hb => by
      have hmode := (mem_backupsOf.mp (mem_of_backupOf hb.symm)).2.1
      rw [(mem_poolOf (mem_of_best hp)).2] at hmode
      cases hmode
    simp only [hp, normalShares, if_pos hne, inOrder]

theorem mem_quiesced_decided {x : String} : x ∈ (a.decided i).quiesced ↔ a.Idle i x := by
  have hquiesced : (a.decided i).quiesced = quiescedIds (poolOf i.atomics)
      (a.primaryOf (a.decide i).h.state i) (backupOf i) (a.decided i).backupActive := rfl
  have hprimary : (a.primaryOf (a.decide i).h.state i).map (·.id) ≠ some x ↔ ¬a.Leads i x :=
    not_congr primaryId_eq_some
  rw [hquiesced, mem_quiescedIds, hprimary, ← Bool.not_eq_true, backupActive_decided_iff, Idle]

-- ---------------------------------------------------------------------------
-- From one call to the next
-- ---------------------------------------------------------------------------

def Journalled (a : Allocator K) (i : DecideInput K) : Prop :=
  ((∃ l, a.last = some l ∧ l.Same (a.decided i)) → (a.recordOf i).toList.length = 0) ∧
    ((¬∃ l, a.last = some l ∧ l.Same (a.decided i)) → (a.recordOf i).toList.length = 1)

/-- Two calls, the first by `a` and the second by the allocator it leaves behind, after
which the same connection carries, and the classes get the same on the same. -/
structure Steady (a : Allocator K) (j i : DecideInput K) : Prop where
  leads : ∀ x, a.Leads j x ↔ (a.decide j).Leads i x
  spends : a.KeepsBackup j ↔ (a.decide j).KeepsBackup i
  resting : ¬a.KeepsBackup j → (a.onPool j).Perm ((a.decide j).onPool i)
  spending : a.KeepsBackup j →
    (a.onPool j ++ a.onBackup j).Perm ((a.decide j).onPool i ++ (a.decide j).onBackup i)

def StayIdle (a : Allocator K) (j i : DecideInput K) : Prop :=
  ∀ x, a.Idle j x ↔ (a.decide j).Idle i x

theorem shares_decided_of (h : a.KeepsBackup i) :
    (a.decided i).shares = a.onPool i ++ a.onBackup i := by
  rw [shares_decided, if_pos (backupActive_decided_iff.mpr h)]

theorem shares_decided_of_not (h : ¬a.KeepsBackup i) : (a.decided i).shares = a.onPool i := by
  rw [shares_decided, if_neg fun hs => h (backupActive_decided_iff.mp hs), List.append_nil]

theorem sameTraffic_iff :
    (a.decided j).SameTraffic ((a.decide j).decided i) ↔ a.Steady j i := by
  have hbackups : (a.decided j).backupActive = ((a.decide j).decided i).backupActive ↔
      (a.KeepsBackup j ↔ (a.decide j).KeepsBackup i) := by
    rw [Bool.eq_iff_iff, backupActive_decided_iff, backupActive_decided_iff]
  have hcarries : (a.decided j).primaryId = ((a.decide j).decided i).primaryId ↔
      ∀ x, a.Leads j x ↔ (a.decide j).Leads i x := by
    simp only [← primaryId_eq_some]
    exact ⟨fun h x => by rw [h], fun h => Option.ext h⟩
  constructor
  · rintro ⟨hp, hb, hshares⟩
    have hb := hbackups.mp hb
    refine ⟨hcarries.mp hp, hb, fun hs => ?_, fun hs => ?_⟩
    · rwa [shares_decided_of_not hs, shares_decided_of_not (mt hb.mpr hs)] at hshares
    · rwa [shares_decided_of hs, shares_decided_of (hb.mp hs)] at hshares
  · rintro ⟨hp, hb, hresting, hspending⟩
    refine ⟨hcarries.mpr hp, hbackups.mpr hb, ?_⟩
    by_cases hs : a.KeepsBackup j
    · rw [shares_decided_of hs, shares_decided_of (hb.mp hs)]
      exact hspending hs
    · rw [shares_decided_of_not hs, shares_decided_of_not (mt hb.mpr hs)]
      exact hresting hs

theorem quiesced_eq_iff :
    (a.decided j).quiesced = ((a.decide j).decided i).quiesced ↔ a.StayIdle j i := by
  have hlisted (b : Allocator K) (k : DecideInput K) : Listed (b.decided k).quiesced :=
    listed_quiescedIds _ _ _ _
  rw [(hlisted _ _).eq_iff (hlisted _ _)]
  exact forall_congr' fun x => by rw [mem_quiesced_decided, mem_quiesced_decided]

theorem repeats_iff : a.Repeats i ↔ ∃ l, a.last = some l ∧ l.SameTraffic (a.decided i) := by
  rw [Repeats, Option.map_eq_some_iff]
  exact exists_congr fun l => and_congr_right fun _ => Allocation.key_eq_iff

/-- A call writes one record, or none where the traffic stays as it was. -/
theorem journalled_iff_repeats :
    a.Journalled i ↔ ((∃ l, a.last = some l ∧ l.Same (a.decided i)) ↔ a.Repeats i) := by
  by_cases h : a.Repeats i
  · simp [Journalled, recordOf_eq_none h, h]
  · simp [Journalled, recordOf_eq h, h]

theorem journalled_first (h : a.last = none) : a.Journalled i := by
  rw [journalled_iff_repeats, repeats_iff]
  simp [h]

theorem journalled_next : (a.decide j).Journalled i ↔ (a.Steady j i → a.StayIdle j i) := by
  have hlast : (a.decide j).last = some (a.decided j) := rfl
  rw [journalled_iff_repeats, repeats_iff, hlast]
  simp only [Option.some.injEq, exists_eq_left', Allocation.Same, sameTraffic_iff,
    quiesced_eq_iff]
  exact ⟨fun h hs => (h.mpr hs).2, fun h => ⟨And.left, fun hs => ⟨hs, h hs⟩⟩⟩

end

def hotspotOnly : DecideInput ℚ :=
  { campsite 0 0 with atomics := [unmeasured "wlan1" .wifi .normal] }

def phonePlugged : DecideInput ℚ :=
  { campsite 10 0 with
    atomics := [unmeasured "wlan1" .wifi .normal, unmeasured "phone" .usbTether .backup] }

end Allocator

end Wifucked
