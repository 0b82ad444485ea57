import Wifucked.Allocator.Hysteresis

/-!
# Who the shares of an allocation are for

Every share is on the primary of the NORMAL pool or on the active backup, and
a quiesced connection has none.
-/

namespace Wifucked.Allocator

section

variable {K : Type}

theorem mem_backupsOf {atomics : List (Atomic K)} :
    b ∈ backupsOf atomics ↔ b ∈ atomics ∧ b.mode = .backup ∧ b.present = true := by
  simp [backupsOf]

theorem mem_poolOf {atomics : List (Atomic K)} (h : p ∈ poolOf atomics) :
    p ∈ atomics ∧ p.mode = .normal := by
  obtain ⟨hp, hpool⟩ := List.mem_filter.mp h
  exact ⟨hp, Atomic.mode_of_inNormalPool hpool⟩

theorem mem_of_chosenBackup {backups : List (Atomic K)} (h : chosenBackup backups = some b) :
    b ∈ backups := List.mem_of_mem_filter (List.argmax_mem h)

theorem mem_of_backupOf {i : DecideInput K} (h : backupOf i = some b) : b ∈ backupsOf i.atomics :=
  mem_of_chosenBackup h

theorem mem_atomics_of_backupOf {i : DecideInput K} (h : backupOf i = some b) : b ∈ i.atomics :=
  (mem_backupsOf.mp (mem_of_backupOf h)).1

theorem id_ne_of_mem_pool {i : DecideInput K} (hids : (i.atomics.map (·.id)).Nodup)
    (hp : p ∈ poolOf i.atomics) (hb : b ∈ i.atomics) (hm : b.mode = .backup) : p.id ≠ b.id := by
  intro he
  obtain ⟨hpa, hpm⟩ := mem_poolOf hp
  rw [List.inj_on_of_nodup_map hids hpa hb he, hm] at hpm
  cases hpm

theorem id_ne_of_backupOf {i : DecideInput K} (hids : (i.atomics.map (·.id)).Nodup)
    (hp : p ∈ poolOf i.atomics) (hb : backupOf i = some b) : p.id ≠ b.id := by
  obtain ⟨hba, hbm, -⟩ := mem_backupsOf.mp (mem_of_backupOf hb)
  exact id_ne_of_mem_pool hids hp hba hbm

theorem backupActiveIn_eq_true {state : BackupState} {i : DecideInput K} :
    backupActiveIn state i = true ↔ state = .active ∧ ∃ b, backupOf i = some b := by
  simp [backupActiveIn, Option.isSome_iff_exists]

theorem atomicId_of_mem_primaryShares {x : String} {headroom : Int} {ps : List ServiceProfile}
    (h : s ∈ primaryShares x demand headroom ps) : s.atomicId = x := by
  induction ps generalizing headroom with
  | nil => cases h
  | cons p ps ih =>
    rcases List.mem_cons.mp h with rfl | h
    · rfl
    · exact ih h

theorem mem_spendingShares {profiles : List ServiceProfile} {backup : Option (Atomic K)}
    {active : Bool} (h : s ∈ spendingShares profiles backup active demand) :
    ∃ b, backup = some b ∧ active = true ∧ s ∈ backupShares b.id demand profiles := by
  cases backup with
  | none => cases h
  | some b =>
    simp only [spendingShares] at h
    split at h
    · rename_i hb; exact ⟨b, rfl, hb, h⟩
    · cases h

theorem atomicId_of_mem_backupShares {x : String} {profiles : List ServiceProfile}
    (h : s ∈ backupShares x demand profiles) : s.atomicId = x := by
  obtain ⟨p, -, rfl⟩ := List.mem_map.mp h
  rfl

theorem filter_backupShares (x y : String) (demand : Demand) (profiles : List ServiceProfile) :
    (backupShares x demand profiles).filter (·.atomicId = y) =
      if x = y then backupShares x demand profiles else [] := by
  split
  · rename_i h
    rw [List.filter_eq_self]
    intro s hs
    simp [atomicId_of_mem_backupShares hs, h]
  · rename_i h
    rw [List.filter_eq_nil_iff]
    intro s hs
    simp [atomicId_of_mem_backupShares hs, h]

theorem mem_quiescedIds {pool : List (Atomic K)} {primary backup : Option (Atomic K)}
    {active : Bool} {x : String} :
    x ∈ quiescedIds pool primary backup active ↔
      (active = false ∧ ∃ b, backup = some b ∧ b.id = x) ∨
        ∃ p ∈ pool, p.id = x ∧ primary.map (·.id) ≠ some x := by
  unfold quiescedIds
  rw [(List.perm_insertionSort _ _).mem_iff, List.mem_dedup, List.mem_append]
  refine or_congr ?_ ?_
  · cases active <;> simp
  · simp only [List.mem_map, List.mem_filter, decide_eq_true_eq]
    constructor
    · rintro ⟨p, ⟨hp, hne⟩, rfl⟩; exact ⟨p, hp, rfl, Ne.symm hne⟩
    · rintro ⟨p, hp, rfl, hne⟩; exact ⟨p, ⟨hp, Ne.symm hne⟩, rfl⟩

end

section

variable {K : Type} [LinearOrder K]

theorem mem_normalShares {profiles : List ServiceProfile} {primary backup : Option (Atomic K)}
    {normalCapacity : Int} (h : s ∈ normalShares profiles primary backup normalCapacity demand) :
    ∃ p, primary = some p ∧ some p ≠ backup ∧ s.atomicId = p.id := by
  cases primary with
  | none => cases h
  | some p =>
    simp only [normalShares] at h
    split at h
    · rename_i hne; exact ⟨p, rfl, hne, atomicId_of_mem_primaryShares h⟩
    · cases h

variable [Field K] [HalfPow K]

theorem mem_of_best {t : Thresholds K} {pool : List (Atomic K)} {now : K}
    (h : best t pool now = some p) : p ∈ pool := by
  have hm := List.argmax_mem h
  split at hm
  · exact hm
  · exact List.mem_of_mem_filter hm

theorem best_eq_none {t : Thresholds K} {pool : List (Atomic K)} {now : K} :
    best t pool now = none ↔ pool = [] := by
  simp only [best, List.argmax_eq_none]
  split
  · rfl
  · rename_i h
    refine ⟨fun hn => absurd hn h, ?_⟩
    rintro rfl
    exact absurd rfl h

theorem primaryOf_eq (a : Allocator K) (state : BackupState) (i : DecideInput K) :
    a.primaryOf state i = if poolOf i.atomics = [] then
        if backupActiveIn state i then backupOf i else none
      else best a.t (poolOf i.atomics) i.now := by
  unfold primaryOf
  by_cases h : poolOf i.atomics = []
  · rw [if_pos h, best_eq_none.mpr h, Option.none_or]
  · rw [if_neg h]
    obtain ⟨p, hp⟩ := Option.ne_none_iff_exists'.mp (mt best_eq_none.mp h)
    rw [hp, Option.some_or]

theorem mem_poolOf_of_primaryOf {a : Allocator K} {state : BackupState} {i : DecideInput K}
    (h : a.primaryOf state i = some p) (hne : some p ≠ backupOf i) : p ∈ poolOf i.atomics := by
  rw [primaryOf_eq] at h
  split at h
  · split at h
    · exact absurd h.symm hne
    · cases h
  · exact mem_of_best h

theorem mem_atomics_of_primaryOf {a : Allocator K} {state : BackupState} {i : DecideInput K}
    (h : a.primaryOf state i = some p) : p ∈ i.atomics := by
  by_cases hb : some p = backupOf i
  · exact mem_atomics_of_backupOf hb.symm
  · exact (mem_poolOf (mem_poolOf_of_primaryOf h hb)).1

theorem mem_shares_allocate {a : Allocator K} {state : BackupState} {i : DecideInput K}
    (h : s ∈ (a.allocate state i).shares) :
    (∃ p ∈ poolOf i.atomics, a.primaryOf state i = some p ∧ s.atomicId = p.id) ∨
      ∃ b ∈ backupsOf i.atomics, backupOf i = some b ∧ state = .active ∧
        s ∈ backupShares b.id i.demand a.profiles := by
  rcases List.mem_append.mp h with h | h
  · obtain ⟨p, hp, hne, hid⟩ := mem_normalShares h
    exact .inl ⟨p, mem_poolOf_of_primaryOf hp hne, hp, hid⟩
  · obtain ⟨b, hb, hact, hs⟩ := mem_spendingShares h
    exact .inr ⟨b, mem_of_backupOf hb, hb, (backupActiveIn_eq_true.mp hact).1, hs⟩

def decided (a : Allocator K) (i : DecideInput K) : Allocation :=
  a.allocate (a.decide i).h.state i

variable {a : Allocator K} {state : BackupState} {i : DecideInput K}

theorem filter_shares_backup (hids : (i.atomics.map (·.id)).Nodup) (hb : b ∈ i.atomics)
    (hm : b.mode = .backup) :
    (a.allocate state i).shares.filter (·.atomicId = b.id) =
      if state = .active ∧ backupOf i = some b then backupShares b.id i.demand a.profiles
      else [] := by
  have hnormal : (normalShares a.profiles (a.primaryOf state i) (backupOf i) (a.normalCapacity i)
      i.demand).filter (·.atomicId = b.id) = [] := by
    rw [List.filter_eq_nil_iff]
    intro s hs
    obtain ⟨p, hp, hne, hid⟩ := mem_normalShares hs
    have hpb := id_ne_of_mem_pool hids (mem_poolOf_of_primaryOf hp hne) hb hm
    simp [hid, hpb]
  simp only [allocate, build, List.filter_append, hnormal, List.nil_append]
  cases hc : backupOf i with
  | none => simp [spendingShares]
  | some c =>
    have hca := mem_atomics_of_backupOf hc
    have hact : backupActiveIn state i = true ↔ state = .active := by
      simp [backupActiveIn, hc]
    have hcb : c.id = b.id ↔ c = b :=
      ⟨fun h => List.inj_on_of_nodup_map hids hca hb h, fun h => h ▸ rfl⟩
    by_cases hs : state = .active
    · have hon : backupActiveIn state i = true := hact.mpr hs
      simp only [spendingShares, hon, if_true, filter_backupShares, hcb]
      by_cases he : c = b
      · simp [he, hs]
      · simp [he]
    · have hoff : backupActiveIn state i = false := by
        rw [← Bool.not_eq_true, hact]; exact hs
      simp [spendingShares, hoff, hs]

theorem not_quiesced_of_mem_shares (hids : (i.atomics.map (·.id)).Nodup)
    (h : s ∈ (a.allocate state i).shares) : s.atomicId ∉ (a.allocate state i).quiesced := by
  intro hq
  rcases mem_shares_allocate h with ⟨p, hp, hprim, hid⟩ | ⟨b, hb, hc, hact, hs⟩
  · rcases mem_quiescedIds.mp hq with ⟨-, b, hb, he⟩ | ⟨r, -, he, hne⟩
    · exact id_ne_of_backupOf hids hp hb (hid.symm.trans he.symm)
    · exact hne (by simp [hprim, hid])
  · have hid := atomicId_of_mem_backupShares hs
    rcases mem_quiescedIds.mp hq with ⟨hoff, -⟩ | ⟨r, hr, he, -⟩
    · rw [backupActiveIn_eq_true.mpr ⟨hact, b, hc⟩] at hoff
      cases hoff
    · exact id_ne_of_backupOf hids hr hc (he.trans hid)

end

end Wifucked.Allocator
