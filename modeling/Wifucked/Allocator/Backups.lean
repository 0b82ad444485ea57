import Wifucked.Lib.Maximal
import Wifucked.Allocator.Contract

/-!
# Several backups

One backup is chosen, by capacity, out of those that are not down. Whether it
has an interface is not asked, and only the chosen one is ever withheld.
-/

namespace Wifucked.Allocator

section

variable {K : Type}

def usableBackups (i : DecideInput K) : List (Atomic K) :=
  (backupsOf i.atomics).filter fun b => b.health ≠ .down

theorem backupOf_eq_argmax (i : DecideInput K) :
    backupOf i = (usableBackups i).argmax (·.capacity.downBps) := rfl

/-- A network that was merely scanned has no interface. -/
def Connected (b : Atomic K) : Prop := b.iface ≠ none

theorem haveBackup_iff {i : DecideInput K} : HaveBackup i ↔ ∃ b, b ∈ usableBackups i := by
  simp [HaveBackup, haveBackup, usableBackups]

/-- Every backup without an interface is outdone by one that has one. -/
def ConnectedAhead (i : DecideInput K) : Prop :=
  ∀ b ∈ usableBackups i, ¬Connected b → ∃ c ∈ usableBackups i, Connected c ∧
    Maximal.Ahead (·.capacity.downBps) (usableBackups i) c b

theorem connectedAhead_iff {i : DecideInput K} :
    ConnectedAhead i ↔ ∀ b, backupOf i = some b → Connected b := Maximal.argmax_iff_ahead.symm

/-- With distinct names the choice covers the backups where there is one at
most, and it is not down. -/
theorem chosen_covers_iff {i : DecideInput K} (hids : (i.atomics.map (·.id)).Nodup) :
    (∀ b ∈ backupsOf i.atomics,
      (∃ p ∈ poolOf i.atomics, p.id = b.id) ∨ (backupOf i).map (·.id) = some b.id) ↔
      backupsOf i.atomics = [] ∨ ∃ b, backupsOf i.atomics = [b] ∧ b.health ≠ .down := by
  constructor
  · intro h
    have hchosen : ∀ b ∈ backupsOf i.atomics, backupOf i = some b := by
      intro b hb
      obtain ⟨hba, hbm, -⟩ := mem_backupsOf.mp hb
      have hnot : ¬∃ p ∈ poolOf i.atomics, p.id = b.id := fun ⟨p, hp, he⟩ =>
        id_ne_of_mem_pool hids hp hba hbm he
      obtain ⟨c, hc, hid⟩ := Option.map_eq_some_iff.mp ((h b hb).resolve_left hnot)
      rwa [List.inj_on_of_nodup_map hids (mem_atomics_of_backupOf hc) hba hid] at hc
    have hnodup : (backupsOf i.atomics).Nodup := (hids.of_map _).sublist List.filter_sublist
    cases hl : backupsOf i.atomics with
    | nil => exact .inl rfl
    | cons b rest =>
      rw [hl] at hchosen hnodup
      have hb := hchosen b List.mem_cons_self
      have hrest : rest = [] := by
        refine List.eq_nil_iff_forall_not_mem.mpr fun c hc => ?_
        have hcb : c = b := Option.some.inj ((hchosen c (List.mem_cons_of_mem _ hc)).symm.trans hb)
        exact (List.nodup_cons.mp hnodup).1 (hcb ▸ hc)
      rw [hrest]
      exact .inr ⟨b, rfl, by simpa using (List.mem_filter.mp (List.argmax_mem hb)).2⟩
  · rintro (hnone | ⟨b, hone, hup⟩) c hc
    · rw [hnone] at hc
      cases hc
    · have hb : backupOf i = some b := by
        rw [backupOf_eq_argmax, usableBackups, hone, List.filter_cons_of_pos (by simpa using hup)]
        rfl
      rw [hone, List.mem_singleton] at hc
      exact .inr (by rw [hb, hc, Option.map_some])

end

theorem exists_routeForShare {K : Type} {byId : Registry K} {b : Atomic K}
    {profiles : List ServiceProfile} (tunnelIfname : String)
    (hb : byId.get? s.atomicId = some b) (hconn : Connected b)
    (hname : s.profileName ∈ profiles.map (·.name)) (hpos : s.ceilingBps ≠ 0) :
    ∃ r, routeForShare byId profiles tunnelIfname s = some r ∧
      r.table = tableForAtomic s.atomicId := by
  obtain ⟨ifname, hiface⟩ := Option.ne_none_iff_exists'.mp hconn
  obtain ⟨q, hq, hqname⟩ := List.mem_map.mp hname
  obtain ⟨p, hp⟩ := Option.isSome_iff_exists.mp (List.find?_isSome.mpr
    ⟨q, hq, by simpa using hqname⟩ : (profiles.find? fun p => p.name = s.profileName).isSome)
  refine ⟨⟨p.vlan, tableForAtomic s.atomicId, tunnelIfname⟩, ?_, rfl⟩
  simp only [routeForShare, if_neg hpos, hb, Option.bind_some, hiface, hp, Option.map_some]

theorem profileName_of_mem_primaryShares
    (h : s ∈ primaryShares x demand headroom ps) : s.profileName ∈ ps.map (·.name) := by
  rw [← profileNames_primaryShares x demand headroom]
  exact List.mem_map_of_mem h

section

variable {K : Type} [Field K] [LinearOrder K] [HalfPow K]

/-- With a connected backup at hand, traffic that is put on a backup gets its
routes, and no scanned network is chosen or counted in its place. -/
structure Carries (a : Allocator K) (i : DecideInput K) : Prop where
  carries : (a.decided i).backupActive = true → (∃ c ∈ usableBackups i, Connected c) →
    ∃ b ifname, backupOf i = some b ∧ b.iface = some ifname ∧
      ∀ (byId : Registry K) (tunnelIfname : String), byId.get? b.id = some b →
        ∀ s ∈ (a.decided i).shares, s.atomicId = b.id → s.ceilingBps ≠ 0 →
          ∃ r, routeForShare byId a.profiles tunnelIfname s = some r ∧
            r.table = tableForAtomic b.id
  preferred : ∀ b, backupOf i = some b → ¬Connected b → ¬∃ c ∈ usableBackups i, Connected c
  available : HaveBackup i → ∃ c ∈ usableBackups i, Connected c

variable {a : Allocator K} {state : BackupState} {i : DecideInput K}

theorem profileName_of_mem_shares (h : s ∈ (a.allocate state i).shares) :
    s.profileName ∈ a.profiles.map (·.name) := by
  rcases List.mem_append.mp h with h | h
  · unfold normalShares at h
    split at h
    · cases h
    · split at h
      · exact ((List.perm_insertionSort _ _).map _).mem_iff.mp (profileName_of_mem_primaryShares h)
      · cases h
  · obtain ⟨b, -, -, h⟩ := mem_spendingShares h
    rw [← profileNames_backupShares b.id i.demand]
    exact List.mem_map_of_mem h

theorem carries_iff (a : Allocator K) (i : DecideInput K) : a.Carries i ↔ ConnectedAhead i := by
  rw [connectedAhead_iff]
  constructor
  · rintro ⟨-, hpref, havail⟩ b hb
    by_contra hn
    exact hpref b hb hn (havail (haveBackup_iff.mpr ⟨b, List.argmax_mem hb⟩))
  · intro h
    refine ⟨fun hon _ => ?_, ?_, ?_⟩
    · obtain ⟨-, b, hb⟩ := backupActiveIn_eq_true.mp hon
      obtain ⟨ifname, hiface⟩ := Option.ne_none_iff_exists'.mp (h b hb)
      refine ⟨b, ifname, hb, hiface, fun byId tunnelIfname hget s hs hid hpos => ?_⟩
      rw [← hid] at hget ⊢
      exact exists_routeForShare tunnelIfname hget (h b hb) (profileName_of_mem_shares hs) hpos
    · exact fun b hb hn => absurd (h b hb) hn
    · intro hhave
      obtain ⟨b, hb⟩ := Option.isSome_iff_exists.mp (isSome_chosenBackup.mpr hhave)
      exact ⟨b, List.argmax_mem hb, h b hb⟩

-- ---------------------------------------------------------------------------
-- What is withheld
-- ---------------------------------------------------------------------------

/-- A present backup and a connection of the pool is the primary, the active
backup or quiesced. -/
def Quiesces (a : Allocator K) (i : DecideInput K) : Prop :=
  ∀ x ∈ i.atomics, x ∈ backupsOf i.atomics ∨ x ∈ poolOf i.atomics →
    (a.decided i).primaryId = some x.id ∨
      (a.decided i).backupActive = true ∧ (backupOf i).map (·.id) = some x.id ∨
      x.id ∈ (a.decided i).quiesced

theorem quiesces_pool (hx : x ∈ poolOf i.atomics) :
    (a.decided i).primaryId = some x.id ∨ x.id ∈ (a.decided i).quiesced := by
  by_cases hp : (a.primaryOf (a.decide i).h.state i).map (·.id) = some x.id
  · exact .inl hp
  · exact .inr (mem_quiescedIds.mpr (.inr ⟨x, hx, rfl, hp⟩))

theorem quiesces_backupOf (hb : backupOf i = some b) :
    (a.decided i).backupActive = true ∨ b.id ∈ (a.decided i).quiesced := by
  cases hon : (a.decided i).backupActive with
  | true => exact .inl rfl
  | false => exact .inr (mem_quiescedIds.mpr (.inl ⟨hon, b, hb, rfl⟩))

/-- Quiescing covers a backup that is chosen, or named like one of the pool. -/
theorem quiesces_iff_chosen (a : Allocator K) (i : DecideInput K) :
    a.Quiesces i ↔ ∀ b ∈ backupsOf i.atomics,
      (∃ p ∈ poolOf i.atomics, p.id = b.id) ∨ (backupOf i).map (·.id) = some b.id := by
  constructor
  · intro h b hb
    rcases h b (mem_backupsOf.mp hb).1 (.inl hb) with hprimary | ⟨-, hchosen⟩ | hq
    · obtain ⟨p, hp, hid⟩ := Option.map_eq_some_iff.mp hprimary
      by_cases hc : some p = backupOf i
      · exact .inr (by rw [← hc, Option.map_some, hid])
      · exact .inl ⟨p, mem_poolOf_of_primaryOf hp hc, hid⟩
    · exact .inr hchosen
    · rcases mem_quiescedIds.mp hq with ⟨-, c, hc, hid⟩ | ⟨p, hp, hid, -⟩
      · exact .inr (by rw [hc, Option.map_some, hid])
      · exact .inl ⟨p, hp, hid⟩
  · rintro h x - (hx | hx)
    · rcases h x hx with ⟨p, hp, hid⟩ | hchosen
      · rw [← hid]
        exact (quiesces_pool hp).imp_right .inr
      · obtain ⟨c, hc, hid⟩ := Option.map_eq_some_iff.mp hchosen
        rcases quiesces_backupOf (a := a) hc with hon | hq
        · exact .inr (.inl ⟨hon, hchosen⟩)
        · exact .inr (.inr (hid ▸ hq))
    · exact (quiesces_pool hx).imp_right .inr

/-- Quiescing is complete exactly where a decision sees one backup at most, and
one that is not down. -/
theorem quiesces_iff (a : Allocator K) (i : DecideInput K) :
    (a.Quiesces i ↔ ∀ b ∈ backupsOf i.atomics,
      (∃ p ∈ poolOf i.atomics, p.id = b.id) ∨ (backupOf i).map (·.id) = some b.id) ∧
    ((i.atomics.map (·.id)).Nodup → (a.Quiesces i ↔
      backupsOf i.atomics = [] ∨ ∃ b, backupsOf i.atomics = [b] ∧ b.health ≠ .down)) :=
  ⟨a.quiesces_iff_chosen i, fun hids => (a.quiesces_iff_chosen i).trans (chosen_covers_iff hids)⟩

end

-- ---------------------------------------------------------------------------
-- Two backups
-- ---------------------------------------------------------------------------

def restingPhone : Atomic ℚ := unmeasured "phone" .usbTether .backup

def scannedHotel : Atomic ℚ :=
  { unmeasured "hotel" .wifi .backup with health := .unknown, ifname := none }

def hotelAndPhone (now : ℚ) : DecideInput ℚ :=
  { campsite now 2000000 with atomics := [scannedHotel, restingPhone] }

/-- Traffic is put on a network that is not connected, with a phone at hand. -/
theorem not_carries_hotel :
    let a := (init (Thresholds.defaults ℚ) defaultProfiles 0).after [hotelAndPhone 0]
    (a.decided (hotelAndPhone 120)).backupActive = true ∧
      backupOf (hotelAndPhone 120) = some scannedHotel ∧ ¬a.Carries (hotelAndPhone 120) := by
  intro a
  have hchosen : backupOf (hotelAndPhone 120) = some scannedHotel := by decide +kernel
  refine ⟨by decide +kernel, hchosen, fun h => ?_⟩
  refine h.preferred scannedHotel hchosen (fun hn => hn rfl) ⟨restingPhone, by decide +kernel, ?_⟩
  show restingPhone.iface ≠ none
  decide

def phoneAndSpare : DecideInput ℚ :=
  { campsite 0 0 with atomics := [restingPhone, unmeasured "spare" .usbTether .backup] }

theorem quiesces_campsite :
    let a := init (Thresholds.defaults ℚ) defaultProfiles 0
    a.Quiesces (campsite 0 0) ↔ backupsOf (campsite 0 0).atomics = [] ∨
      ∃ b, backupsOf (campsite 0 0).atomics = [b] ∧ b.health ≠ .down := by
  intro a
  exact (quiesces_iff a (campsite 0 0)).2 (by decide)

/-- The second of two resting phones is not withheld. -/
theorem not_quiesces_spare :
    let a := init (Thresholds.defaults ℚ) defaultProfiles 0
    (a.decided phoneAndSpare).quiesced = ["phone"] ∧ ¬a.Quiesces phoneAndSpare := by
  intro a
  have hquiesced : (a.decided phoneAndSpare).quiesced = ["phone"] := by decide +kernel
  have hprimary : (a.decided phoneAndSpare).primaryId = none := by decide +kernel
  have hresting : (a.decided phoneAndSpare).backupActive = false := by decide +kernel
  refine ⟨hquiesced, fun h => ?_⟩
  rcases h (unmeasured "spare" .usbTether .backup) (by decide) (.inl (by decide)) with
    hp | ⟨hon, -⟩ | hq
  · rw [hprimary] at hp
    cases hp
  · rw [hresting] at hon
    cases hon
  · rw [hquiesced] at hq
    revert hq
    decide

end Wifucked.Allocator
