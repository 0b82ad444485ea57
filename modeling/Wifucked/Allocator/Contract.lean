import Wifucked.Allocator.Filling
import Wifucked.Enforce.Render

/-!
# What an allocation promises the enforcer

Nothing is both shared and withheld, a class has one share on a connection at
most, and every name is one of the connections the decision was shown, so that
rendering the allocation cannot fail.
-/

namespace Wifucked.Allocator

theorem profileNames_primaryShares (x : String) (demand : Demand) (headroom : Int)
    (ps : List ServiceProfile) :
    (primaryShares x demand headroom ps).map (·.profileName) = ps.map (·.name) := by
  induction ps generalizing headroom with
  | nil => rfl
  | cons p ps ih => rw [primaryShares_cons, List.map_cons, List.map_cons, ih]

theorem profileNames_backupShares (x : String) (demand : Demand) (ps : List ServiceProfile) :
    (backupShares x demand ps).map (·.profileName) = ps.map (·.name) := by
  rw [backupShares, List.map_map]
  rfl

abbrev pairOf (s : Share) : String × String := (s.atomicId, s.profileName)

theorem nodup_pairs {shares : List Share} (h : (shares.map (·.profileName)).Nodup) :
    (shares.map pairOf).Nodup := by
  refine List.Nodup.of_map Prod.snd ?_
  rwa [List.map_map]

section

variable {K : Type} [Field K] [LinearOrder K] [HalfPow K]

structure Contract (i : DecideInput K) (allocation : Allocation) : Prop where
  disjoint : ∀ s ∈ allocation.shares, s.atomicId ∉ allocation.quiesced
  once : (allocation.shares.map pairOf).Nodup
  carriers : ∀ s ∈ allocation.shares, allocation.primaryId = some s.atomicId ∨
    allocation.backupActive = true ∧ (backupOf i).map (·.id) = some s.atomicId
  primary : ∀ x, allocation.primaryId = some x → x ∈ i.atomics.map (·.id)
  quiesced : ∀ x ∈ allocation.quiesced, x ∈ i.atomics.map (·.id)

variable {a : Allocator K} {state : BackupState} {i : DecideInput K}

theorem nodup_pairs_allocate (hids : (i.atomics.map (·.id)).Nodup)
    (hnames : (a.profiles.map (·.name)).Nodup) :
    ((a.allocate state i).shares.map pairOf).Nodup := by
  have hordered : ((inOrder a.profiles).map (·.name)).Nodup :=
    ((List.perm_insertionSort _ _).map _).nodup_iff.mpr hnames
  simp only [allocate, build, List.map_append]
  refine List.nodup_append.mpr ⟨?_, ?_, ?_⟩
  · unfold normalShares
    split
    · exact .nil
    · split
      · exact nodup_pairs ((profileNames_primaryShares _ _ _ _).symm ▸ hordered)
      · exact .nil
  · unfold spendingShares
    split
    · exact .nil
    · split
      · exact nodup_pairs ((profileNames_backupShares _ _ _).symm ▸ hnames)
      · exact .nil
  · intro x hx y hy he
    obtain ⟨s, hs, rfl⟩ := List.mem_map.mp hx
    obtain ⟨r, hr, rfl⟩ := List.mem_map.mp hy
    obtain ⟨p, hp, hne, hsid⟩ := mem_normalShares hs
    obtain ⟨b, hb, -, hr⟩ := mem_spendingShares hr
    have hpb : p.id = b.id :=
      hsid.symm.trans ((Prod.mk.inj he).1.trans (atomicId_of_mem_backupShares hr))
    have : p = b := List.inj_on_of_nodup_map hids (mem_atomics_of_primaryOf hp)
      (mem_atomics_of_backupOf hb) hpb
    exact hne (this ▸ hb.symm)

theorem contract_allocate (hids : (i.atomics.map (·.id)).Nodup)
    (hnames : (a.profiles.map (·.name)).Nodup) : Contract i (a.allocate state i) where
  disjoint _ hs := not_quiesced_of_mem_shares hids hs
  once := nodup_pairs_allocate hids hnames
  carriers s hs := by
    rcases mem_shares_allocate hs with ⟨p, -, hp, hid⟩ | ⟨b, -, hb, hactive, hs⟩
    · exact .inl (by rw [allocate, build, hp, hid]; rfl)
    · refine .inr ⟨backupActiveIn_eq_true.mpr ⟨hactive, b, hb⟩, ?_⟩
      rw [hb, Option.map_some, atomicId_of_mem_backupShares hs]
  primary x hx := by
    obtain ⟨p, hp, rfl⟩ := Option.map_eq_some_iff.mp hx
    exact List.mem_map_of_mem (mem_atomics_of_primaryOf hp)
  quiesced x hx := by
    rcases mem_quiescedIds.mp hx with ⟨-, b, hb, rfl⟩ | ⟨p, hp, rfl, -⟩
    · exact List.mem_map_of_mem (mem_atomics_of_backupOf hb)
    · exact List.mem_map_of_mem (mem_poolOf hp).1

/-- Whatever registry it is rendered with, what was decided renders. -/
theorem decided_renders (a : Allocator K) (i : DecideInput K)
    (hids : (i.atomics.map (·.id)).Nodup) (hnames : (a.profiles.map (·.name)).Nodup) :
    Contract i (a.decided i) ∧
      ∀ (byId : Registry K) (profiles : List ServiceProfile) (tunnelIfname : String),
        ∃ desired, render (a.decided i) byId profiles tunnelIfname = .ok desired :=
  ⟨contract_allocate hids hnames, fun _ _ _ =>
    render_ok (contract_allocate hids hnames).disjoint⟩

end

theorem decided_renders_campsite :
    let a := init (Thresholds.defaults ℚ) defaultProfiles 0
    Contract (campsite 0 2000000) (a.decided (campsite 0 2000000)) ∧
      ∀ (byId : Registry ℚ) (profiles : List ServiceProfile) (tunnelIfname : String),
        ∃ desired, render (a.decided (campsite 0 2000000)) byId profiles tunnelIfname =
          .ok desired := by
  intro a
  exact decided_renders a (campsite 0 2000000) (by decide) (by decide)

end Wifucked.Allocator
