import Wifucked.Discovery
import Wifucked.Enforce.Fixpoint

/-!
# The system's own routing tables

The tables of the connections are 100 to 999, and the three that the system
routes by lie among them: a connection is kept away from these by the remainder
of its digest and by nothing else.
-/

namespace Wifucked

def systemTables : List Int := [253, 254, 255]

/-- The remainders of a digest that lead to a table of the system. -/
def systemRemainders : List ℕ := [153, 154, 155]

theorem tableForAtomic_mem_systemTables (atomicId : String) :
    tableForAtomic atomicId ∈ systemTables ↔
      Sha256.ofString atomicId % 900 ∈ systemRemainders := by
  simp only [tableForAtomic, tableBase, tableSpan, systemTables, systemRemainders, List.mem_cons,
    List.not_mem_nil, or_false]
  omega

-- ---------------------------------------------------------------------------
-- What a command leaves
-- ---------------------------------------------------------------------------

namespace Kernel

def systemRoutes (k : Kernel) : List Route := k.routes.filter (·.table ∈ systemTables)

theorem systemRoutes_exec {k : Kernel} {c : Command}
    (h : ∀ ifname table, c = .replaceDefault ifname table → table ∉ systemTables) :
    (k.exec c).systemRoutes = k.systemRoutes := by
  cases c with
  | replaceDefault ifname table =>
    have htable := h ifname table rfl
    simp only [exec, systemRoutes, List.filter_cons, htable, decide_false, Bool.false_eq_true,
      if_false, List.filter_filter]
    refine List.filter_congr fun r _ => ?_
    by_cases hr : r.table ∈ systemTables
    · have hne : r.table ≠ table := fun heq => htable (heq ▸ hr)
      simp [hr, hne]
    · simp [hr]
  | addRule fwmark table priority => simp only [exec]; split <;> rfl
  | addIfb name => simp only [exec]; split <;> rfl
  | addIngress dev => simp only [exec]; split <;> rfl
  | _ => rfl

theorem systemRoutes_run {k : Kernel}
    (h : ∀ ifname table, .replaceDefault ifname table ∈ cmds → table ∉ systemTables) :
    (k.run cmds).systemRoutes = k.systemRoutes := by
  refine Runs.exec_keeps (P := fun k' : Kernel => k'.systemRoutes = k.systemRoutes) ?_ rfl
  intro k' c hc hk'
  refine (systemRoutes_exec fun ifname table heq => ?_).trans hk'
  exact h ifname table (heq ▸ hc)

end Kernel

-- ---------------------------------------------------------------------------
-- What is rendered
-- ---------------------------------------------------------------------------

/-- The tables of the system are let be, whoever enforces this in whatever
kernel. -/
structure DesiredState.Apart (desired : DesiredState) : Prop where
  routes : ∀ r ∈ desired.routes, r.table ∉ systemTables
  commands : ∀ (e : LinuxEnforcer) (t : Tools) (k : Kernel) (cmds : List Command),
    e.reconcile t k desired = .ok cmds →
      ∀ ifname table, .replaceDefault ifname table ∈ cmds → table ∉ systemTables
  kept : ∀ (e : LinuxEnforcer) (t : Tools) (k : Kernel) (cmds : List Command),
    e.reconcile t k desired = .ok cmds → (k.run cmds).systemRoutes = k.systemRoutes

theorem LinuxEnforcer.mem_apply_of_reconcile {e : LinuxEnforcer} {t : Tools} {k : Kernel}
    (h : e.reconcile t k desired = .ok cmds) (hc : c ∈ cmds) : c ∈ e.apply desired := by
  unfold reconcile at h
  cases hread : readActual t k with
  | error err => simp [hread, Except.map] at h
  | ok current =>
    simp only [hread, Except.map, Except.ok.injEq] at h
    split at h
    · subst h
      cases hc
    · exact h ▸ hc

theorem DesiredState.apart_of_routes {desired : DesiredState}
    (h : ∀ r ∈ desired.routes, r.table ∉ systemTables) : desired.Apart := by
  have hcommands : ∀ (e : LinuxEnforcer) (t : Tools) (k : Kernel) (cmds : List Command),
      e.reconcile t k desired = .ok cmds →
        ∀ ifname table, .replaceDefault ifname table ∈ cmds → table ∉ systemTables := by
    intro e t k cmds hcmds ifname table hmem
    obtain ⟨r, hr, -, rfl⟩ := replaceDefault_mem_apply.mp (e.mem_apply_of_reconcile hcmds hmem)
    exact h r hr
  exact ⟨h, hcommands, fun e t k cmds hcmds => Kernel.systemRoutes_run (hcommands e t k cmds hcmds)⟩

section

variable {K : Type}

structure Steered (byId : Registry K) (profiles : List ServiceProfile) (share : Share) : Prop where
  ceiling : share.ceilingBps ≠ 0
  iface : ((byId.get? share.atomicId).bind (·.iface)).isSome
  profile : ∃ p ∈ profiles, p.name = share.profileName

theorem steered_iff {byId : Registry K} {profiles : List ServiceProfile} {tunnelIfname : String}
    {share : Share} : Steered byId profiles share ↔
      (routeForShare byId profiles tunnelIfname share).isSome := by
  unfold routeForShare
  constructor
  · rintro ⟨hceiling, hiface, p, hp, hname⟩
    obtain ⟨ifname, hif⟩ := Option.isSome_iff_exists.mp hiface
    simp only [hceiling, if_false, hif, Option.isSome_map, List.find?_isSome]
    exact ⟨p, hp, by simpa using hname⟩
  · intro h
    split at h
    · cases h
    · rename_i hceiling
      split at h
      · cases h
      · rename_i ifname hif
        simp only [Option.isSome_map, List.find?_isSome, decide_eq_true_eq] at h
        exact ⟨hceiling, by simp [hif], h⟩

theorem table_of_routeForShare {byId : Registry K} {profiles : List ServiceProfile}
    {tunnelIfname : String} {share : Share}
    (h : routeForShare byId profiles tunnelIfname share = some r) :
    r.table = tableForAtomic share.atomicId := by
  unfold routeForShare at h
  split at h
  · cases h
  · split at h
    · cases h
    · obtain ⟨p, -, rfl⟩ := Option.map_eq_some_iff.mp h
      rfl

variable [Zero K] [LT K] [DecidableLT K]

/-- What is rendered lets the tables of the system be exactly if no connection
that is steered to has a digest with one of three remainders. -/
theorem apart_iff {allocation : Allocation} {byId : Registry K} {profiles : List ServiceProfile}
    {tunnelIfname : String} {desired : DesiredState}
    (h : render allocation byId profiles tunnelIfname = .ok desired) :
    desired.Apart ↔ ∀ share ∈ allocation.shares, Steered byId profiles share →
      Sha256.ofString share.atomicId % 900 ∉ systemRemainders := by
  obtain ⟨-, -, hroutes, -⟩ := render_eq_ok h
  constructor
  · intro hapart share hshare hsteered
    obtain ⟨r, hr⟩ := Option.isSome_iff_exists.mp (steered_iff.mp hsteered)
    rw [← tableForAtomic_mem_systemTables, ← table_of_routeForShare hr]
    exact hapart.routes r ((hroutes r).mpr ⟨share, hshare, hr⟩)
  · intro hshares
    refine DesiredState.apart_of_routes fun r hr => ?_
    obtain ⟨share, hshare, hr⟩ := (hroutes r).mp hr
    rw [table_of_routeForShare hr, tableForAtomic_mem_systemTables]
    exact hshares share hshare (steered_iff.mpr (Option.isSome_iff_exists.mpr ⟨r, hr⟩))

end

theorem apart_wiredState : wiredState.Apart :=
  (apart_iff render_wiredState).mpr fun share hshare _ => by
    obtain rfl := List.mem_singleton.mp hshare
    decide +kernel

def mainAdapter : Registry ℚ :=
  .observe .empty 0 (discoverUsb
    [⟨"0bda", "8153", some "000551", "1-1", some "eth1", false, "USB 10/100/1000 LAN"⟩]
    fun _ => true)

/-- Its traffic is steered by replacing the default route of the main table. -/
theorem mainAdapter_not_apart :
    ∃ desired,
      render ⟨some "usbeth:643e991029", false,
          [⟨"usbeth:643e991029", "Stable_besteffort", 256000⟩], []⟩
        mainAdapter (profilesForLanMode "single") "wg0" = .ok desired ∧ ¬desired.Apart := by
  refine ⟨⟨[], [⟨20, 254, "wg0"⟩], [(20, 20)], []⟩, by decide +kernel, fun h => ?_⟩
  exact h.routes _ List.mem_cons_self (by simp [systemTables])

end Wifucked
