import Wifucked.Daemon
import Wifucked.Enforce.Iproute
import Wifucked.Enforce.Readback

/-!
# Reconciling once is enough

What one application of a desired state leaves in the kernel, whatever was in
it before, and that a reading of it finds nothing left to do. Only a leftover
rule whose mark cannot be read keeps the application from happening.
-/

namespace Wifucked

namespace Kernel

theorem cakesOn_run (k : Kernel) (h : .replaceCake dev bps diffserv ∈ cmds)
    (hagree : ∀ bps' diffserv', .replaceCake dev bps' diffserv' ∈ cmds →
      bps' = bps ∧ diffserv' = diffserv) :
    (k.run cmds).cakesOn dev = [cake dev bps diffserv] := by
  refine Runs.obs_exec_eq (fun k : Kernel => k.cakesOn dev) (writesCake dev)
    (fun k c => k.cakesOn_exec c dev) h (if_pos rfl) ?_
  intro c hc b hb
  cases c with
  | replaceCake dev' bps' diffserv' =>
    simp only [writesCake] at hb
    split at hb
    · rename_i hdev
      obtain ⟨rfl, rfl⟩ := hagree bps' diffserv' (hdev ▸ hc)
      exact (Option.some.inj hb).symm
    · cases hb
  | _ => cases hb

theorem defaultDev_run (k : Kernel) (h : .replaceDefault ifname table ∈ cmds)
    (hagree : ∀ ifname', .replaceDefault ifname' table ∈ cmds → ifname' = ifname) :
    (k.run cmds).defaultDev table = some ifname := by
  refine Runs.obs_exec_eq (fun k : Kernel => k.defaultDev table) (writesDefault table)
    (fun k c => k.defaultDev_exec c table) h (if_pos rfl) ?_
  intro c hc b hb
  cases c with
  | replaceDefault ifname' table' =>
    simp only [writesDefault] at hb
    split at hb
    · rename_i htable
      rw [← Option.some.inj hb, hagree ifname' (htable ▸ hc)]
    · cases hb
  | _ => cases hb

theorem mem_ipRules_exec {k : Kernel} (c : Command) (h : rule ∈ k.ipRules) :
    rule ∈ (k.exec c).ipRules := by
  cases c with
  | addRule fwmark table priority =>
    simp only [exec]
    split
    · exact h
    · exact List.mem_append_left _ h
  | addIfb name => simp only [exec]; split <;> exact h
  | addIngress dev => simp only [exec]; split <;> exact h
  | _ => exact h

theorem mem_ipRules_addRule (k : Kernel) (fwmark table priority : Int) :
    ⟨priority, some fwmark, table, []⟩ ∈ (k.exec (.addRule fwmark table priority)).ipRules := by
  simp only [exec]
  split
  · assumption
  · exact List.mem_append_right _ (List.mem_singleton.mpr rfl)

theorem nft_exec {k : Kernel} {c : Command} (h : ∀ marks, c ≠ .replaceMarks marks) :
    (k.exec c).nft = k.nft := by
  cases c with
  | replaceMarks marks => exact absurd rfl (h marks)
  | addRule fwmark table priority => simp only [exec]; split <;> rfl
  | addIfb name => simp only [exec]; split <;> rfl
  | addIngress dev => simp only [exec]; split <;> rfl
  | _ => rfl

theorem mem_nft_replaceMarks {k : Kernel} : rule ∈ (k.exec (.replaceMarks marks)).nft ↔
    (rule ∈ k.nft ∧ ¬(rule.family = "inet" ∧ rule.table = markTable)) ∨
      ∃ m ∈ marks, markRule m.1 m.2 = rule := by
  simp [exec, ← not_and_or]

end Kernel

theorem unreadable_markRule (ifname : String) (mark : Int) :
    (markRule ifname mark).unreadable = false := rfl

theorem mark_markRule (ifname : String) (mark : Int) :
    (markRule ifname mark).mark = some ((vlanSuffix (.str ifname)).getD mark, mark) := rfl

-- ---------------------------------------------------------------------------
-- The commands of a desired state
-- ---------------------------------------------------------------------------

section

variable {e : LinuxEnforcer} {desired : DesiredState}

theorem replaceCake_mem_apply : .replaceCake dev bps diffserv ∈ e.apply desired ↔
    ∃ s ∈ desired.shaping, dev = s.ifname ∧ bps = s.upBps ∧ diffserv = s.diffserv ∨
      dev = ifbForIfname s.ifname ∧ bps = s.downBps ∧ diffserv = s.diffserv := by
  simp [LinuxEnforcer.apply, LinuxEnforcer.applyMarks, applyCake, applyIngressShaping, applyRoute]

theorem replaceMarks_mem_apply :
    .replaceMarks marks ∈ e.apply desired ↔ marks = e.nftRuleset desired.lanOutMarks := by
  simp [LinuxEnforcer.apply, LinuxEnforcer.applyMarks, applyCake, applyIngressShaping, applyRoute]

theorem addRule_mem_apply : .addRule fwmark table priority ∈ e.apply desired ↔
    ∃ r ∈ desired.routes, fwmark = r.fwmark ∧ table = r.table ∧ priority = 10000 + r.fwmark := by
  simp [LinuxEnforcer.apply, LinuxEnforcer.applyMarks, applyCake, applyIngressShaping, applyRoute]

theorem replaceDefault_mem_apply : .replaceDefault ifname table ∈ e.apply desired ↔
    ∃ r ∈ desired.routes, ifname = r.ifname ∧ table = r.table := by
  simp [LinuxEnforcer.apply, LinuxEnforcer.applyMarks, applyCake, applyIngressShaping, applyRoute]

end

-- ---------------------------------------------------------------------------
-- What is asked of the desired state
-- ---------------------------------------------------------------------------

structure DesiredState.Placeable (desired : DesiredState) : Prop where
  positive : ∀ s ∈ desired.shaping, 0 < s.upBps ∧ 0 < s.downBps
  distinct : (desired.shaping.map (·.ifname)).Nodup
  ordinary : ∀ s ∈ desired.shaping, isIfb s.ifname = false
  noCollision : (desired.shaping.map fun s => ifbForIfname s.ifname).Nodup
  tables : ∀ r ∈ desired.routes, r.table < 253 ∨ 255 < r.table

-- ---------------------------------------------------------------------------
-- After one application
-- ---------------------------------------------------------------------------

section

variable {e : LinuxEnforcer} {t : Tools} {desired : DesiredState}

theorem cakesOn_apply (h : desired.Placeable) (k : Kernel) (hs : s ∈ desired.shaping) :
    (k.run (e.apply desired)).cakesOn s.ifname = [cake s.ifname s.upBps s.diffserv] ∧
      (k.run (e.apply desired)).cakesOn (ifbForIfname s.ifname) =
        [cake (ifbForIfname s.ifname) s.downBps s.diffserv] := by
  constructor
  · refine Kernel.cakesOn_run k (replaceCake_mem_apply.mpr ⟨s, hs, .inl ⟨rfl, rfl, rfl⟩⟩) ?_
    intro bps diffserv hc
    obtain ⟨s', hs', ⟨hdev, rfl, rfl⟩ | ⟨hdev, -⟩⟩ := replaceCake_mem_apply.mp hc
    · rw [List.inj_on_of_nodup_map h.distinct hs hs' hdev]
      exact ⟨rfl, rfl⟩
    · have hifb := h.ordinary s hs
      rw [hdev, isIfb_ifbForIfname] at hifb
      cases hifb
  · refine Kernel.cakesOn_run k (replaceCake_mem_apply.mpr ⟨s, hs, .inr ⟨rfl, rfl, rfl⟩⟩) ?_
    intro bps diffserv hc
    obtain ⟨s', hs', ⟨hdev, -⟩ | ⟨hdev, rfl, rfl⟩⟩ := replaceCake_mem_apply.mp hc
    · have hifb := h.ordinary s' hs'
      rw [← hdev, isIfb_ifbForIfname] at hifb
      cases hifb
    · rw [List.inj_on_of_nodup_map h.noCollision hs hs' hdev]
      exact ⟨rfl, rfl⟩

theorem cakeReport_of_cakesOn (ht : t.Faithful) {k : Kernel} (hdev : dev ≠ "") (hbps : 0 < bps)
    (h : k.cakesOn dev = [cake dev bps diffserv]) :
    ∃ rate, t.cakeReport k dev = some (rate, diffserv) ∧ close rate bps = true := by
  obtain ⟨rate, hrate, hclose⟩ := ht.bandwidth bps hbps
  refine ⟨rate, ?_, ?_⟩
  · have hread : t.cakeRead (cake dev bps diffserv) = some (rate, diffserv) := by
      simp [Tools.cakeRead, Tools.rateOf, cake, hbps.ne', hrate]
    rw [Tools.cakeReport, if_neg (by simp [ht.reads, hdev]), h, List.filterMap_cons_some hread]
    rfl
  · simp only [close, Bool.or_eq_true, decide_eq_true_eq]
    omega

theorem defaultDev_apply (k : Kernel) (hsame : ∀ r ∈ desired.routes, r.ifname = ifname)
    (hr : r ∈ desired.routes) : (k.run (e.apply desired)).defaultDev r.table = some r.ifname := by
  refine Kernel.defaultDev_run k (replaceDefault_mem_apply.mpr ⟨r, hr, rfl, rfl⟩) ?_
  intro ifname' hc
  obtain ⟨r', hr', rfl, -⟩ := replaceDefault_mem_apply.mp hc
  rw [hsame r hr, hsame r' hr']

theorem mem_ipRules_apply (k : Kernel) (hr : r ∈ desired.routes) :
    ⟨10000 + r.fwmark, some r.fwmark, r.table, []⟩ ∈ (k.run (e.apply desired)).ipRules :=
  Runs.exec_establishes (P := fun k : Kernel => _ ∈ k.ipRules)
    (fun _ c _ h => Kernel.mem_ipRules_exec c h) (addRule_mem_apply.mpr ⟨r, hr, rfl, rfl, rfl⟩)
    fun k => k.mem_ipRules_addRule r.fwmark r.table (10000 + r.fwmark)

theorem mem_nft_apply (k : Kernel) (hm : m ∈ e.nftRuleset desired.lanOutMarks) :
    markRule m.1 m.2 ∈ (k.run (e.apply desired)).nft := by
  have hset : ∀ k : Kernel, markRule m.1 m.2 ∈
      (k.exec (.replaceMarks (e.nftRuleset desired.lanOutMarks))).nft := fun k =>
    Kernel.mem_nft_replaceMarks.mpr (.inr ⟨m, hm, rfl⟩)
  refine Runs.exec_establishes (P := fun k : Kernel => markRule m.1 m.2 ∈ k.nft) ?_
    (replaceMarks_mem_apply.mpr rfl) hset
  intro k c hc h
  cases c with
  | replaceMarks marks =>
    obtain rfl := replaceMarks_mem_apply.mp hc
    exact hset k
  | _ => rwa [Kernel.nft_exec (by simp)]

theorem readable_apply {k : Kernel} (h : ∀ rule ∈ k.nft, rule.unreadable = false) :
    ∀ rule ∈ (k.run (e.apply desired)).nft, rule.unreadable = false := by
  refine Runs.exec_keeps (P := fun k : Kernel => ∀ rule ∈ k.nft, rule.unreadable = false) ?_ h
  intro k c _ h rule hrule
  cases c with
  | replaceMarks marks =>
    obtain ⟨hrule, -⟩ | ⟨m, -, rfl⟩ := Kernel.mem_nft_replaceMarks.mp hrule
    · exact h rule hrule
    · exact unreadable_markRule m.1 m.2
  | _ =>
    rw [Kernel.nft_exec (by simp)] at hrule
    exact h rule hrule

end

-- ---------------------------------------------------------------------------
-- Rendered states
-- ---------------------------------------------------------------------------

section

variable {K : Type} [Zero K] [LT K] [DecidableLT K] {allocation : Allocation} {byId : Registry K}
  {profiles : List ServiceProfile} {tunnelIfname : String} {desired : DesiredState}

theorem ifname_ne_empty_of_render (h : render allocation byId profiles tunnelIfname = .ok desired)
    (hs : s ∈ desired.shaping) : s.ifname ≠ "" := by
  obtain ⟨-, -, -, hshaping⟩ := render_eq_ok h
  obtain ⟨share, -, hs⟩ := (hshaping s).mp hs
  unfold shapingForAtomic at hs
  split at hs
  · cases hs
  · split at hs
    · obtain ⟨ifname, hif, rfl⟩ := Option.map_eq_some_iff.mp hs
      simpa using (Option.filter_eq_some_iff.mp hif).2
    · cases hs

theorem ifname_of_render (h : render allocation byId profiles tunnelIfname = .ok desired) :
    ∀ r ∈ desired.routes, r.ifname = tunnelIfname := by
  obtain ⟨-, -, hroutes, -⟩ := render_eq_ok h
  intro r hr
  obtain ⟨share, -, hr⟩ := (hroutes r).mp hr
  exact ifname_of_routeForShare hr

theorem marks_of_render (h : render allocation byId profiles tunnelIfname = .ok desired)
    (hbest : bestEffort ∈ profiles) (hm : m ∈ desired.marks) :
    ∃ p ∈ profiles, m = (p.vlan, p.vlan) := by
  obtain ⟨-, hmarks, -, -⟩ := render_eq_ok h
  rw [hmarks, renderMarks, (List.perm_insertionSort _ _).mem_iff, List.mem_dedup] at hm
  split at hm
  · rcases List.mem_append.mp hm with hm | hm
    · obtain ⟨p, hp, rfl⟩ := List.mem_map.mp hm
      exact ⟨p, hp, rfl⟩
    · exact ⟨bestEffort, hbest, List.mem_singleton.mp hm⟩
  · obtain ⟨p, hp, rfl⟩ := List.mem_map.mp hm
    exact ⟨p, hp, rfl⟩

end

theorem vlanSuffix_lanIfname (p : ServiceProfile)
    (h : lanMode = "single" → vlanSuffix (.str baseInterface) = none) :
    (vlanSuffix (.str (lanIfnameForProfile p lanMode baseInterface))).getD p.vlan = p.vlan := by
  unfold lanIfnameForProfile
  split
  · rename_i hsingle
    rw [h hsingle, Option.getD_none]
  · have hdot : '.' ∉ (toString p.vlan).toList := fun hm => (Numerals.mem_toString hm).2.1 rfl
    have hsuffix : ∀ bss, vlanSuffix (.str (bss ++ "." ++ toString p.vlan)) = some p.vlan := by
      intro bss
      have hlist : (bss ++ "." ++ toString p.vlan).toList =
          bss.toList ++ '.' :: (toString p.vlan).toList := by
        simp [String.toList_append]
      rw [vlanSuffix, hlist, Numerals.afterLast_append hdot, Option.bind_some,
        Numerals.int_toString]
    rw [hsuffix, Option.getD_some]

namespace LinuxEnforcer

/-- What a profile's interface is called lets its rule be read back, as in
every enforcer the daemon builds. -/
structure ReadsItself (e : LinuxEnforcer) : Prop where
  bestEffort : Wifucked.bestEffort ∈ e.profiles
  base : e.lanMode = "single" → vlanSuffix (.str e.baseInterface) = none

theorem readsItself_ofLanMode (lanMode : String) : (ofLanMode lanMode).ReadsItself :=
  ⟨bestEffort_mem_profilesForLanMode lanMode,
    fun _ => (by decide : vlanSuffix (.str "wlan0") = none)⟩

/-- One reconciliation brings the state about, and another one has nothing to do. -/
def Settles (e : LinuxEnforcer) (t : Tools) (k : Kernel) (desired : DesiredState) : Prop :=
  ∃ cmds, e.reconcile t k desired = .ok cmds ∧
    (∃ current, readActual t (k.run cmds) = .ok current ∧ converged current desired = true) ∧
    e.reconcile t (k.run cmds) desired = .ok []

section

variable {K : Type} [Zero K] [LT K] [DecidableLT K] {allocation : Allocation} {byId : Registry K}
  {tunnelIfname : String} {e : LinuxEnforcer} {t : Tools} {desired : DesiredState}

theorem seen_apply (he : e.ReadsItself) (ht : t.Faithful)
    (h : render allocation byId e.profiles tunnelIfname = .ok desired) (hd : desired.Placeable)
    (k : Kernel) : t.Seen (k.run (e.apply desired)) desired := by
  refine ⟨fun s hs => ?_, fun r hr => ?_, fun m hm => ?_⟩
  · obtain ⟨hup, hdown⟩ := hd.positive s hs
    obtain ⟨hcake, hifb⟩ := cakesOn_apply (e := e) hd k hs
    obtain ⟨up, hupReport, hupClose⟩ :=
      cakeReport_of_cakesOn ht (ifname_ne_empty_of_render h hs) hup hcake
    obtain ⟨down, hdownReport, hdownClose⟩ :=
      cakeReport_of_cakesOn ht (ifbForIfname_ne_empty s.ifname) hdown hifb
    exact ⟨hd.ordinary s hs, ⟨up, hupReport, hupClose⟩, by rw [hdownReport]; exact hdownClose⟩
  · refine ⟨ht.reads _, ht.reads _, ⟨_, mem_ipRules_apply k hr, ht.fwmark _, ?_⟩,
      defaultDev_apply k (ifname_of_render h) hr⟩
    exact ht.table _ (hd.tables r hr)
  · obtain ⟨p, hp, rfl⟩ := marks_of_render h he.bestEffort hm
    have hrule : (lanIfnameForProfile p e.lanMode e.baseInterface, p.vlan) ∈
        e.nftRuleset desired.lanOutMarks :=
      List.mem_append_left _ (List.mem_map.mpr ⟨p, hp, rfl⟩)
    refine ⟨ht.reads _, _, mem_nft_apply k hrule, ?_⟩
    rw [mark_markRule, vlanSuffix_lanIfname p he.base]

theorem settles_of_seen {k : Kernel} (h : e.reconcile t k desired = .ok cmds)
    (hr : t.Readable (k.run cmds)) (hs : t.Seen (k.run cmds) desired) :
    e.Settles t k desired := by
  obtain ⟨current, hc, hconv⟩ := readActual_ok hr
  refine ⟨cmds, h, ⟨current, hc, ?_⟩, reconcile_eq_nil.mpr ⟨hr, hs⟩⟩
  rw [hconv, converged_reading]
  exact hs

/-- One reconciliation settles a rendered state from every kernel, exactly
when no rule of the mark table has a mark that cannot be read. -/
theorem settles_iff (he : e.ReadsItself) (ht : t.Faithful)
    (h : render allocation byId e.profiles tunnelIfname = .ok desired) (hd : desired.Placeable)
    (k : Kernel) : e.Settles t k desired ↔ ∀ rule ∈ k.nft, rule.unreadable = false := by
  constructor
  · rintro ⟨cmds, hcmds, -⟩
    by_contra hraise
    have hread : ¬t.Readable k := not_or.mpr ⟨by simp [ht.reads], hraise⟩
    obtain ⟨err, herr⟩ := readActual_error hread
    simp [reconcile, herr, Except.map] at hcmds
  · intro hread
    have hr : t.Readable k := .inr hread
    by_cases hs : t.Seen k desired
    · exact settles_of_seen (reconcile_eq_nil.mpr ⟨hr, hs⟩) hr hs
    · exact settles_of_seen (reconcile_eq_apply hr hs) (.inr (readable_apply hread))
        (seen_apply he ht h hd k)

end

end LinuxEnforcer

def measuredDock : Atomic ℚ := { dock true with capacity := ⟨100000000, 20000000, 1, some 0⟩ }

def wiredState : DesiredState :=
  ⟨[⟨"eth1", 95000000, 19000000, "diffserv4"⟩], [⟨20, 757, "wg0"⟩], [(20, 20)], []⟩

theorem render_wiredState :
    render ⟨some "usb:dock", false, [⟨"usb:dock", "Stable_besteffort", 256000⟩], []⟩
      (Registry.observe .empty 0 [measuredDock]) (LinuxEnforcer.ofLanMode "single").profiles "wg0" =
        .ok wiredState := by
  decide +kernel

theorem placeable_wiredState : wiredState.Placeable where
  positive := by decide
  distinct := by decide
  ordinary := by decide
  noCollision := by decide
  tables := by decide

def leftover (rules : List NftRule) : Kernel := ⟨[], [], [], rules, [], []⟩

namespace LinuxEnforcer

/-- A rule an earlier layout left is no obstacle. -/
theorem settles_iff_leftover :
    (ofLanMode "single").Settles iproute2 (leftover [markRule "wlan0_1.10" 10]) wiredState :=
  (settles_iff (readsItself_ofLanMode "single") faithful_iproute2 render_wiredState
    placeable_wiredState _).mpr (by decide)

/-- A leftover rule that adds a bit to the mark is. -/
theorem composite_mark_unsettled :
    (iproute2.Faithful ∧ wiredState.Placeable) ∧
      ¬(ofLanMode "single").Settles iproute2
        (leftover [⟨"inet", markTable, markChain,
          [.matching "==" (.metaKey "iifname") (.str "wlan0"),
            .mangle (.metaKey "mark") .composite]⟩]) wiredState := by
  refine ⟨⟨faithful_iproute2, placeable_wiredState⟩, ?_⟩
  rintro ⟨cmds, hcmds, -⟩
  cases hcmds

end LinuxEnforcer

end Wifucked
