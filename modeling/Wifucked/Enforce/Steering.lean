import Wifucked.Lib.Priorities
import Wifucked.Enforce.Tables

/-!
# Where the packets go

A packet to the Internet is marked by the interface that it comes in by, and the
rules for its mark name the tables to look for a default route in. What fast loops
leave in the kernel, while connections come and go and the main table
changes with them, comes to this: a class is steered into the tunnel
from the first share of it on, and never anywhere else.
-/

namespace Wifucked

-- ---------------------------------------------------------------------------
-- The way of a packet
-- ---------------------------------------------------------------------------

def NftRule.sets (rule : NftRule) (iifname : String) : Option Int :=
  match rule.expr with
  | [.matching op (.metaKey key) (.str name), .mangle (.metaKey mangled) (.int mark)] =>
    if op = "==" ∧ key = "iifname" ∧ mangled = "mark" ∧ name = iifname then some mark else none
  | _ => none

def IpRule.applies (rule : IpRule) (mark : Int) : Bool :=
  rule.selectors = [] && rule.fwmark.all (· = mark)

namespace Kernel

/-- The last rule that sets one counts. -/
def markOf (k : Kernel) (iifname : String) : Int :=
  (k.nft.filterMap (·.sets iifname)).getLast?.getD 0

/-- What a rule makes of a packet with this mark, to an address that only default routes
lead to. -/
def answer (k : Kernel) (mark : Int) (rule : IpRule) : Option String :=
  if rule.applies mark then k.defaultDev rule.table else none

def route (k : Kernel) (mark : Int) : Option String :=
  Priorities.firstMatch IpRule.priority (k.answer mark) k.ipRules

def egress (k : Kernel) (iifname : String) : Option String := k.route (k.markOf iifname)

/-- What a packet that nobody steers does. -/
def unsteered (k : Kernel) : Option String := (k.defaultDev 254).or (k.defaultDev 253)

end Kernel

-- ---------------------------------------------------------------------------
-- What happens to a kernel
-- ---------------------------------------------------------------------------

inductive Change (K : Type) where
  /-- A fast loop, with what the tools print during it. -/
  | fast (t : Tools) (allocation : Allocation) (byId : Registry K)
  /-- The routes of the main table from now on. -/
  | main (routes : List Route)
  /-- A device goes, and its routes with it. One of this name may come back. -/
  | lost (dev : String)

namespace Steering

variable {K : Type} [Zero K] [LT K] [DecidableLT K]

section

variable (e : LinuxEnforcer) (tunnel : String)

def step (k : Kernel) : Change K → Kernel
  | .fast t allocation byId =>
    match render allocation byId e.profiles tunnel with
    | .error _ => k
    | .ok desired =>
      match e.reconcile t k desired with
      | .error _ => k
      | .ok cmds => k.run cmds
  | .main routes =>
    { k with
      routes := k.routes.filter (fun r => ¬r.table = 254) ++ routes.filter fun r => r.table = 254 }
  | .lost dev => { k with routes := k.routes.filter fun r => ¬r.dev = some dev }

/-- Which marks lead to which tables, and which tables have the tunnel in them. -/
structure Plane where
  rules : List (Int × Int)
  live : List Int
  deriving DecidableEq, Repr

def Plane.empty : Plane := ⟨[], []⟩

def Plane.steers (p : Plane) (mark : Int) : Bool :=
  p.rules.any fun rule => rule.1 = mark && rule.2 ∈ p.live

def Plane.ask (p : Plane) (desired : DesiredState) : Plane where
  rules := p.rules ++ desired.routes.map fun r => (r.fwmark, r.table)
  live := p.live ++ desired.routes.map (·.table)

def Plane.step (p : Plane) : Change K → Plane
  | .fast _ allocation byId =>
    match render allocation byId e.profiles tunnel with
    | .error _ => p
    | .ok desired => p.ask desired
  | .main _ => p
  | .lost dev => if dev = tunnel then { p with live := [] } else p

end

-- ---------------------------------------------------------------------------
-- What the fast loops keep
-- ---------------------------------------------------------------------------

def systemRules : List IpRule :=
  [⟨0, none, 255, []⟩, ⟨32766, none, 254, []⟩, ⟨32767, none, 253, []⟩]

def ruleFor (r : Int × Int) : IpRule := ⟨10000 + r.1, some r.1, r.2, []⟩

/-- Before the first fast loop. -/
structure Clean (k : Kernel) : Prop where
  rules : k.ipRules = systemRules
  routes : ∀ r ∈ k.routes, r.table ∈ systemTables ∧ (r.table = 255 → r.dst ≠ "default")
  nft : ∀ rule ∈ k.nft, ∀ expr ∈ rule.expr, ∀ value, expr ≠ .mangle (.metaKey "mark") value

/-- The plane is what the kernel does. -/
structure Fits (e : LinuxEnforcer) (tunnel : String) (p : Plane) (k : Kernel) : Prop where
  rules : ∀ rule, rule ∈ k.ipRules ↔ rule ∈ systemRules ∨ ∃ r ∈ p.rules, rule = ruleFor r
  between : ∀ r ∈ p.rules, 0 < 10000 + r.1 ∧ 10000 + r.1 < 32766 ∧ r.2 ∉ systemTables
  routes : ∀ r ∈ k.routes, r.table ∈ systemTables ∨ r.dev = some tunnel
  noLocal : ∀ r ∈ k.routes, r.table = 255 → r.dst ≠ "default"
  tables : ∀ table, table ∉ systemTables →
    k.defaultDev table = if table ∈ p.live then some tunnel else none
  others : ∀ rule ∈ k.nft, ¬(rule.family = "inet" ∧ rule.table = markTable) →
    ∀ iifname, rule.sets iifname = none
  readable : ∀ rule ∈ k.nft, rule.unreadable = false
  marks : p.rules = [] ∨ ∀ q ∈ e.profiles,
    k.markOf (lanIfnameForProfile q e.lanMode e.baseInterface) = q.vlan

variable {e : LinuxEnforcer} {tunnel : String} {p : Plane} {k : Kernel}

theorem defaultDev_local (h : ∀ r ∈ k.routes, r.table = 255 → r.dst ≠ "default") :
    k.defaultDev 255 = none := by
  have hnone : (k.routes.filter (·.table = 255)).find? (·.dst = "default") = none := by
    rw [List.find?_eq_none]
    intro r hr
    obtain ⟨hr, htable⟩ := List.mem_filter.mp hr
    simpa using h r hr (by simpa using htable)
  rw [Kernel.defaultDev, hnone, Option.bind_none]

/-- Before the system's rules come those for marks, which lead into the tunnel or nowhere. -/
theorem answer_cases (h : Fits e tunnel p k) (mark : Int) (hrule : rule ∈ k.ipRules) :
    k.answer mark rule = none ∨ rule = ⟨32766, none, 254, []⟩ ∨ rule = ⟨32767, none, 253, []⟩ ∨
      p.steers mark = true ∧ k.answer mark rule = some tunnel := by
  rcases (h.rules rule).mp hrule with hsystem | ⟨r, hr, rfl⟩
  · simp only [systemRules, List.mem_cons, List.not_mem_nil, or_false] at hsystem
    rcases hsystem with rfl | rfl | rfl
    · exact .inl (by simp [Kernel.answer, defaultDev_local h.noLocal])
    · exact .inr (.inl rfl)
    · exact .inr (.inr (.inl rfl))
  · have htable := h.tables r.2 (h.between r hr).2.2
    by_cases hmark : r.1 = mark
    · by_cases hlive : r.2 ∈ p.live
      · refine .inr (.inr (.inr ⟨List.any_eq_true.mpr ⟨r, hr, by simp [hmark, hlive]⟩, ?_⟩))
        simp [Kernel.answer, ruleFor, IpRule.applies, hmark, htable, hlive]
      · exact .inl (by simp [Kernel.answer, ruleFor, htable, hlive])
    · exact .inl (by simp [Kernel.answer, ruleFor, IpRule.applies, hmark])

theorem route_of_steers (h : Fits e tunnel p k) (hsteers : p.steers mark = true) :
    k.route mark = some tunnel := by
  obtain ⟨r, hr, hmark⟩ := List.any_eq_true.mp hsteers
  simp only [Bool.and_eq_true, decide_eq_true_eq] at hmark
  obtain ⟨rfl, hlive⟩ := hmark
  obtain ⟨-, hlt, htable⟩ := h.between r hr
  have hrule : ruleFor r ∈ k.ipRules := (h.rules _).mpr (.inr ⟨r, hr, rfl⟩)
  have hanswer : k.answer r.1 (ruleFor r) = some tunnel := by
    simp [Kernel.answer, ruleFor, IpRule.applies, h.tables r.2 htable, hlive]
  refine Priorities.firstMatch_eq_some hrule hanswer fun rule hmem hbefore => ?_
  rcases answer_cases h r.1 hmem with hnone | rfl | rfl | ⟨-, hsome⟩
  · exact .inl hnone
  · exact absurd hbefore (by simp only [ruleFor]; omega)
  · exact absurd hbefore (by simp only [ruleFor]; omega)
  · exact .inr hsome

theorem route_of_not_steers (h : Fits e tunnel p k) (hsteers : p.steers mark = false) :
    k.route mark = k.unsteered := by
  have hcases : ∀ rule ∈ k.ipRules, k.answer mark rule = none ∨ rule = ⟨32766, none, 254, []⟩ ∨
      rule = ⟨32767, none, 253, []⟩ := by
    intro rule hrule
    rcases answer_cases h mark hrule with hnone | hmain | hdefault | ⟨htrue, -⟩
    · exact .inl hnone
    · exact .inr (.inl hmain)
    · exact .inr (.inr hdefault)
    · rw [hsteers] at htrue
      cases htrue
  have hmem : ∀ rule ∈ systemRules, rule ∈ k.ipRules := fun rule hr => (h.rules rule).mpr (.inl hr)
  have hmain : k.answer mark ⟨32766, none, 254, []⟩ = k.defaultDev 254 := rfl
  have hdefault : k.answer mark ⟨32767, none, 253, []⟩ = k.defaultDev 253 := rfl
  cases hdev : k.defaultDev 254 with
  | some dev =>
    rw [Kernel.unsteered, hdev, Option.some_or]
    refine Priorities.firstMatch_eq_some (hmem ⟨32766, none, 254, []⟩ (by simp [systemRules]))
      (hmain.trans hdev) fun rule hrule hbefore => ?_
    rcases hcases rule hrule with hnone | rfl | rfl
    · exact .inl hnone
    · exact .inr (hmain.trans hdev)
    · exact absurd hbefore (by decide)
  | none =>
    rw [Kernel.unsteered, hdev, Option.none_or]
    have hlast : ∀ rule ∈ k.ipRules,
        k.answer mark rule = none ∨ k.answer mark rule = k.defaultDev 253 := by
      intro rule hrule
      rcases hcases rule hrule with hnone | rfl | rfl
      · exact .inl hnone
      · exact .inl (hmain.trans hdev)
      · exact .inr hdefault
    cases hdev' : k.defaultDev 253 with
    | some dev =>
      rw [hdev'] at hlast
      exact Priorities.firstMatch_eq_some (hmem ⟨32767, none, 253, []⟩ (by simp [systemRules]))
        (hdefault.trans hdev') fun rule hrule _ => hlast rule hrule
    | none =>
      rw [hdev'] at hlast
      exact Priorities.firstMatch_eq_none fun rule hrule => (hlast rule hrule).elim id id

theorem route_eq (h : Fits e tunnel p k) (mark : Int) :
    k.route mark = if p.steers mark then some tunnel else k.unsteered := by
  split
  · rename_i hsteers
    exact route_of_steers h hsteers
  · rename_i hsteers
    exact route_of_not_steers h (Bool.eq_false_iff.mpr hsteers)

-- ---------------------------------------------------------------------------
-- A kernel that nobody has changed
-- ---------------------------------------------------------------------------

theorem fits_clean (h : Clean k) : Fits e tunnel .empty k where
  rules := by simp [h.rules, Plane.empty]
  between := by simp [Plane.empty]
  routes r hr := .inl (h.routes r hr).1
  noLocal r hr := (h.routes r hr).2
  tables table htable := by
    have hnone : k.routes.filter (·.table = table) = [] := by
      rw [List.filter_eq_nil_iff]
      intro r hr heq
      exact htable (of_decide_eq_true heq ▸ (h.routes r hr).1)
    simp [Kernel.defaultDev, hnone, Plane.empty]
  others rule hrule _ iifname := by
    unfold NftRule.sets
    split
    · rename_i op key name mangled mark hexpr
      rw [if_neg]
      rintro ⟨-, -, rfl, -⟩
      exact h.nft rule hrule (.mangle (.metaKey "mark") (.int mark)) (by rw [hexpr]; simp) _ rfl
    · rfl
  readable rule hrule := by
    have hval : rule.markval = .null := by
      have hexprs := h.nft rule hrule
      unfold NftRule.markval
      generalize rule.expr = exprs at hexprs
      induction exprs with
      | nil => rfl
      | cons expr exprs ih =>
        rw [List.foldl_cons]
        split
        · rename_i value
          exact absurd rfl (hexprs _ List.mem_cons_self value)
        · exact ih fun expr' h' => hexprs expr' (List.mem_cons_of_mem expr h')
    simp [NftRule.unreadable, hval]
  marks := .inl rfl

-- ---------------------------------------------------------------------------
-- Commands
-- ---------------------------------------------------------------------------

theorem rule_exec_iff (k : Kernel) (c : Command) (rule : IpRule) :
    rule ∈ (k.exec c).ipRules ↔ rule ∈ k.ipRules ∨ ∃ fwmark table priority,
      c = .addRule fwmark table priority ∧ rule = ⟨priority, some fwmark, table, []⟩ := by
  cases c with
  | addRule fwmark table priority =>
    simp only [Kernel.exec]
    split
    · rename_i hthere
      simp only [Command.addRule.injEq]
      constructor
      · exact .inl
      · rintro (h | ⟨_, _, _, ⟨rfl, rfl, rfl⟩, rfl⟩)
        · exact h
        · exact hthere
    · simp
  | addIfb name => simp only [Kernel.exec]; split <;> simp
  | addIngress dev => simp only [Kernel.exec]; split <;> simp
  | _ => simp [Kernel.exec]

theorem mem_ipRules_run {cmds : List Command} (k : Kernel) (rule : IpRule) :
    rule ∈ (k.run cmds).ipRules ↔ rule ∈ k.ipRules ∨ ∃ fwmark table priority,
      .addRule fwmark table priority ∈ cmds ∧ rule = ⟨priority, some fwmark, table, []⟩ := by
  induction cmds generalizing k with
  | nil => simp [Kernel.run]
  | cons c cmds ih =>
    refine (ih (k.exec c)).trans ?_
    rw [rule_exec_iff]
    simp only [List.mem_cons]
    constructor
    · rintro ((h | ⟨m, t, p, rfl, h⟩) | ⟨m, t, p, hc, h⟩)
      · exact .inl h
      · exact .inr ⟨m, t, p, .inl rfl, h⟩
      · exact .inr ⟨m, t, p, .inr hc, h⟩
    · rintro (h | ⟨m, t, p, hc | hc, h⟩)
      · exact .inl (.inl h)
      · exact .inl (.inr ⟨m, t, p, hc.symm, h⟩)
      · exact .inr ⟨m, t, p, hc, h⟩

theorem mem_routes_exec {c : Command} (h : r ∈ (k.exec c).routes) :
    r ∈ k.routes ∨ ∃ ifname table, c = .replaceDefault ifname table ∧
      r = ⟨table, "default", some ifname, 0⟩ := by
  cases c with
  | replaceDefault ifname table =>
    rcases List.mem_cons.mp h with rfl | h
    · exact .inr ⟨ifname, table, rfl, rfl⟩
    · exact .inl (List.mem_of_mem_filter h)
  | addRule fwmark table priority => simp only [Kernel.exec] at h; split at h <;> exact .inl h
  | addIfb name => simp only [Kernel.exec] at h; split at h <;> exact .inl h
  | addIngress dev => simp only [Kernel.exec] at h; split at h <;> exact .inl h
  | _ => exact .inl h

theorem nft_run {cmds : List Command} (h : ∀ c ∈ cmds, ∀ marks, c ≠ .replaceMarks marks) :
    (k.run cmds).nft = k.nft :=
  Runs.exec_keeps (P := fun k' : Kernel => k'.nft = k.nft)
    (fun _ c hc hk' => (Kernel.nft_exec (h c hc)).trans hk') rfl

theorem nft_apply (desired : DesiredState) : (k.run (e.apply desired)).nft =
    (k.exec (.replaceMarks (e.nftRuleset desired.lanOutMarks))).nft := by
  rw [Kernel.run, LinuxEnforcer.apply, Runs.exec_append, Runs.exec_append]
  refine (nft_run fun c hc marks => ?_).trans ?_
  · rintro rfl
    simp [applyRoute] at hc
  · have hbefore : (k.run (desired.shaping.flatMap fun s =>
        applyCake s ++ applyIngressShaping s)).nft = k.nft := by
      refine nft_run fun c hc marks => ?_
      rintro rfl
      simp [applyCake, applyIngressShaping] at hc
    rw [Kernel.run] at hbefore
    simp only [LinuxEnforcer.applyMarks, Runs.exec_cons, Runs.exec_nil, Kernel.exec, hbefore]

theorem sets_markRule (name : String) (mark : Int) (iifname : String) :
    (markRule name mark).sets iifname = if name = iifname then some mark else none := by
  simp [markRule, NftRule.sets]

/-- What marks a class's packets is its rule, where no port has the interface. -/
theorem markOf_apply {desired : DesiredState}
    (hothers : ∀ rule ∈ k.nft, ¬(rule.family = "inet" ∧ rule.table = markTable) →
      ∀ iifname, rule.sets iifname = none)
    (hm : (iifname, mark) ∈ e.nftRuleset desired.lanOutMarks)
    (hsame : ∀ m ∈ e.nftRuleset desired.lanOutMarks, m.1 = iifname → m.2 = mark) :
    (k.run (e.apply desired)).markOf iifname = mark := by
  have hlist : ((k.run (e.apply desired)).nft.filterMap (·.sets iifname)) =
      (e.nftRuleset desired.lanOutMarks).filterMap fun m =>
        if m.1 = iifname then some m.2 else none := by
    rw [nft_apply, Kernel.exec, List.filterMap_append, List.filterMap_map]
    have hnone : (k.nft.filter fun r => ¬(r.family = "inet" ∧ r.table = markTable)).filterMap
        (·.sets iifname) = [] := by
      rw [List.filterMap_eq_nil_iff]
      intro rule hrule
      obtain ⟨hrule, hother⟩ := List.mem_filter.mp hrule
      exact hothers rule hrule (of_decide_eq_true hother) iifname
    rw [hnone, List.nil_append]
    exact List.filterMap_congr fun m _ => sets_markRule m.1 m.2 iifname
  have hmem : mark ∈ (k.run (e.apply desired)).nft.filterMap (·.sets iifname) := by
    rw [hlist]
    exact List.mem_filterMap.mpr ⟨_, hm, if_pos rfl⟩
  rw [Kernel.markOf]
  cases hlast : ((k.run (e.apply desired)).nft.filterMap (·.sets iifname)).getLast? with
  | none => rw [List.getLast?_eq_none_iff.mp hlast] at hmem; cases hmem
  | some last =>
    have hin := List.mem_of_getLast? hlast
    rw [hlist] at hin
    obtain ⟨m, hm', hsets⟩ := List.mem_filterMap.mp hin
    split at hsets
    · rename_i hname
      rw [Option.getD_some, ← Option.some.inj hsets]
      exact hsame m hm' hname
    · cases hsets

theorem defaultDev_apply_eq {desired : DesiredState} (k : Kernel)
    (hsame : ∀ r ∈ desired.routes, r.ifname = tunnel) (table : Int) :
    (k.run (e.apply desired)).defaultDev table =
      if table ∈ desired.routes.map (·.table) then some tunnel else k.defaultDev table := by
  split
  · rename_i hmem
    obtain ⟨r, hr, rfl⟩ := List.mem_map.mp hmem
    rw [defaultDev_apply k hsame hr, hsame r hr]
  · rename_i hnot
    refine Runs.exec_keeps (P := fun k' : Kernel => k'.defaultDev table = k.defaultDev table)
      (fun k' c hc hk' => ?_) rfl
    rw [Kernel.defaultDev_exec, ← hk']
    cases c with
    | replaceDefault ifname table' =>
      obtain ⟨r, hr, -, rfl⟩ := replaceDefault_mem_apply.mp hc
      rw [Kernel.writesDefault, if_neg, Option.getD_none]
      rintro rfl
      exact hnot (List.mem_map.mpr ⟨r, hr, rfl⟩)
    | _ => rfl

-- ---------------------------------------------------------------------------
-- A fast loop
-- ---------------------------------------------------------------------------

/-- The classes come in by interfaces of their own, with marks that are no priorities
of the system's. -/
structure Separates (e : LinuxEnforcer) : Prop where
  between : ∀ q ∈ e.profiles, 0 < 10000 + q.vlan ∧ 10000 + q.vlan < 32766
  distinct : ∀ q ∈ e.profiles, ∀ q' ∈ e.profiles,
    lanIfnameForProfile q e.lanMode e.baseInterface =
      lanIfnameForProfile q' e.lanMode e.baseInterface → q = q'

theorem profile_cases {lanMode : String} (hq : q ∈ profilesForLanMode lanMode) :
    q = critical ∧ lanMode ≠ "single" ∨ q = bestEffort := by
  unfold profilesForLanMode at hq
  split at hq
  · exact .inr (List.mem_singleton.mp hq)
  · rename_i hsingle
    rcases List.mem_cons.mp hq with rfl | hq
    · exact .inl ⟨rfl, hsingle⟩
    · exact .inr (List.mem_singleton.mp hq)

theorem critical_ifname_ne {lanMode : String} (hsingle : lanMode ≠ "single") :
    lanIfnameForProfile critical lanMode "wlan0" ≠
      lanIfnameForProfile bestEffort lanMode "wlan0" := by
  unfold lanIfnameForProfile
  rw [if_neg hsingle, if_neg hsingle]
  by_cases hpsk : lanMode = "two_psk"
  · simp only [hpsk, true_or, if_true]
    decide
  · simp only [hpsk, false_or]
    decide

theorem separates_ofLanMode (lanMode : String) : Separates (.ofLanMode lanMode) := by
  refine ⟨fun q hq => ?_, fun q hq q' hq' heq => ?_⟩
  · rcases profile_cases hq with ⟨rfl, -⟩ | rfl <;> decide
  · rcases profile_cases hq with ⟨rfl, hsingle⟩ | rfl
    · rcases profile_cases hq' with ⟨rfl, -⟩ | rfl
      · rfl
      · exact absurd heq (critical_ifname_ne hsingle)
    · rcases profile_cases hq' with ⟨rfl, hsingle⟩ | rfl
      · exact absurd heq.symm (critical_ifname_ne hsingle)
      · rfl

theorem fwmark_of_render {allocation : Allocation} {byId : Registry K}
    {profiles : List ServiceProfile} {desired : DesiredState}
    (h : render allocation byId profiles tunnel = .ok desired) :
    ∀ r ∈ desired.routes, ∃ q ∈ profiles, r.fwmark = q.vlan := by
  obtain ⟨-, -, hroutes, -⟩ := render_eq_ok h
  intro r hr
  obtain ⟨share, -, hr⟩ := (hroutes r).mp hr
  unfold routeForShare at hr
  split at hr
  · cases hr
  · split at hr
    · cases hr
    · obtain ⟨q, hq, rfl⟩ := Option.map_eq_some_iff.mp hr
      exact ⟨q, List.mem_of_find?_eq_some hq, rfl⟩

theorem iface_of_render {allocation : Allocation} {byId : Registry K}
    {profiles : List ServiceProfile} {desired : DesiredState}
    (h : render allocation byId profiles tunnel = .ok desired) :
    ∀ m ∈ desired.lanOutMarks, ∃ a ∈ byId.values, a.role = .lanOut ∧ a.iface = some m.1 := by
  obtain ⟨hports, -⟩ := render_eq_ok h
  intro m hm
  rw [hports, renderLanOutMarks, (List.perm_insertionSort _ _).mem_iff, List.mem_dedup] at hm
  obtain ⟨a, ha, hm⟩ := List.mem_filterMap.mp hm
  split at hm
  · rename_i hport
    obtain ⟨ifname, hif, rfl⟩ := Option.map_eq_some_iff.mp hm
    simp only [Bool.and_eq_true, decide_eq_true_eq] at hport
    exact ⟨a, ha, hport.1, hif⟩
  · cases hm

/-- What is asked of a desired state for the plane to follow it. -/
structure Followed (e : LinuxEnforcer) (tunnel : String) (desired : DesiredState) : Prop where
  tunnel : ∀ r ∈ desired.routes, r.ifname = tunnel
  between : ∀ r ∈ desired.routes,
    0 < 10000 + r.fwmark ∧ 10000 + r.fwmark < 32766 ∧ r.table ∉ systemTables
  ports : ∀ m ∈ desired.lanOutMarks, ∀ q ∈ e.profiles,
    m.1 ≠ lanIfnameForProfile q e.lanMode e.baseInterface

theorem between_ask {desired : DesiredState} (h : Fits e tunnel p k)
    (hd : Followed e tunnel desired) : ∀ r ∈ (p.ask desired).rules,
      0 < 10000 + r.1 ∧ 10000 + r.1 < 32766 ∧ r.2 ∉ systemTables := by
  intro r hr
  rcases List.mem_append.mp hr with hr | hr
  · exact h.between r hr
  · obtain ⟨route, hroute, rfl⟩ := List.mem_map.mp hr
    exact hd.between route hroute

theorem mem_rules_of_read {t : Tools} (ht : ∀ n, parseInt (t.fwmark n) = some n)
    (htable : ∀ n, n < 253 ∨ 255 < n → parseInt (t.table n) = some n) (h : Fits e tunnel p k)
    (hrule : rule ∈ k.ipRules) (hmark : parseInt (t.ruleEntry rule).fwmark = some mark)
    (htab : parseInt (t.ruleEntry rule).table = some table) : (mark, table) ∈ p.rules := by
  rcases (h.rules rule).mp hrule with hsystem | ⟨r, hr, rfl⟩
  · simp only [systemRules, List.mem_cons, List.not_mem_nil, or_false] at hsystem
    rcases hsystem with rfl | rfl | rfl <;>
      simp [Tools.ruleEntry, parseInt] at hmark
  · have hapart := (h.between r hr).2.2
    have hnumber : r.2 < 253 ∨ 255 < r.2 := by
      simp only [systemTables, List.mem_cons, List.not_mem_nil, or_false] at hapart
      omega
    simp only [Tools.ruleEntry, ruleFor, Option.elim_some, ht, Option.some.injEq] at hmark
    rw [Tools.ruleEntry, ruleFor, htable _ hnumber, Option.some.injEq] at htab
    rwa [← hmark, ← htab]

theorem fits_seen {t : Tools} {desired : DesiredState} (ht : ∀ n, parseInt (t.fwmark n) = some n)
    (htable : ∀ n, n < 253 ∨ 255 < n → parseInt (t.table n) = some n) (h : Fits e tunnel p k)
    (hd : Followed e tunnel desired) (hs : t.Seen k desired) :
    Fits e tunnel (p.ask desired) k := by
  have hthere : ∀ r ∈ desired.routes, (r.fwmark, r.table) ∈ p.rules ∧ r.table ∈ p.live := by
    intro r hr
    obtain ⟨-, -, ⟨rule, hrule, hmark, htab⟩, hdev⟩ := hs.routes r hr
    refine ⟨mem_rules_of_read ht htable h hrule hmark htab, ?_⟩
    rw [h.tables _ (hd.between r hr).2.2] at hdev
    by_contra hdead
    rw [if_neg hdead] at hdev
    cases hdev
  have hlive : ∀ table, table ∈ (p.ask desired).live ↔ table ∈ p.live := by
    intro table
    rw [Plane.ask, List.mem_append, or_iff_left_of_imp]
    intro hmem
    obtain ⟨r, hr, rfl⟩ := List.mem_map.mp hmem
    exact (hthere r hr).2
  have hrules : ∀ r, r ∈ (p.ask desired).rules ↔ r ∈ p.rules := by
    intro r
    rw [Plane.ask, List.mem_append, or_iff_left_of_imp]
    intro hmem
    obtain ⟨route, hroute, rfl⟩ := List.mem_map.mp hmem
    exact (hthere route hroute).1
  refine ⟨?_, between_ask h hd, h.routes, h.noLocal, ?_, h.others, h.readable, ?_⟩
  · intro rule
    rw [h.rules rule]
    simp only [hrules]
  · intro table hsystem
    rw [h.tables table hsystem]
    simp only [hlive]
  · rcases h.marks with hnone | hmarks
    · exact .inl (List.eq_nil_iff_forall_not_mem.mpr fun r hr => by
        rw [hrules, hnone] at hr
        cases hr)
    · exact .inr hmarks

theorem fits_apply {desired : DesiredState} (he : Separates e) (h : Fits e tunnel p k)
    (hd : Followed e tunnel desired) :
    Fits e tunnel (p.ask desired) (k.run (e.apply desired)) where
  rules rule := by
    rw [mem_ipRules_run, h.rules]
    simp only [addRule_mem_apply, Plane.ask, List.mem_append, List.mem_map]
    constructor
    · rintro ((hsystem | ⟨r, hr, rfl⟩) | ⟨_, _, _, ⟨r, hr, rfl, rfl, rfl⟩, rfl⟩)
      · exact .inl hsystem
      · exact .inr ⟨r, .inl hr, rfl⟩
      · exact .inr ⟨_, .inr ⟨r, hr, rfl⟩, rfl⟩
    · rintro (hsystem | ⟨r, hr | ⟨route, hroute, rfl⟩, rfl⟩)
      · exact .inl (.inl hsystem)
      · exact .inl (.inr ⟨r, hr, rfl⟩)
      · exact .inr ⟨_, _, _, ⟨route, hroute, rfl, rfl, rfl⟩, rfl⟩
  between := between_ask h hd
  routes := by
    refine Runs.exec_keeps (P := fun k' : Kernel => ∀ r ∈ k'.routes,
      r.table ∈ systemTables ∨ r.dev = some tunnel) (fun k' c hc hk' r hr => ?_) h.routes
    rcases mem_routes_exec hr with hr | ⟨ifname, table, rfl, rfl⟩
    · exact hk' r hr
    · obtain ⟨route, hroute, rfl, -⟩ := replaceDefault_mem_apply.mp hc
      exact .inr (congrArg some (hd.tunnel route hroute))
  noLocal := by
    refine Runs.exec_keeps (P := fun k' : Kernel => ∀ r ∈ k'.routes, r.table = 255 →
      r.dst ≠ "default") (fun k' c hc hk' r hr => ?_) h.noLocal
    rcases mem_routes_exec hr with hr | ⟨ifname, table, rfl, rfl⟩
    · exact hk' r hr
    · obtain ⟨route, hroute, -, rfl⟩ := replaceDefault_mem_apply.mp hc
      intro (hlocal : route.table = 255)
      exact absurd (by simp [hlocal, systemTables]) (hd.between route hroute).2.2
  tables table hsystem := by
    rw [defaultDev_apply_eq k hd.tunnel, h.tables table hsystem, Plane.ask]
    by_cases hmem : table ∈ desired.routes.map (·.table)
    · rw [if_pos hmem, if_pos (List.mem_append_right _ hmem)]
    · simp only [List.mem_append, hmem, if_false, or_false]
  others := by
    refine Runs.exec_keeps (P := fun k' : Kernel => ∀ rule ∈ k'.nft,
      ¬(rule.family = "inet" ∧ rule.table = markTable) → ∀ iifname, rule.sets iifname = none)
      (fun k' c hc hk' rule hrule => ?_) h.others
    cases c with
    | replaceMarks marks =>
      obtain ⟨hrule, -⟩ | ⟨m, -, rfl⟩ := Kernel.mem_nft_replaceMarks.mp hrule
      · exact hk' rule hrule
      · exact fun hother => absurd ⟨rfl, rfl⟩ hother
    | _ =>
      rw [Kernel.nft_exec (by simp)] at hrule
      exact hk' rule hrule
  readable := readable_apply h.readable
  marks := by
    refine .inr fun q hq => markOf_apply h.others
      (List.mem_append_left _ (List.mem_map.mpr ⟨q, hq, rfl⟩)) fun m hm hname => ?_
    rcases List.mem_append.mp hm with hm | hm
    · obtain ⟨q', hq', rfl⟩ := List.mem_map.mp hm
      rw [he.distinct q' hq' q hq hname]
    · exact absurd hname (hd.ports m hm q hq)

-- ---------------------------------------------------------------------------
-- Any run
-- ---------------------------------------------------------------------------

/-- The numbers that the tools print are read as what they stand for; any reading may fail. -/
structure Numbers (t : Tools) : Prop where
  fwmark : ∀ n, parseInt (t.fwmark n) = some n
  table : ∀ n, n < 253 ∨ 255 < n → parseInt (t.table n) = some n

/-- No connection that is steered to has a table of the system's, and no port is an
interface of a class. -/
def Ordinary (e : LinuxEnforcer) : Change K → Prop
  | .fast t allocation byId => Numbers t ∧
    (∀ share ∈ allocation.shares, Steered byId e.profiles share →
      tableForAtomic share.atomicId ∉ systemTables) ∧
    ∀ a ∈ byId.values, a.role = .lanOut → ∀ q ∈ e.profiles,
      a.iface ≠ some (lanIfnameForProfile q e.lanMode e.baseInterface)
  | .main _ | .lost _ => True

theorem filter_routes_main (e : LinuxEnforcer) (tunnel : String) (k : Kernel)
    (routes : List Route) {table : Int} (hne : table ≠ 254) :
    (step e tunnel k (.main routes : Change K)).routes.filter (·.table = table) =
      k.routes.filter (·.table = table) := by
  rw [step, List.filter_append, List.filter_filter, List.filter_filter]
  have hnew :
      routes.filter (fun r => decide (r.table = table) && decide (r.table = 254)) = [] := by
    rw [List.filter_eq_nil_iff]
    intro r _ hr
    simp only [Bool.and_eq_true, decide_eq_true_eq] at hr
    exact hne (hr.1.symm.trans hr.2)
  rw [hnew, List.append_nil]
  refine List.filter_congr fun r _ => ?_
  by_cases hr : r.table = table
  · simp [hr, hne]
  · simp [hr]

theorem fits_main (h : Fits e tunnel p k) (routes : List Route) :
    Fits e tunnel p (step e tunnel k (.main routes : Change K)) := by
  have hold : ∀ r ∈ (step e tunnel k (.main routes : Change K)).routes,
      r ∈ k.routes ∨ r.table = 254 := by
    intro r hr
    rcases List.mem_append.mp hr with hr | hr
    · exact .inl (List.mem_of_mem_filter hr)
    · exact .inr (of_decide_eq_true (List.mem_filter.mp hr).2)
  refine ⟨h.rules, h.between, fun r hr => ?_, fun r hr hlocal => ?_, fun table hsystem => ?_,
    h.others, h.readable, h.marks⟩
  · rcases hold r hr with hr | hr
    · exact h.routes r hr
    · exact .inl (by simp [hr, systemTables])
  · rcases hold r hr with hr | hr
    · exact h.noLocal r hr hlocal
    · omega
  · have hne : table ≠ 254 := by
      rintro rfl
      exact hsystem (by simp [systemTables])
    rw [Kernel.defaultDev, filter_routes_main e tunnel k routes hne]
    exact h.tables table hsystem

theorem fits_lost (h : Fits e tunnel p k) (dev : String) :
    Fits e tunnel (p.step e tunnel (.lost dev : Change K))
      (step e tunnel k (.lost dev : Change K)) := by
  have hrules : (p.step e tunnel (.lost dev : Change K)).rules = p.rules := by
    rw [Plane.step]
    split <;> rfl
  refine ⟨?_, hrules ▸ h.between, fun r hr => h.routes r (List.mem_of_mem_filter hr),
    fun r hr => h.noLocal r (List.mem_of_mem_filter hr), fun table hsystem => ?_,
    h.others, h.readable, hrules ▸ h.marks⟩
  · rw [hrules]
    exact h.rules
  · rw [Kernel.defaultDev, step, List.filter_filter, Plane.step]
    by_cases hdev : dev = tunnel
    · have hnone : k.routes.filter (fun r => decide (r.table = table) && decide ¬r.dev = some dev) =
          [] := by
        rw [List.filter_eq_nil_iff]
        intro r hr hin
        simp only [Bool.and_eq_true, decide_eq_true_eq] at hin
        obtain ⟨rfl, hne⟩ := hin
        exact hne (hdev ▸ (h.routes r hr).resolve_left hsystem)
      rw [hnone]
      simp [hdev]
    · rw [if_neg hdev, ← h.tables table hsystem, Kernel.defaultDev]
      refine congrArg (fun l => (List.find? _ l).bind _) (List.filter_congr fun r hr => ?_)
      by_cases htable : r.table = table
      · have htunnel := (h.routes r hr).resolve_left (htable ▸ hsystem)
        simp [htable, htunnel, Ne.symm hdev]
      · simp [htable]

theorem fits_step (he : Separates e) (h : Fits e tunnel p k) {c : Change K}
    (hc : Ordinary e c) : Fits e tunnel (p.step e tunnel c) (step e tunnel k c) := by
  cases c with
  | main routes => exact fits_main h routes
  | lost dev => exact fits_lost h dev
  | fast t allocation byId =>
    obtain ⟨ht, htables, hports⟩ := hc
    simp only [step, Plane.step]
    cases hrender : render allocation byId e.profiles tunnel with
    | error err => exact h
    | ok desired =>
      have hd : Followed e tunnel desired := by
        obtain ⟨-, -, hroutes, -⟩ := render_eq_ok hrender
        refine ⟨ifname_of_render hrender, fun r hr => ?_, fun m hm q hq hname => ?_⟩
        · obtain ⟨q, hq, hmark⟩ := fwmark_of_render hrender r hr
          obtain ⟨share, hshare, hroute⟩ := (hroutes r).mp hr
          rw [hmark, table_of_routeForShare hroute]
          have hsteered := steered_iff.mpr (Option.isSome_iff_exists.mpr ⟨r, hroute⟩)
          exact ⟨(he.between q hq).1, (he.between q hq).2, htables share hshare hsteered⟩
        · obtain ⟨a, ha, hrole, hif⟩ := iface_of_render hrender m hm
          exact hports a ha hrole q hq (hname ▸ hif)
      have hreadable : t.Readable k := .inr h.readable
      by_cases hs : t.Seen k desired
      · simp only [LinuxEnforcer.reconcile_eq_nil.mpr ⟨hreadable, hs⟩]
        exact fits_seen ht.fwmark ht.table h hd hs
      · simp only [LinuxEnforcer.reconcile_eq_apply hreadable hs]
        exact fits_apply he h hd

theorem fits_exec (he : Separates e) (h : Fits e tunnel p k) {cs : List (Change K)}
    (hcs : ∀ c ∈ cs, Ordinary e c) :
    Fits e tunnel (Runs.exec (Plane.step e tunnel) p cs) (Runs.exec (step e tunnel) k cs) := by
  induction cs generalizing p k with
  | nil => exact h
  | cons c cs ih =>
    exact ih (fits_step he h (hcs c List.mem_cons_self))
      fun c' hc' => hcs c' (List.mem_cons_of_mem c hc')

theorem steers_exec {mark : Int} (h : p.steers mark = true) {cs : List (Change K)}
    (hcs : ∀ dev, .lost dev ∈ cs → dev ≠ tunnel) :
    (Runs.exec (Plane.step e tunnel) p cs).steers mark = true := by
  refine Runs.exec_keeps (P := fun p : Plane => p.steers mark = true) (fun p c hc hp => ?_) h
  cases c with
  | main routes => exact hp
  | lost dev => rwa [Plane.step, if_neg (hcs dev hc)]
  | fast t allocation byId =>
    simp only [Plane.step]
    split
    · exact hp
    · obtain ⟨r, hr, hin⟩ := List.any_eq_true.mp hp
      simp only [Bool.and_eq_true, decide_eq_true_eq] at hin
      refine List.any_eq_true.mpr ⟨r, List.mem_append_left _ hr, ?_⟩
      simp [hin.1, Plane.ask, hin.2]

theorem steers_fast {t : Tools} {allocation : Allocation} {byId : Registry K}
    (hquiesced : ∀ s ∈ allocation.shares, s.atomicId ∉ allocation.quiesced)
    (hshare : share ∈ allocation.shares) (hsteered : Steered byId e.profiles share)
    (hq : e.profiles.find? (fun q => q.name = share.profileName) = some q) :
    (p.step e tunnel (.fast t allocation byId)).steers q.vlan = true := by
  obtain ⟨desired, hrender⟩ :
      ∃ desired, render allocation byId e.profiles tunnel = .ok desired := render_ok hquiesced
  obtain ⟨-, -, hroutes, -⟩ := render_eq_ok hrender
  obtain ⟨r, hr⟩ : ∃ r, routeForShare byId e.profiles tunnel share = some r :=
    Option.isSome_iff_exists.mp (steered_iff.mp hsteered)
  have hmem := (hroutes r).mpr ⟨share, hshare, hr⟩
  have hmark : r.fwmark = q.vlan := by
    unfold routeForShare at hr
    split at hr
    · cases hr
    · split at hr
      · cases hr
      · rw [hq, Option.map_some, Option.some.injEq] at hr
        rw [← hr]
  simp only [Plane.step, hrender]
  refine List.any_eq_true.mpr ⟨(r.fwmark, r.table),
    List.mem_append_right _ (List.mem_map.mpr ⟨r, hmem, rfl⟩), ?_⟩
  simp only [hmark, decide_true, Bool.true_and, decide_eq_true_eq]
  exact List.mem_append_right _ (List.mem_map.mpr ⟨r, hmem, rfl⟩)

-- The adapter is unplugged, and nothing is allocated any more.
def wiredBox : Kernel := ⟨[], [], [], [], systemRules, [⟨254, "default", some "eth1", 0⟩]⟩

def wiredRegistry : Registry ℚ := .observe .empty 0 [measuredDock]

def unplugging : List (Change ℚ) :=
  [.fast iproute2 ⟨some "usb:dock", false, [⟨"usb:dock", "Stable_besteffort", 256000⟩], []⟩
      wiredRegistry,
    .lost "eth1", .main [⟨254, "default", some "wlan1", 600⟩],
    .fast iproute2 ⟨none, false, [], []⟩ wiredRegistry]

theorem ordinary_unplugging : ∀ c ∈ unplugging, Ordinary (.ofLanMode "single") c := by
  have hnumbers : Numbers iproute2 := ⟨faithful_iproute2.fwmark, faithful_iproute2.table⟩
  have hports : ∀ a ∈ wiredRegistry.values, a.role = .lanOut → ∀ q ∈ profilesForLanMode "single",
      a.iface ≠ some (lanIfnameForProfile q "single" "wlan0") := by
    decide +kernel
  intro c hc
  simp only [unplugging, List.mem_cons, List.not_mem_nil, or_false] at hc
  rcases hc with rfl | rfl | rfl | rfl
  · refine ⟨hnumbers, fun share hshare _ => ?_, hports⟩
    obtain rfl := List.mem_singleton.mp hshare
    decide +kernel
  · trivial
  · trivial
  · exact ⟨hnumbers, fun _ hshare => absurd hshare List.not_mem_nil, hports⟩

end Steering

end Wifucked
