import Wifucked.Enforce.Fixpoint

/-!
# What a skipped application leaves out

A reading compares rates, routes and pairs of VLAN and mark. The device a
download is shaped on, the interface of each mark rule and the place of each
routing rule are not compared, so that what is read as the same stands in for
them and no command is issued.
-/

namespace Wifucked

/-- A cake of this class on the device, read as close to the rate; no rate is
no limit. -/
def Tools.HasCake (t : Tools) (k : Kernel) (dev : String) (bps : Int) (diffserv : String) : Prop :=
  ∃ q ∈ k.cakesOn dev, q.diffserv = diffserv ∧
    (bps = 0 ∧ q.bandwidth = none ∨ ∃ rate, t.rateOf q = some rate ∧ close rate bps = true)

/-- What shapes the downloads of an interface is in place. -/
structure Tools.Ingress (t : Tools) (k : Kernel) (s : Shaping) : Prop where
  cake : t.HasCake k (ifbForIfname s.ifname) s.downBps s.diffserv
  link : ⟨ifbForIfname s.ifname, true⟩ ∈ k.links
  qdisc : Qdisc.ingress s.ifname ∈ k.qdiscs
  redirect : ⟨s.ifname, redirectPrio, ifbForIfname s.ifname⟩ ∈ k.filters

def ruleOf (r : RouteRule) : IpRule := ⟨10000 + r.fwmark, some r.fwmark, r.table, []⟩

namespace LinuxEnforcer

/-- Everything that applying the state would put in place is in the kernel. -/
structure Installed (e : LinuxEnforcer) (t : Tools) (k : Kernel) (desired : DesiredState) :
    Prop where
  egress : ∀ s ∈ desired.shaping, t.HasCake k s.ifname s.upBps s.diffserv
  ingress : ∀ s ∈ desired.shaping, t.Ingress k s
  marks : ∀ m ∈ e.nftRuleset desired.lanOutMarks, markRule m.1 m.2 ∈ k.nft
  rules : ∀ r ∈ desired.routes, ruleOf r ∈ k.ipRules
  routes : ∀ r ∈ desired.routes, k.defaultDev r.table = some r.ifname

/-- The rule of a mark is missing, and its pair is not compared or is read of another one. -/
def MarkMasked (k : Kernel) (desired : DesiredState) (m : String × Int) : Prop :=
  markRule m.1 m.2 ∉ k.nft ∧ ∀ pair ∈ desired.marks, (markRule m.1 m.2).mark = some pair →
    ∃ rule ∈ k.nft, rule.mark = some pair

/-- A routing rule is missing, and one of another place or with further selectors is
read as it. -/
def RuleMasked (t : Tools) (k : Kernel) (r : RouteRule) : Prop :=
  ruleOf r ∉ k.ipRules ∧ ∃ rule ∈ k.ipRules,
    parseInt (t.ruleEntry rule).fwmark = some r.fwmark ∧
      parseInt (t.ruleEntry rule).table = some r.table

/-- The shaping of downloads is not all there, and the rate of its device is. -/
def IngressMasked (t : Tools) (k : Kernel) (s : Shaping) : Prop :=
  ¬t.Ingress k s ∧
    close ((t.cakeReport k (ifbForIfname s.ifname)).elim 0 (·.1)) s.downBps = true

/-- Nothing in the kernel stands in for a piece that is missing. -/
structure Unmasked (e : LinuxEnforcer) (t : Tools) (k : Kernel) (desired : DesiredState) :
    Prop where
  marks : ∀ m ∈ e.nftRuleset desired.lanOutMarks, ¬MarkMasked k desired m
  rules : ∀ r ∈ desired.routes, ¬RuleMasked t k r
  ingress : ∀ s ∈ desired.shaping, ¬IngressMasked t k s

variable {e : LinuxEnforcer} {t : Tools} {k : Kernel} {desired : DesiredState}

theorem hasCake_of_cakeReport (h : t.cakeReport k dev = some (rate, diffserv))
    (hclose : close rate bps = true) : t.HasCake k dev bps diffserv := by
  unfold Tools.cakeReport at h
  split at h
  · cases h
  · obtain ⟨q, hq, hread⟩ := List.mem_filterMap.mp (List.mem_of_getLast? h)
    obtain ⟨rate', hrate, he⟩ := Option.map_eq_some_iff.mp hread
    obtain ⟨rfl, rfl⟩ := Prod.mk.inj he
    exact ⟨q, hq, rfl, .inr ⟨_, hrate, hclose⟩⟩

/-- Where all that is compared is read as it should be, the pieces are in place
exactly where nothing stands in for one. -/
theorem installed_iff (h : t.Seen k desired) :
    e.Installed t k desired ↔ e.Unmasked t k desired := by
  constructor
  · intro hi
    exact ⟨fun m hm hmasked => hmasked.1 (hi.marks m hm),
      fun r hr hmasked => hmasked.1 (hi.rules r hr),
      fun s hs hmasked => hmasked.1 (hi.ingress s hs)⟩
  · intro hu
    refine ⟨fun s hs => ?_, fun s hs => ?_, fun m hm => ?_, fun r hr => ?_,
      fun r hr => (h.routes r hr).2.2.2⟩
    · obtain ⟨-, ⟨upBps, hreport, hclose⟩, -⟩ := h.shaping s hs
      exact hasCake_of_cakeReport hreport hclose
    · by_contra hmissing
      exact hu.ingress s hs ⟨hmissing, (h.shaping s hs).2.2⟩
    · by_contra hmissing
      refine hu.marks m hm ⟨hmissing, fun pair hpair _ => ?_⟩
      exact (h.marks pair hpair).2
    · by_contra hmissing
      exact hu.rules r hr ⟨hmissing, (h.routes r hr).2.2.1⟩

end LinuxEnforcer

structure MockEnforcer where
  applied : List DesiredState
  actual : Option DesiredState

def MockEnforcer.reconcile (e : MockEnforcer) (desired : DesiredState) : MockEnforcer :=
  if e.actual = some desired then e else ⟨e.applied ++ [desired], some desired⟩

def portsState (ports : List String) : DesiredState :=
  ⟨[], [], [(10, 10), (20, 20)], ports.map fun ifname => (ifname, 20)⟩

end Wifucked
