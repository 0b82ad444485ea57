import Wifucked.Lib.Sha256
import Wifucked.Allocator

/-!
# Rendering an allocation into desired kernel state

Client traffic is marked by the interface it arrives on, and every mark is
routed at the tunnel. A connection only decides whether its routing table and
its shaping exist.
-/

namespace Wifucked

variable {K : Type}

def tableBase : Int := 100
def tableSpan : Int := 900

def tableForAtomic (atomicId : String) : Int := tableBase + Sha256.ofString atomicId % tableSpan

structure Shaping where
  ifname : String
  downBps : Int
  upBps : Int
  diffserv : String
  deriving DecidableEq, Repr

structure RouteRule where
  fwmark : Int
  table : Int
  ifname : String
  deriving DecidableEq, Repr

structure DesiredState where
  shaping : List Shaping
  routes : List RouteRule
  /-- Pairs of a VLAN and a mark. -/
  marks : List (Int × Int)
  /-- Pairs of an interface and a mark. -/
  lanOutMarks : List (String × Int)
  deriving DecidableEq, Repr

/-- `ValueError`: the allocator's contract was violated for this connection. -/
structure QuiescedAndShared where
  atomicId : String
  deriving DecidableEq, Repr

def RouteRule.sortKey (r : RouteRule) : Int ×ₗ String := toLex (r.fwmark, r.ifname)

/-- The ports that serve DHCP outward, each with the best-effort mark. -/
def renderLanOutMarks (atomics : List (Atomic K)) : List (String × Int) :=
  let ports := atomics.filterMap fun a =>
    if a.role = .lanOut && a.present then a.iface.map fun ifname => (ifname, bestEffort.vlan)
    else none
  ports.dedup.insertionSort fun p q => toLex p ≤ toLex q

def renderMarks (profiles : List ServiceProfile) (lanOutMarks : List (String × Int)) :
    List (Int × Int) :=
  let marks := profiles.map fun p => (p.vlan, p.vlan)
  let marks := if lanOutMarks ≠ [] then marks ++ [(bestEffort.vlan, bestEffort.vlan)] else marks
  marks.dedup.insertionSort fun p q => toLex p ≤ toLex q

/-- The route one share asks for; a share of nothing asks for none. -/
def routeForShare (byId : Registry K) (profiles : List ServiceProfile) (tunnelIfname : String)
    (share : Share) : Option RouteRule :=
  if share.ceilingBps = 0 then none
  else
    match (byId.get? share.atomicId).bind (·.iface) with
    | none => none
    | some _ =>
      (profiles.find? fun p => p.name = share.profileName).map fun profile =>
        ⟨profile.vlan, tableForAtomic share.atomicId, tunnelIfname⟩

/-- The shaping of a connection: slightly under what it was measured at, so
that the queue stands here. -/
def shapingForAtomic [Zero K] [LT K] [DecidableLT K] (byId : Registry K) (atomicId : String) :
    Option Shaping :=
  match byId.get? atomicId with
  | none => none
  | some atomic =>
    if atomic.capacity.known then
      atomic.iface.map fun ifname =>
        { ifname := ifname
          downBps := (atomic.capacity.downBps * 95).tdiv 100
          upBps := (atomic.capacity.upBps * 95).tdiv 100
          diffserv := "diffserv4" }
    else none

def render [Zero K] [LT K] [DecidableLT K] (allocation : Allocation) (byId : Registry K)
    (profiles : List ServiceProfile) (tunnelIfname : String) :
    Except QuiescedAndShared DesiredState :=
  let lanOutMarks := renderLanOutMarks byId.values
  match allocation.shares.find? fun s => s.ceilingBps ≠ 0 && s.atomicId ∈ allocation.quiesced with
  | some s => .error ⟨s.atomicId⟩
  | none =>
    let routes := allocation.shares.filterMap (routeForShare byId profiles tunnelIfname)
    let shaping := (allocation.shares.map (·.atomicId)).dedup.filterMap (shapingForAtomic byId)
    .ok
      { shaping := shaping.insertionSort fun s t => s.ifname ≤ t.ifname
        routes := routes.dedup.insertionSort fun r s => r.sortKey ≤ s.sortKey
        marks := renderMarks profiles lanOutMarks
        lanOutMarks := lanOutMarks }

theorem ifname_of_routeForShare {byId : Registry K} {profiles : List ServiceProfile}
    {tunnelIfname : String} (h : routeForShare byId profiles tunnelIfname share = some r) :
    r.ifname = tunnelIfname := by
  unfold routeForShare at h
  split at h
  · cases h
  · split at h
    · cases h
    · obtain ⟨p, -, rfl⟩ := Option.map_eq_some_iff.mp h
      rfl

section

variable [Zero K] [LT K] [DecidableLT K] {allocation : Allocation} {byId : Registry K}
  {profiles : List ServiceProfile} {tunnelIfname : String}

theorem render_ok (h : ∀ s ∈ allocation.shares, s.atomicId ∉ allocation.quiesced) :
    ∃ desired, render allocation byId profiles tunnelIfname = .ok desired := by
  have hnone : (allocation.shares.find? fun s =>
      s.ceilingBps ≠ 0 && s.atomicId ∈ allocation.quiesced) = none := by
    rw [List.find?_eq_none]
    intro s hs
    simp [h s hs]
  simp only [render, hnone]
  exact ⟨_, rfl⟩

theorem render_eq_ok (h : render allocation byId profiles tunnelIfname = .ok desired) :
    desired.lanOutMarks = renderLanOutMarks byId.values ∧
      desired.marks = renderMarks profiles (renderLanOutMarks byId.values) ∧
      (∀ r, r ∈ desired.routes ↔
        ∃ s ∈ allocation.shares, routeForShare byId profiles tunnelIfname s = some r) ∧
      ∀ s, s ∈ desired.shaping ↔
        ∃ share ∈ allocation.shares, shapingForAtomic byId share.atomicId = some s := by
  simp only [render] at h
  split at h
  · cases h
  · obtain rfl := Except.ok.inj h
    refine ⟨rfl, rfl, fun r => ?_, fun s => ?_⟩
    · rw [(List.perm_insertionSort _ _).mem_iff, List.mem_dedup, List.mem_filterMap]
    · rw [(List.perm_insertionSort _ _).mem_iff, List.mem_filterMap]
      simp

end

end Wifucked
