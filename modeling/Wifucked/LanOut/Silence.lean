import Wifucked.LanOut.Dhcp

/-!
# The pipeline over the tools of the host

Which tools a pipeline calls, and what it takes their silence for.
-/

namespace Wifucked

variable {K : Type}

inductive DhcpCall where
  | attemptClientLease (ifname : String)
  | passiveListen (argv : List String)
  | startServer (ifname : String) (subnetThirdOctet : Int) (gateway : String)
  deriving DecidableEq, Repr

structure DhcpTools where
  attempt : Except String (Option LinuxDhcp.DhcpLease)
  listen : List String → CommandEnd
  start : Except String Bool

namespace LanOutClassifier

open LinuxDhcp

def pipelineError (a : Atomic K) : ClassificationOutcome :=
  ⟨a.id, .wan, .unused, "classification_pipeline_error"⟩

def gatewayOf (c : LanOutClassifier K) (a : Atomic K) : String :=
  c.gatewayPrefix ++ "." ++ toString (subnetThirdOctet a.id c.baseThirdOctet) ++ ".1"

/-- `_run_pipeline` with the calls it makes, an error included. -/
def toolPipeline (c : LanOutClassifier K) (tools : DhcpTools) (a : Atomic K) :
    List DhcpCall × ClassificationOutcome :=
  match a.iface with
  | none => ([], ⟨a.id, .wan, .unused, "no_ifname_at_pipeline_start"⟩)
  | some ifname =>
    let attempted := [.attemptClientLease ifname]
    match tools.attempt with
    | .error _ => (attempted, pipelineError a)
    | .ok (some _) => (attempted, ⟨a.id, .wan, .normal, "dhcp_client_lease_obtained"⟩)
    | .ok none =>
      let listened := attempted ++ [.passiveListen (listenArgv ifname)]
      match passiveListenForForeignServer (tools.listen (listenArgv ifname)) with
      | .error _ => (listened, pipelineError a)
      | .ok true => (listened, ⟨a.id, .wan, .unused, "foreign_dhcp_server_heard_or_undetermined"⟩)
      | .ok false =>
        let third := subnetThirdOctet a.id c.baseThirdOctet
        let called := listened ++ [.startServer ifname third (c.gatewayOf a)]
        match tools.start with
        | .error _ => (called, pipelineError a)
        | .ok true => (called, ⟨a.id, .lanOut, .unused, "became_dhcp_server"⟩)
        | .ok false => (called, ⟨a.id, .wan, .unused, "dhcp_server_start_failed"⟩)

def endOf (tools : DhcpTools) (a : Atomic K) : PipelineEnd :=
  match a.iface with
  | none => .returned ⟨fun _ => false, fun _ => true, fun _ _ _ => false⟩
  | some ifname =>
    match tools.attempt with
    | .error _ => .raised
    | .ok (some _) => .returned ⟨fun _ => true, fun _ => true, fun _ _ _ => false⟩
    | .ok none =>
      match passiveListenForForeignServer (tools.listen (listenArgv ifname)) with
      | .error _ => .raised
      | .ok true => .returned ⟨fun _ => false, fun _ => true, fun _ _ _ => false⟩
      | .ok false =>
        match tools.start with
        | .error _ => .raised
        | .ok started => .returned ⟨fun _ => false, fun _ => false, fun _ _ _ => started⟩

theorem outcomeOf_endOf (c : LanOutClassifier K) (tools : DhcpTools) (a : Atomic K) :
    c.outcomeOf a (endOf tools a) = (c.toolPipeline tools a).2 := by
  unfold endOf toolPipeline
  cases hi : a.iface with
  | none => simp [outcomeOf, runPipeline, hi]
  | some ifname =>
    simp only
    rcases tools.attempt with _ | _ | lease
    · rfl
    · simp only
      rcases passiveListenForForeignServer (tools.listen (listenArgv ifname)) with _ | _ | _
      · rfl
      · simp only
        rcases tools.start with _ | _ | _
        · rfl
        · simp [outcomeOf, runPipeline, hi]
        · simp [outcomeOf, runPipeline, hi]
      · simp [outcomeOf, runPipeline, hi]
    · simp [outcomeOf, runPipeline, hi]

/-- `timeout` had to stop a capture that was still running, and the capture
shows no reply. -/
def Silent : CommandEnd → Prop
  | .finished returncode stdout stderr => returncode = 124 ∧ ¬ Heard stdout stderr
  | _ => False

/-- A server is started on proven silence only, and a port about which nothing
is proven is left inert. -/
structure ProvenSilence (c : LanOutClassifier K) (tools : DhcpTools) (a : Atomic K) : Prop where
  server : ∀ ifname octet gateway,
    .startServer ifname octet gateway ∈ (c.toolPipeline tools a).1 →
      tools.attempt = .ok none ∧ Silent (tools.listen (listenArgv ifname))
  inert : ∀ ifname, a.iface = some ifname → (∀ lease, tools.attempt ≠ .ok (some lease)) →
    ¬ Silent (tools.listen (listenArgv ifname)) →
      (c.toolPipeline tools a).2.role = .wan ∧ (c.toolPipeline tools a).2.mode = .unused

def EndedEarly : CommandEnd → Prop
  | .finished returncode stdout stderr => returncode ≠ 124 ∧ ¬ Heard stdout stderr
  | _ => False

theorem listen_eq_false {e : CommandEnd} :
    passiveListenForForeignServer e = .ok false ↔ Silent e ∨ EndedEarly e := by
  cases e with
  | notSpawned error => simp [passiveListenForForeignServer, Silent, EndedEarly]
  | timedOut => simp [passiveListenForForeignServer, Silent, EndedEarly]
  | raised error => simp [passiveListenForForeignServer, Silent, EndedEarly]
  | finished returncode stdout stderr =>
    simp only [passiveListenForForeignServer, Silent, EndedEarly, Except.ok.injEq,
      decide_eq_false_iff_not, ← or_and_right]
    exact ⟨fun h => ⟨eq_or_ne _ _, h⟩, fun h => h.2⟩

theorem startServer_mem_iff {c : LanOutClassifier K} {tools : DhcpTools} {a : Atomic K} :
    .startServer ifname octet gateway ∈ (c.toolPipeline tools a).1 ↔
      a.iface = some ifname ∧ octet = subnetThirdOctet a.id c.baseThirdOctet ∧
        gateway = c.gatewayOf a ∧ tools.attempt = .ok none ∧
        passiveListenForForeignServer (tools.listen (listenArgv ifname)) = .ok false := by
  unfold toolPipeline
  cases a.iface with
  | none => simp
  | some n =>
    simp only [Option.some.injEq]
    rcases tools.attempt with error | _ | lease
    · simp
    · by_cases hn : n = ifname
      · subst hn
        simp only [true_and]
        rcases passiveListenForForeignServer (tools.listen (listenArgv n)) with error | _ | _
        · simp
        · rcases tools.start with error | _ | _ <;> simp
        · simp
      · rcases passiveListenForForeignServer (tools.listen (listenArgv n)) with error | _ | _
        · simp [hn]
        · rcases tools.start with error | _ | _ <;> simp [hn, Ne.symm hn]
        · simp [hn]
    · simp

theorem inert_of_not_silent {c : LanOutClassifier K} {tools : DhcpTools} {a : Atomic K}
    (hi : a.iface = some ifname) (hlease : ∀ lease, tools.attempt ≠ .ok (some lease))
    (hl : passiveListenForForeignServer (tools.listen (listenArgv ifname)) ≠ .ok false ∨
      tools.attempt ≠ .ok none) :
    (c.toolPipeline tools a).2.role = .wan ∧ (c.toolPipeline tools a).2.mode = .unused := by
  unfold toolPipeline
  rw [hi]
  simp only
  rcases ha : tools.attempt with error | _ | lease
  · exact ⟨rfl, rfl⟩
  · simp only
    rcases hp : passiveListenForForeignServer (tools.listen (listenArgv ifname)) with error | _ | _
    · exact ⟨rfl, rfl⟩
    · exact (hl.elim (· hp) (· ha)).elim
    · exact ⟨rfl, rfl⟩
  · exact absurd ha (hlease lease)

/-- Serving without proof is a capture that ended before its time. -/
theorem provenSilence_iff (c : LanOutClassifier K) (tools : DhcpTools) (a : Atomic K) :
    c.ProvenSilence tools a ↔
      ∀ ifname, a.iface = some ifname → tools.attempt = .ok none →
        ¬ EndedEarly (tools.listen (listenArgv ifname)) := by
  constructor
  · intro h ifname hi ha hearly
    obtain ⟨-, hsilent⟩ := h.server _ _ _ (startServer_mem_iff.mpr
      ⟨hi, rfl, rfl, ha, listen_eq_false.mpr (.inr hearly)⟩)
    cases hl : tools.listen (listenArgv ifname) with
    | finished returncode stdout stderr =>
      rw [hl] at hsilent hearly
      exact hearly.1 hsilent.1
    | _ => rw [hl] at hearly; exact hearly
  · intro h
    refine ⟨fun ifname octet gateway hm => ?_, fun ifname hi hlease hsilent => ?_⟩
    · obtain ⟨hi, -, -, ha, hl⟩ := startServer_mem_iff.mp hm
      exact ⟨ha, (listen_eq_false.mp hl).resolve_right (h ifname hi ha)⟩
    · refine inert_of_not_silent hi hlease ?_
      by_cases ha : tools.attempt = .ok none
      · exact .inl fun hl => (listen_eq_false.mp hl).elim hsilent (h ifname hi ha)
      · exact .inr ha

def barePort : Atomic ℤ where
  id := "usbeth:1"
  kind := .usbEthernet
  label := "USB Ethernet"
  mode := .normal
  health := .good
  role := .wan
  capacity := ⟨0, 0, 0, none⟩
  quality := .unmeasured
  cost := ⟨false, 0, 0, 0, 0⟩
  ifname := some "eth1"
  present := true
  firstSeen := none
  lastSeen := none
  everConnected := true
  attributes := []

def noTcpdump : DhcpTools where
  attempt := .ok none
  listen _ := .finished 127 "" "timeout: failed to run command: No such file or directory"
  start := .ok true

theorem serves_without_tcpdump : ¬ (init "10.44" 0).ProvenSilence noTcpdump barePort := by
  intro h
  have hi : barePort.iface = some "eth1" := by decide
  have hearly : EndedEarly (noTcpdump.listen (listenArgv "eth1")) :=
    ⟨by decide, by decide +kernel⟩
  obtain ⟨-, hsilent⟩ := h.server _ _ _ (startServer_mem_iff.mpr
    ⟨hi, rfl, rfl, rfl, listen_eq_false.mpr (.inr hearly)⟩)
  exact hearly.1 hsilent.1

end LanOutClassifier

end Wifucked
