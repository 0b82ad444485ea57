import Wifucked.Lib.Keyed
import Wifucked.Lib.Sha256
import Wifucked.Atomics.Model

/-!
# Wired ports: DHCP client, passive listener, or DHCP server

Each new wired port is put through a pipeline on a thread of its own. The
classifier starts pipelines and collects the outcomes of those that have
ended; what a pipeline finds is decided by the network on the other end.
-/

namespace Wifucked

variable {K : Type}

def candidateKinds : List Kind := [.usbEthernet, .ethernet]

structure ClassificationOutcome where
  atomicId : String
  role : PortRole
  mode : Mode
  reason : String
  deriving DecidableEq, Repr

def subnetOffset : Int := 50
def subnetSpan : Int := 150

def subnetThirdOctet (atomicId : String) (baseThirdOctet : Int) : Int :=
  min 255 (baseThirdOctet + (subnetOffset + Sha256.ofString ("lanout:" ++ atomicId) % subnetSpan))

def isCandidate (a : Atomic K) : Bool :=
  a.present && a.role = .wan && a.kind ∈ candidateKinds && a.health = .good && a.iface.isSome

structure DhcpHal where
  /-- Whether a client lease was obtained. -/
  attemptClientLease : String → Bool
  passiveListenForForeignServer : String → Bool
  startServer : String → Int → String → Bool

inductive PipelineEnd where
  | returned (dhcp : DhcpHal)
  | raised

/-- A dictionary of futures keeps the atomic each was submitted with. -/
structure LanOutClassifier (K : Type) where
  gatewayPrefix : String
  baseThirdOctet : Int
  inFlight : Keyed (Atomic K) Atomic.id
  decided : List String
  wasPresent : Keyed (String × Bool) Prod.fst

namespace LanOutClassifier

def init (gatewayPrefix : String) (baseThirdOctet : Int) : LanOutClassifier K where
  gatewayPrefix := gatewayPrefix
  baseThirdOctet := baseThirdOctet
  inFlight := .empty
  decided := []
  wasPresent := .empty

def runPipeline (c : LanOutClassifier K) (dhcp : DhcpHal) (a : Atomic K) : ClassificationOutcome :=
  match a.iface with
  | none => ⟨a.id, .wan, .unused, "no_ifname_at_pipeline_start"⟩
  | some ifname =>
    if dhcp.attemptClientLease ifname then
      ⟨a.id, .wan, .normal, "dhcp_client_lease_obtained"⟩
    else if dhcp.passiveListenForForeignServer ifname then
      ⟨a.id, .wan, .unused, "foreign_dhcp_server_heard_or_undetermined"⟩
    else
      let thirdOctet := subnetThirdOctet a.id c.baseThirdOctet
      let gateway := c.gatewayPrefix ++ "." ++ toString thirdOctet ++ ".1"
      if dhcp.startServer ifname thirdOctet gateway then
        ⟨a.id, .lanOut, .unused, "became_dhcp_server"⟩
      else ⟨a.id, .wan, .unused, "dhcp_server_start_failed"⟩

def outcomeOf (c : LanOutClassifier K) (a : Atomic K) : PipelineEnd → ClassificationOutcome
  | .returned dhcp => c.runPipeline dhcp a
  | .raised => ⟨a.id, .wan, .unused, "classification_pipeline_error"⟩

/-- One turn of the loop that submits pipelines. -/
def submit (c : LanOutClassifier K) (a : Atomic K) : LanOutClassifier K :=
  let wasPresent := (c.wasPresent.get? a.id).any (·.2)
  let decided := if !wasPresent && a.present then c.decided.filter (· ≠ a.id) else c.decided
  { c with
    wasPresent := c.wasPresent.put (a.id, a.present)
    decided := decided
    inFlight :=
      if isCandidate a && a.id ∉ decided && (c.inFlight.get? a.id).isNone then c.inFlight.put a
      else c.inFlight }

/-- Collect the pipelines that have ended, in the order they were submitted. -/
def harvest (c : LanOutClassifier K) (ended : String → Option PipelineEnd) :
    LanOutClassifier K × List ClassificationOutcome :=
  let finished := c.inFlight.values.filterMap fun a => (ended a.id).map fun e => (a, e)
  ({ c with
      inFlight := c.inFlight.filter fun a => (ended a.id).isNone
      decided := finished.map (·.1.id) ++ c.decided },
    finished.map fun o => c.outcomeOf o.1 o.2)

def consider (c : LanOutClassifier K) (atomics : List (Atomic K))
    (ended : String → Option PipelineEnd) : LanOutClassifier K × List ClassificationOutcome :=
  (atomics.foldl submit c).harvest ended

theorem runPipeline_atomicId (c : LanOutClassifier K) (dhcp : DhcpHal) (a : Atomic K) :
    (c.runPipeline dhcp a).atomicId = a.id := by
  unfold runPipeline
  cases a.iface with
  | none => rfl
  | some ifname =>
    simp only
    split
    · rfl
    · split
      · rfl
      · split <;> rfl

end LanOutClassifier

end Wifucked
