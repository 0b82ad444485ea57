import Wifucked.Daemon
import Wifucked.LanOut.Silence

/-!
# Wired ports, the threads that classify them, and the host

The daemon beside the threads of its pipelines, the ports that are plugged in,
and the host that pipelines act on. A thread makes its calls one at a time, and
anything may come between two of them; the loop thread collects outcomes and
applies them one by one before it goes on.
-/

namespace Wifucked

variable {K : Type}

-- ---------------------------------------------------------------------------
-- The calls of a pipeline
-- ---------------------------------------------------------------------------

namespace LinuxDhcp

/-- The two commands of `_read_lease`. -/
structure ReadEnds where
  addr : Shown Unit
  route : Shown (List (Option String))

structure LeaseEnds where
  first : ReadEnds
  dhclient : CommandEnd
  /-- The address that `dhclient` put on the interface. -/
  offered : Option String
  second : ReadEnds

def Host.infos (h : Host) (ifname : String) : List AddrInfo :=
  (h.addrs.filter fun a => a.ifname = ifname).map fun a => ⟨some "inet", some a.localAddr⟩

def Host.readLease (h : Host) (ifname : String) (ends : ReadEnds) :
    Except String (Option DhcpLease) :=
  LinuxDhcp.readLease
    (match ends.addr with
      | .failed => .failed
      | .undecodable => .undecodable
      | .raised error => .raised error
      | .shown () => .shown (h.infos ifname)) ends.route

/-- `dhclient` runs only on an interface without an address. -/
def Host.solicit (h : Host) (ifname : String) (ends : LeaseEnds) : Host :=
  match h.readLease ifname ends.first, ends.offered with
  | .ok none, some offered => { h with addrs := h.addrs ++ [⟨ifname, offered, false⟩] }
  | _, _ => h

def Host.attemptClientLease (h : Host) (ifname : String) (ends : LeaseEnds) :
    Except String (Option DhcpLease) :=
  LinuxDhcp.attemptClientLease (h.readLease ifname ends.first) ends.dhclient
    ((h.solicit ifname ends).readLease ifname ends.second)

end LinuxDhcp

inductive Verdict where
  | raised
  | leased
  | heard
  | served (started : Bool)
  deriving DecidableEq, Repr

/-- What the pipeline found its tools to be. -/
def Verdict.toEnd : Verdict → PipelineEnd
  | .raised => .raised
  | .leased => .returned ⟨fun _ => true, fun _ => true, fun _ _ _ => false⟩
  | .heard => .returned ⟨fun _ => false, fun _ => true, fun _ _ _ => false⟩
  | .served started => .returned ⟨fun _ => false, fun _ => false, fun _ _ _ => started⟩

/-- The call a pipeline makes next; the last three are those of `start_server`. -/
inductive Stage where
  | leasing
  | listening
  | writing
  | addressing
  | reloading
  | ended (verdict : Verdict)
  deriving DecidableEq, Repr

inductive Answer where
  | lease (ends : LinuxDhcp.LeaseEnds)
  | listen (ends : CommandEnd)
  | write (ends : LinuxDhcp.WriteEnd)
  | add (ends : LinuxDhcp.Applied)
  | reload (ends : LinuxDhcp.ReloadEnd)

/-- A pipeline on its thread, with the atomic as it was submitted. -/
structure Thread (K : Type) where
  atomic : Atomic K
  ifname : String
  named : atomic.iface = some ifname
  stage : Stage
  /-- The time its port was plugged in when the pipeline was begun, if it was. -/
  begun : Option ℕ
  /-- Once the lease was attempted, the time its port was then plugged in. -/
  attempted : Option (Option ℕ)
  listened : Option (Option ℕ)

namespace Thread

open LinuxDhcp

abbrev id (t : Thread K) : String := t.atomic.id

def start? (begun : Option ℕ) (a : Atomic K) : Option (Thread K) :=
  match h : a.iface with
  | none => none
  | some ifname => some ⟨a, ifname, h, .leasing, begun, none, none⟩

def verdict (t : Thread K) : Option Verdict :=
  match t.stage with
  | .ended verdict => some verdict
  | _ => none

def leased : Except String (Option DhcpLease) → Stage
  | .error _ => .ended .raised
  | .ok none => .listening
  | .ok (some _) => .ended .leased

def heard : Except String Bool → Stage
  | .error _ => .ended .raised
  | .ok true => .ended .heard
  | .ok false => .writing

def wrote : WriteEnd → Stage
  | .ok => .addressing
  | .failed _ => .ended (.served false)

def added (ends : Applied) : Stage := if ends.raised then .ended .raised else .reloading

def reloaded (ends : ReloadEnd) : Stage :=
  match ends.command.run with
  | .error _ => .ended .raised
  | .ok output => .ended (.served output.isSome)

/-- One call, while its port is plugged in for the time `period`. An answer to
another call than the one it makes is none. -/
def advance (gateway : String) (period : Option ℕ) (h : Host) (t : Thread K) :
    Answer → Host × Thread K
  | .lease ends =>
    if t.stage = .leasing then
      (h.solicit t.ifname ends,
        { t with attempted := some period, stage := leased (h.attemptClientLease t.ifname ends) })
    else (h, t)
  | .listen ends =>
    if t.stage = .listening then
      (h, { t with listened := some period, stage := heard (passiveListenForForeignServer ends) })
    else (h, t)
  | .write ends =>
    if t.stage = .writing then
      (h.writeDropin t.ifname gateway ends, { t with stage := wrote ends })
    else (h, t)
  | .add ends =>
    if t.stage = .addressing then
      (h.addAddress t.ifname gateway ends, { t with stage := added ends })
    else (h, t)
  | .reload ends =>
    if t.stage = .reloading then
      (h.reload ends.applied, { t with stage := reloaded ends })
    else (h, t)

inductive Called (gateway : String) (period : Option ℕ) (h : Host) (t : Thread K) :
    Answer → Host → Thread K → Prop where
  | idle : Called gateway period h t answer h t
  | lease : t.stage = .leasing →
    Called gateway period h t (.lease ends) (h.solicit t.ifname ends)
      { t with attempted := some period, stage := leased (h.attemptClientLease t.ifname ends) }
  | listen : t.stage = .listening →
    Called gateway period h t (.listen ends) h
      { t with listened := some period, stage := heard (passiveListenForForeignServer ends) }
  | write : t.stage = .writing →
    Called gateway period h t (.write ends) (h.writeDropin t.ifname gateway ends)
      { t with stage := wrote ends }
  | add : t.stage = .addressing →
    Called gateway period h t (.add ends) (h.addAddress t.ifname gateway ends)
      { t with stage := added ends }
  | reload : t.stage = .reloading →
    Called gateway period h t (.reload ends) (h.reload ends.applied)
      { t with stage := reloaded ends }

theorem advance_called (gateway : String) (period : Option ℕ) (h : Host) (t : Thread K)
    (answer : Answer) : Called gateway period h t answer (t.advance gateway period h answer).1
      (t.advance gateway period h answer).2 := by
  cases answer with
  | lease ends =>
    simp only [advance]
    split
    · rename_i hs; exact .lease hs
    · exact .idle
  | listen ends =>
    simp only [advance]
    split
    · rename_i hs; exact .listen hs
    · exact .idle
  | write ends =>
    simp only [advance]
    split
    · rename_i hs; exact .write hs
    · exact .idle
  | add ends =>
    simp only [advance]
    split
    · rename_i hs; exact .add hs
    · exact .idle
  | reload ends =>
    simp only [advance]
    split
    · rename_i hs; exact .reload hs
    · exact .idle

theorem Called.atomic {t t' : Thread K} (hc : Called gateway period h t answer h' t') :
    t'.atomic = t.atomic := by
  cases hc <;> rfl

theorem Called.begun_eq {t t' : Thread K} (hc : Called gateway period h t answer h' t') :
    t'.begun = t.begun := by
  cases hc <;> rfl

theorem Called.ifname {t t' : Thread K} (hc : Called gateway period h t answer h' t') :
    t'.ifname = t.ifname := by
  cases hc <;> rfl

def startAnswers (ends : StartEnds) : List Answer :=
  [.write ends.write, .add ends.add, .reload ends.reload]

theorem advance_startServer (gateway : String) (period : Option ℕ) (h : Host) (t : Thread K)
    (hs : t.stage = .writing) (ends : StartEnds) :
    ((startAnswers ends).foldl (fun p => p.2.advance gateway period p.1) (h, t)).1 =
        (startServer h t.ifname gateway ends).1 ∧
      ((startAnswers ends).foldl (fun p => p.2.advance gateway period p.1) (h, t)).2.stage =
        .ended (match (startServer h t.ifname gateway ends).2 with
          | .error _ => .raised
          | .ok started => .served started) := by
  obtain ⟨write, add, reload⟩ := ends
  cases write with
  | failed written => simp [startAnswers, advance, hs, startServer, wrote]
  | ok =>
    obtain ⟨applied, raised⟩ := add
    cases raised with
    | true => simp [startAnswers, advance, hs, startServer, wrote, added]
    | false =>
      cases hr : reload.command.run with
      | error e => simp [startAnswers, advance, hs, startServer, wrote, added, reloaded, hr]; rfl
      | ok o => simp [startAnswers, advance, hs, startServer, wrote, added, reloaded, hr]; rfl

end Thread

-- ---------------------------------------------------------------------------
-- The classifier's turns
-- ---------------------------------------------------------------------------

namespace LanOutClassifier

def starts (c : LanOutClassifier K) (a : Atomic K) : Bool :=
  isCandidate a && a.id ∉ (c.submit a).decided && (c.inFlight.get? a.id).isNone

theorem inFlight_submit (c : LanOutClassifier K) (a : Atomic K) :
    (c.submit a).inFlight = if c.starts a then c.inFlight.put a else c.inFlight := rfl

theorem outcome_atomicId (c : LanOutClassifier K) (a : Atomic K) (e : PipelineEnd) :
    (c.outcomeOf a e).atomicId = a.id := by
  cases e with
  | returned dhcp => exact c.runPipeline_atomicId dhcp a
  | raised => rfl

theorem outcome_role (c : LanOutClassifier K) (t : Thread K) (v : Verdict) :
    (c.outcomeOf t.atomic v.toEnd).role = .lanOut ↔ v = .served true := by
  cases v with
  | raised => simp [outcomeOf, Verdict.toEnd]
  | leased => simp [outcomeOf, Verdict.toEnd, runPipeline, t.named]
  | heard => simp [outcomeOf, Verdict.toEnd, runPipeline, t.named]
  | served started => cases started <;> simp [outcomeOf, Verdict.toEnd, runPipeline, t.named]

end LanOutClassifier

-- ---------------------------------------------------------------------------
-- The appliance
-- ---------------------------------------------------------------------------

/-- A port that is plugged in, which may be at any time, and for which time. -/
structure Plugged where
  id : String
  ifname : String
  period : ℕ
  deriving DecidableEq

structure Appliance (K : Type) where
  daemon : Daemon K
  threads : List (Thread K)
  /-- The threads whose outcomes are still to be applied. -/
  collected : List (Thread K)
  plugged : Keyed Plugged Plugged.id
  periods : ℕ
  host : LinuxDhcp.Host
  /-- The interfaces on which `start_server` succeeded since they appeared. -/
  served : List String
  /-- The wired ports seen absent since a pipeline was last started for them. -/
  owed : List String

inductive Happening (K : Type) where
  /-- What the daemon does besides classifying ports. -/
  | act (e : Event K)
  | submit
  /-- Some of the threads that have ended are seen to have. -/
  | harvest (done : String → Bool)
  | apply (r : Reading K)
  | call (k : ℕ) (answer : Answer)
  | plug (id ifname : String)
  | unplug (id : String)
  | rename (id ifname : String)
  | restart (r : Reading K)
  /-- Of the whole device: ports are plugged in anew. -/
  | reboot (r : Reading K)

namespace LinuxDhcp

/-- The addresses of an interface go with it. -/
def Host.unplug (h : Host) (ifname : String) : Host :=
  { h with addrs := h.addrs.filter fun a => a.ifname ≠ ifname }

def Host.rename (h : Host) (ifname new : String) : Host :=
  { h with addrs := h.addrs.map fun a => if a.ifname = ifname then { a with ifname := new } else a }

/-- What is on disk is all that is left, and `dnsmasq` starts on it. -/
def Host.reboot (h : Host) : Host := { h with addrs := [], loaded := h.dropins.values }

end LinuxDhcp

namespace Appliance

variable [Field K] [LinearOrder K] [FloorRing K] [HalfPow K]

def init (config : Config K) (file : Option (StateFile K)) (r : Reading K) : Appliance K where
  daemon := .init config file r
  threads := []
  collected := []
  plugged := .empty
  periods := 0
  host := ⟨.empty, [], []⟩
  served := []
  owed := []

section

omit [Field K] [LinearOrder K] [FloorRing K] [HalfPow K]

def gateway (s : Appliance K) (id : String) : String :=
  s.daemon.config.gatewayPrefix ++ "." ++
    toString (subnetThirdOctet id s.daemon.config.baseThirdOctet) ++ ".1"

def period (s : Appliance K) (id : String) : Option ℕ := (s.plugged.get? id).map (·.period)

def ifname (s : Appliance K) (id : String) : Option String := (s.plugged.get? id).map (·.ifname)

/-- The loop thread is done with the outcomes it collected. -/
def free (s : Appliance K) : Bool := s.daemon.outcomes.isEmpty

/-- What may happen now: a user's call always, anything else on the loop
thread once it is free. -/
def may (s : Appliance K) (e : Event K) : Bool :=
  match e.action with
  | .consider _ | .applyOutcome | .restart => false
  | .setMode .. => true
  | _ => s.free

def submitOne (s : Appliance K) (a : Atomic K) : Appliance K :=
  match s.daemon.lanOutClassifier with
  | none => s
  | some c =>
    { s with
      daemon := { s.daemon with lanOutClassifier := some (c.submit a) }
      threads :=
        if c.starts a then s.threads ++ (Thread.start? (s.period a.id) a).toList else s.threads
      owed :=
        if c.starts a then s.owed.filter (· ≠ a.id)
        else if !a.present && a.kind ∈ candidateKinds then a.id :: s.owed
        else s.owed }

def submit (s : Appliance K) : Appliance K := s.daemon.registry.all.foldl submitOne s

def ended (s : Appliance K) (done : String → Bool) (id : String) : Option Verdict :=
  if done id then (s.threads.find? fun t => t.id = id).bind (·.verdict) else none

def harvest (s : Appliance K) (done : String → Bool) : Appliance K :=
  match s.daemon.lanOutClassifier with
  | none => s
  | some c =>
    let (c, outcomes) := c.harvest fun id => (s.ended done id).map (·.toEnd)
    { s with
      daemon := { s.daemon with
        lanOutClassifier := some c
        outcomes := s.daemon.outcomes ++ outcomes }
      threads := s.threads.filter fun t => (s.ended done t.id).isNone
      collected := s.collected ++ s.threads.filter fun t => (s.ended done t.id).isSome }

def call (s : Appliance K) (k : ℕ) (answer : Answer) : Appliance K :=
  match s.threads[k]? with
  | none => s
  | some t =>
    let (host, t') := t.advance (s.gateway t.id) (s.period t.id) s.host answer
    { s with
      threads := s.threads.set k t'
      host := host
      served :=
        if t.stage = .reloading ∧ t'.stage = .ended (.served true) then t.ifname :: s.served
        else s.served }

def plug (s : Appliance K) (id ifname : String) : Appliance K :=
  if (s.plugged.get? id).isSome ∨ ∃ p ∈ s.plugged.values, p.ifname = ifname then s
  else { s with plugged := s.plugged.put ⟨id, ifname, s.periods⟩, periods := s.periods + 1 }

def unplug (s : Appliance K) (id : String) : Appliance K :=
  match s.plugged.get? id with
  | none => s
  | some p =>
    { s with
      plugged := s.plugged.filter (·.id ≠ id)
      host := s.host.unplug p.ifname
      served := s.served.filter (· ≠ p.ifname) }

def rename (s : Appliance K) (id new : String) : Appliance K :=
  match s.plugged.get? id with
  | none => s
  | some p =>
    if ∃ q ∈ s.plugged.values, q.ifname = new then s
    else
      { s with
        plugged := s.plugged.modify id fun p => { p with ifname := new }
        host := s.host.rename p.ifname new
        served := s.served.filter (· ≠ p.ifname) }

end

def restart (s : Appliance K) (r : Reading K) : Appliance K :=
  { s with daemon := s.daemon.restart r, threads := [], collected := [] }

def reboot (s : Appliance K) (r : Reading K) : Appliance K :=
  { s.restart r with plugged := .empty, host := s.host.reboot, served := [] }

def step (s : Appliance K) : Happening K → Appliance K
  | .act e => if s.may e then { s with daemon := s.daemon.step e } else s
  | .submit => if s.free then s.submit else s
  | .harvest done => if s.free then s.harvest done else s
  | .apply r => { s with daemon := s.daemon.applyOutcome r, collected := s.collected.tail }
  | .call k answer => s.call k answer
  | .plug id ifname => s.plug id ifname
  | .unplug id => s.unplug id
  | .rename id ifname => s.rename id ifname
  | .restart r => s.restart r
  | .reboot r => s.reboot r

end Appliance

end Wifucked
