import Wifucked.LanOut

/-!
# The DHCP tools of a Linux host

What `dhclient`, `tcpdump` and `dnsmasq` are asked, how their answers are
read, and what the start of a server leaves on the host. A tool's answer is
given with the effect it had.
-/

namespace Wifucked

/-- What `subprocess.run` came to. An error other than a missing tool or a
timeout is caught by nobody here. -/
inductive CommandEnd where
  | notSpawned (error : String)
  | timedOut
  | raised (error : String)
  | finished (returncode : Int) (stdout stderr : String)
  deriving DecidableEq, Repr

/-- `_run`, which reports no output of a command that failed. -/
def CommandEnd.run : CommandEnd → Except String (Option String)
  | .notSpawned _ | .timedOut => .ok none
  | .raised error => .error error
  | .finished returncode stdout _ => .ok (if returncode = 0 then some stdout else none)

namespace LinuxDhcp

-- ---------------------------------------------------------------------------
-- Leases
-- ---------------------------------------------------------------------------

structure DhcpLease where
  ip : String
  gateway : Option String
  deriving DecidableEq, Repr

structure AddrInfo where
  family : Option String
  localAddr : Option String
  deriving DecidableEq, Repr

/-- What `ip -j` came to. -/
inductive Shown (α : Type) where
  | failed
  | undecodable
  | raised (error : String)
  | shown (value : α)

def readLease (addr : Shown (List AddrInfo)) (route : Shown (List (Option String))) :
    Except String (Option DhcpLease) :=
  match addr with
  | .raised error => .error error
  | .failed | .undecodable => .ok none
  | .shown infos =>
    let inet := infos.filter fun info => info.family = some "inet"
    match (inet.getLast?.bind (·.localAddr)).filter (· ≠ "") with
    | none => .ok none
    | some ip =>
      match route with
      | .raised error => .error error
      | .failed | .undecodable => .ok (some ⟨ip, none⟩)
      | .shown routes => .ok (some ⟨ip, routes.head?.join⟩)

/-- An address that is there already counts as a lease. -/
def attemptClientLease (existing : Except String (Option DhcpLease)) (dhclient : CommandEnd)
    (obtained : Except String (Option DhcpLease)) : Except String (Option DhcpLease) :=
  match existing with
  | .error error => .error error
  | .ok (some lease) => .ok (some lease)
  | .ok none =>
    match dhclient.run with
    | .error error => .error error
    | .ok none => .ok none
    | .ok (some _) => obtained

-- ---------------------------------------------------------------------------
-- Listening
-- ---------------------------------------------------------------------------

def passiveListenTimeoutS : Int := 15

def listenArgv (ifname : String) : List String :=
  ["timeout", toString (max 1 passiveListenTimeoutS), "tcpdump", "-i", ifname, "-n", "-l", "-v",
    "udp", "and", "(port", "67", "or", "port", "68)"]

def reply : String := "BOOTP/DHCP, Reply"

def Heard (stdout stderr : String) : Prop := reply.toList <:+: (stdout ++ stderr).toList

instance (stdout stderr : String) : Decidable (Heard stdout stderr) :=
  inferInstanceAs (Decidable (reply.toList <:+: (stdout ++ stderr).toList))

def passiveListenForForeignServer : CommandEnd → Except String Bool
  | .notSpawned _ | .timedOut => .ok true
  | .raised error => .error error
  | .finished _ stdout stderr => .ok (Heard stdout stderr)

-- ---------------------------------------------------------------------------
-- Serving
-- ---------------------------------------------------------------------------

def safeIfname (ifname : String) : String :=
  String.ofList (ifname.toList.map fun c =>
    if c.isAlphanum || c ∈ ['_', '.', '-'] then c else '_')

def dropinPath (ifname : String) : String :=
  "/etc/dnsmasq.d/wifucked-lanout-" ++ safeIfname ifname ++ ".conf"

def subnetOf (gateway : String) : String :=
  ".".intercalate (((gateway.toList.splitOn '.').take 3).map String.ofList)

def conf (ifname gateway : String) : String :=
  "# Generated by wifucked's LAN-out DHCP-server fallback (ADR-023).\n" ++
  "# ifname is a current fact about this atomic, not its identity (ADR-002) —\n" ++
  "# this file is regenerated on every classification, never read back as state.\n" ++
  "interface=" ++ ifname ++ "\n" ++
  "bind-dynamic\n" ++
  "dhcp-range=" ++ subnetOf gateway ++ ".50," ++ subnetOf gateway ++ ".200,255.255.255.0,12h\n" ++
  "dhcp-option=3," ++ gateway ++ "\n" ++
  "dhcp-option=6," ++ gateway ++ "\n"

structure HostAddr where
  ifname : String
  localAddr : String
  /-- Whether the start of a server put it there. -/
  ours : Bool
  deriving DecidableEq, Repr

structure Host where
  /-- The drop-ins, by their paths. -/
  dropins : Keyed (String × String) Prod.fst
  /-- In the order in which the kernel lists them. -/
  addrs : List HostAddr
  /-- The drop-ins that dnsmasq runs with. -/
  loaded : List (String × String)

/-- A write that fails has emptied the file first if it got as far as opening
it, and written so many characters. -/
inductive WriteEnd where
  | ok
  | failed (written : Option ℕ)
  deriving DecidableEq, Repr

/-- A command whose result is not looked at: what it did, and whether running
it raised. -/
structure Applied where
  applied : Bool
  raised : Bool
  deriving DecidableEq, Repr

def Host.writeDropin (h : Host) (ifname gateway : String) : WriteEnd → Host
  | .ok => { h with dropins := h.dropins.put (dropinPath ifname, conf ifname gateway) }
  | .failed none => h
  | .failed (some written) =>
    { h with
      dropins := h.dropins.put
        (dropinPath ifname, String.ofList ((conf ifname gateway).toList.take written)) }

/-- `ip addr add`, of an address that is there already or not. -/
def Host.addAddress (h : Host) (ifname gateway : String) (added : Applied) : Host :=
  if added.applied && !h.addrs.any fun a => a.ifname = ifname && a.localAddr = gateway then
    { h with addrs := h.addrs ++ [⟨ifname, gateway, true⟩] }
  else h

def Host.reload (h : Host) (applied : Bool) : Host :=
  if applied then { h with loaded := h.dropins.values } else h

/-- The reload command, whose result is that of the start. -/
structure ReloadEnd where
  command : CommandEnd
  applied : Bool

structure StartEnds where
  write : WriteEnd
  add : Applied
  reload : ReloadEnd

def startServer (h : Host) (ifname gateway : String) (ends : StartEnds) :
    Host × Except String Bool :=
  let h := h.writeDropin ifname gateway ends.write
  match ends.write with
  | .failed _ => (h, .ok false)
  | .ok =>
    let h := h.addAddress ifname gateway ends.add
    if ends.add.raised then (h, .error "ip addr add")
    else
      let h := h.reload ends.reload.applied
      (h, ends.reload.command.run.map (·.isSome))

end LinuxDhcp

end Wifucked
