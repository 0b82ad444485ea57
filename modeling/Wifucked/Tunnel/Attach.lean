import Wifucked.Fabric.Requests
import Wifucked.Lib.JsonText

/-!
# Attaching to a fabric

Two HTTP calls and the commands after them, with whatever the server answers.
What raises is carried through to `attach` and to the daemon's start.
-/

namespace Wifucked.Attach

open JsonText (Text Value File text)

inductive Raised where
  /-- Those of texts that do not decode or encode among them. -/
  | valueError
  | typeError
  | attributeError
  | recursionError
  /-- What is no HTTP, or breaks off. -/
  | httpException
  deriving DecidableEq, Repr

-- ---------------------------------------------------------------------------
-- Values
-- ---------------------------------------------------------------------------

/-- A literal that is rounded to zero is one. -/
def isZero (literal : Text) : Bool :=
  match Numerals.float (literal.map Char.ofNat) with
  | some q => |q| ≤ 1 / 2 ^ 1075
  | none => false

def truthy : Value → Bool
  | .null => false
  | .bool b => b
  | .int i => i ≠ 0
  | .float literal => !isZero literal
  | .string s => !s.isEmpty
  | .array items => !items.isEmpty
  | .object fields => !fields.isEmpty

def get (fields : List (Text × Value)) (name : String) : Value :=
  (JsonText.get? fields (text name)).getD .null

def orElse (v w : Value) : Value := if truthy v then v else w

-- ---------------------------------------------------------------------------
-- Calls
-- ---------------------------------------------------------------------------

inductive Body where
  /-- Reading it is an `OSError`. -/
  | unread
  | undecodable
  | text (t : Text)

/-- How a call ends. A reply that did not come by HTTP has no status. -/
inductive Reply where
  /-- `URLError`, `TimeoutError` or another `OSError`. -/
  | failed
  | raised (e : Raised)
  | response (status : Option ℕ) (body : Body)

def strip (t : Text) : Text :=
  let isSpace (c : ℕ) : Bool := Numerals.isSpace (Char.ofNat c)
  ((t.dropWhile isSpace).reverse.dropWhile isSpace).reverse

/-- `unwrap`, of a URL that does not end in a bracket. -/
def unwrap (url : Text) : Text :=
  if (text "URL:").isPrefixOf (strip url) then strip ((strip url).drop 4) else strip url

def untagged (url : Text) : Text :=
  if '#'.toNat ∈ url then (url.reverse.dropWhile (· ≠ '#'.toNat)).tail.reverse else url

/-- `[^/:]+:`. -/
def hasScheme (url : Text) : Bool :=
  let first := url.takeWhile fun c => c ≠ '/'.toNat && c ≠ ':'.toNat
  !first.isEmpty && (url.drop first.length).head? = some ':'.toNat

/-- `Request`. Of the host it is given which ones raise. -/
def request (badHost : Text → Bool) (url : Text) : Except Raised Unit :=
  if hasScheme (untagged (unwrap url)) then
    if badHost url then .error .valueError else .ok ()
  else .error .valueError

/-- `json.loads`, and `none` for what is caught. -/
def parse (recursionLimit : ℕ) : Body → Except Raised (Option Value)
  | .unread => .ok none
  | .undecodable => .error .valueError
  | .text t =>
    match JsonText.loads recursionLimit t with
    | .ok v => .ok (some v)
    | .error .decodeError => .ok none
    | .error .valueError => .error .valueError
    | .error .recursionError => .error .recursionError

/-- The part of `_http_json` after the request is made. -/
def answer (recursionLimit : ℕ) : Reply → Except Raised (Value × Option ℕ)
  | .failed => .ok (.null, none)
  | .raised e => .error e
  | .response status body => do
    match ← parse recursionLimit body with
    | some v => return (v, status)
    | none =>
      -- An error's status is kept without its body.
      if status.any fun code => code < 200 ∨ 300 ≤ code then return (.null, status)
      else return (.null, none)

def rstripSlashes (url : Text) : Text := (url.reverse.dropWhile (· = '/'.toNat)).reverse

def urlOf (serverUrl : Text) (path : String) : Text := rstripSlashes serverUrl ++ text path

-- ---------------------------------------------------------------------------
-- Versions
-- ---------------------------------------------------------------------------

def versionTuple (version : Text) : List ℤ :=
  let core := ((version.map Char.ofNat).takeWhile (· ≠ '-')).takeWhile (· ≠ '+')
  (((core.splitOn '.' ++ [['0'], ['0'], ['0']]).take 3).mapM Numerals.shortInt).getD [0, 0, 0]

def fabricCompatible (serverVersion : Value) (minimum : Text) : Except Raised Bool :=
  if truthy serverVersion then
    match serverVersion with
    | .string version => .ok (¬versionTuple version < versionTuple minimum)
    | _ => .error .attributeError
  else .ok false

-- ---------------------------------------------------------------------------
-- Commands
-- ---------------------------------------------------------------------------

/-- A text, a value as it came, or the `str` of one. -/
inductive Arg where
  | text (t : Text)
  | value (v : Value)
  | str (v : Value)

/-- The `str` of a value that is no text escapes what is not printable. -/
def Arg.encode : Arg → Except Raised Unit
  | .text t => if Fabric.Requests.Text.Argument t then .ok () else .error .valueError
  | .value (.string t) => if Fabric.Requests.Text.Argument t then .ok () else .error .valueError
  | .value _ => .error .typeError
  | .str (.string t) => if Fabric.Requests.Text.Argument t then .ok () else .error .valueError
  | .str _ => .ok ()

inductive Ran where
  | done
  /-- It exits with an error, or it is not started or takes too long. -/
  | failed
  /-- What it prints is no text. -/
  | undecodable
  deriving DecidableEq

def run (ran : List Arg → Ran) (argv : List Arg) : Except Raised Bool := do
  argv.forM Arg.encode
  match ran argv with
  | .done => return true
  | .failed => return false
  | .undecodable => throw .valueError

def runEach (ran : List Arg → Ran) : List (List Arg) → List (List Arg) × Except Raised Unit
  | [] => ([], .ok ())
  | argv :: rest =>
    match run ran argv with
    | .error e => ([argv], .error e)
    | .ok _ => (argv :: (runEach ran rest).1, (runEach ran rest).2)

-- ---------------------------------------------------------------------------
-- The tunnel
-- ---------------------------------------------------------------------------

structure Client where
  interface : Text
  fabricMin : Text
  username : Text
  password : Text
  privateKeyPath : Text

/-- What the calls, the files and the commands come to. -/
structure Env where
  recursionLimit : ℕ
  badHost : Text → Bool
  health : Reply
  register : Reply
  publicKey : File
  ran : List Arg → Ran

structure Peer where
  publicKey : Value
  endpoint : Value
  assignedAddress : Value

variable (c : Client) (env : Env) (serverUrl : Text)

/-- The endpoint, where the server is compatible. -/
def checkHealth : Except Raised (Option Value) := do
  request env.badHost (urlOf serverUrl "/health")
  match ← answer env.recursionLimit env.health with
  | (.null, _) => return none
  | (.object health, _) =>
    if ← fabricCompatible (get health "version") c.fabricMin then
      return some (orElse (get health "address") (.string serverUrl))
    else return none
  | _ => throw .attributeError

def readPublicKey : File → Except Raised (Option Text)
  | .absent => .ok none
  | .unreadable => .ok none
  | .undecodable _ => .error .valueError
  | .text t => .ok (if strip t = [] then none else some (strip t))

def isSurrogate (ch : ℕ) : Bool := 0xD800 ≤ ch && ch ≤ 0xDFFF

def authorize (username password : Text) : Except Raised Unit :=
  if (username ++ password).any isSurrogate then .error .valueError else .ok ()

def register (endpoint : Value) : Except Raised (Option Peer) := do
  request env.badHost (urlOf serverUrl "/register")
  authorize c.username c.password
  match ← answer env.recursionLimit env.register with
  | (.null, _) => return none
  | (.object body, status) =>
    let fabricPublicKey := get body "fabric_public_key"
    let assignedAddress := get body "assigned_address"
    if status ≠ some 200 then return none
    else if truthy fabricPublicKey ∧ truthy assignedAddress ∧ truthy (get body "tunnel_pool") then
      return some ⟨fabricPublicKey, orElse (get body "endpoint") endpoint, assignedAddress⟩
    else return none
  | (body, status) =>
    -- The error of a response that is no object is asked for unless it is falsy.
    if status ≠ some 200 ∧ ¬truthy body then return none else throw .attributeError

def ask : Except Raised (Option Peer) := do
  match ← checkHealth c env serverUrl with
  | none => return none
  | some endpoint =>
    match ← readPublicKey env.publicKey with
    | none => return none
    | some _ => register c env serverUrl endpoint

def addLink : List Arg :=
  [.text (text "ip"), .text (text "link"), .text (text "add"), .text (text "dev"),
    .text c.interface, .text (text "type"), .text (text "wireguard")]

def setPeer (peer : Peer) : List Arg :=
  [.text (text "wg"), .text (text "set"), .text c.interface, .text (text "private-key"),
    .text c.privateKeyPath, .text (text "peer"), .value peer.publicKey, .text (text "endpoint"),
    .str peer.endpoint, .text (text "allowed-ips"), .text (text "0.0.0.0/0"),
    .text (text "persistent-keepalive"), .text (text "25")]

def bringUp (peer : Peer) : List (List Arg) :=
  [[.text (text "ip"), .text (text "address"), .text (text "add"), .str peer.assignedAddress,
      .text (text "dev"), .text c.interface],
    [.text (text "ip"), .text (text "link"), .text (text "set"), .text (text "up"),
      .text (text "dev"), .text c.interface],
    [.text (text "sysctl"), .text (text "-w"), .text (text "net.ipv4.ip_forward=1")],
    [.text (text "sysctl"), .text (text "-w"),
      .text (text "net.ipv4.conf." ++ c.interface ++ text ".forwarding=1")]]

/-- The commands that are tried, and whether the interface is configured. -/
def configureInterface (peer : Peer) : List (List Arg) × Except Raised Bool :=
  match run env.ran (addLink c) with
  | .error e => ([addLink c], .error e)
  | .ok _ =>
    match run env.ran (setPeer c peer) with
    | .error e => ([addLink c, setPeer c peer], .error e)
    | .ok false => ([addLink c, setPeer c peer], .ok false)
    | .ok true =>
      let rest := runEach env.ran (bringUp c peer)
      (addLink c :: setPeer c peer :: rest.1, rest.2.map fun _ => true)

def attach : List (List Arg) × Except Raised Bool :=
  match ask c env serverUrl with
  | .error e => ([], .error e)
  | .ok none => ([], .ok false)
  | .ok (some peer) => configureInterface c env peer

variable {c env serverUrl} in
theorem attach_error (h : ask c env serverUrl = .error e) :
    attach c env serverUrl = ([], .error e) := by
  delta attach
  rw [h]

variable {c env serverUrl} in
theorem attach_none (h : ask c env serverUrl = .ok none) :
    attach c env serverUrl = ([], .ok false) := by
  delta attach
  rw [h]

variable {c env serverUrl} in
theorem attach_some (h : ask c env serverUrl = .ok (some peer)) :
    attach c env serverUrl = configureInterface c env peer := by
  delta attach
  rw [h]

/-- The daemon's start, where the tunnel is a real one, comes to its end. -/
def attachFabricOnce (tried : Bool) : List Text → Except Raised Unit
  | [] => .ok ()
  | serverUrl :: _ => if tried then .ok () else (attach c env serverUrl).2.map fun _ => ()

end Wifucked.Attach
