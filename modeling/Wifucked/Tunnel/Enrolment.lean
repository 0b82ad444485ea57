import Wifucked.Fabric.Fleet
import Wifucked.Lib.JsonLoaded
import Wifucked.Tunnel.Answers

/-!
# Appliances that attach to one fabric

Both ends of `/health` and `/register`, with the texts that go between them. A
request or its reply can be lost on the way, and any command can fail at either end.
What an attached appliance was told is what the fabric has for it.
-/

namespace Wifucked.Enrolment

open JsonText (Text Value File text)
open Attach (Client Env Peer Reply)
open Fabric (Address App FabricConfig FabricWireGuard Fleet PeerRegistry dotted)

def str (t : Text) : String := Fabric.Requests.Text.toString t

-- ---------------------------------------------------------------------------
-- The fabric's answers
-- ---------------------------------------------------------------------------

def plain (fields : List (String × String)) : List (Text × Value) :=
  fields.map fun f => (text f.1, .string (text f.2))

/-- The text of a response. Its names are in order, and a line ends it. -/
def jsonify (fields : List (Text × Value)) : Text :=
  JsonText.write JsonText.compact 0 (.object (JsonText.sortFields fields)) ++ text "\n"

def fabricVersion : String := "0.0.0-dev"

def health (config : FabricConfig) (uptime region : Text) : Text :=
  jsonify [(text "ok", .bool true), (text "version", .string (text fabricVersion)),
    (text "min_appliance_version", .string (text Fabric.minApplianceVersion)),
    (text "uptime_s", .float uptime), (text "address", .string (text config.address)),
    (text "region", .string region)]

/-- A call of `/register`, and its response. What raises is answered with a page. -/
def serve (page : Text) (s : Fleet) (c : Fabric.Call) : Fleet × ℕ × Text :=
  match Fabric.Requests.requireAuth s.app.config
      (c.authorization.map fun auth => (some (text auth.1), some (text auth.2))) with
  | .error _ => (s, 500, page)
  | .ok _ =>
    let answer := (s.app.register c).2
    if raises c answer then (s.call c, 500, page)
    else (s.call c, answer.status, jsonify (plain answer.body))
where
  /-- No command takes a key with a NUL in it. -/
  raises (c : Fabric.Call) : Fabric.Answer → Bool
    | .raised _ => true
    | .peerNotAdded _ => ¬Fabric.Requests.Text.Argument (text (c.publicKey.getD ""))
    | _ => false

/-- The version and the key of a request's body, which is no object but what
an appliance sends. -/
def heard (limit : ℕ) (body : Text) : Option String × Option String :=
  match JsonText.loads limit body with
  | .ok (.object fields) => (read fields "version", read fields "public_key")
  | _ => (none, none)
where
  read (fields : List (Text × Value)) (name : String) : Option String :=
    match JsonText.get? fields (text name) with
    | some (.string t) => some (str t)
    | _ => none

-- ---------------------------------------------------------------------------
-- The appliances' calls
-- ---------------------------------------------------------------------------

structure Device where
  client : Client
  serverUrl : Text
  version : String

/-- What becomes of a request and its reply. -/
inductive Delivery where
  | answered
  | failed (arrived : Bool)
  | raised (arrived : Bool) (e : Attach.Raised)

namespace Delivery

def arrives : Delivery → Bool
  | .answered => true
  | .failed arrived => arrived
  | .raised arrived _ => arrived

def reply (status : ℕ) (body : Text) : Delivery → Reply
  | .answered => .response (some status) (.text body)
  | .failed _ => .failed
  | .raised _ e => .raised e

end Delivery

/-- One call of `attach`, with what the network, the file and the commands of both
ends come to. -/
structure Attempt where
  limit : ℕ
  serverLimit : ℕ
  badHost : Text → Bool
  health : Delivery
  register : Delivery
  uptime : Text
  region : Text
  keyFile : File
  ran : List Attach.Arg → Attach.Ran
  setup : Except String Unit
  set : Except String Unit
  fabricKey : Except String String
  limit_pos : 0 < limit
  serverLimit_pos : 0 < serverLimit
  literal : JsonText.Literal uptime
  good_region : JsonText.GoodText region
  decoded : ∀ t, keyFile = .text t → ∀ c ∈ t, JsonText.Scalar c

def credentials (c : Client) : Option (String × String) :=
  if c.username = [] ∧ c.password = [] then none
  else
    let userPass := c.username ++ ':'.toNat :: c.password
    some (str (userPass.takeWhile (· ≠ ':'.toNat)), str (userPass.dropWhile (· ≠ ':'.toNat)).tail)

def payload (version : String) (key : Text) : Text :=
  JsonText.write JsonText.oneLine 0
    (.object [(text "version", .string (text version)), (text "public_key", .string key)])

section

variable (config : FabricConfig) (d : Device) (a : Attempt)

def envOf (register : Reply) : Env where
  recursionLimit := a.limit
  badHost := a.badHost
  health := a.health.reply 200 (health config a.uptime a.region)
  register := register
  publicKey := a.keyFile
  ran := a.ran

/-- The key that `/register` is asked for, where it comes to that. -/
def asked : Option Text :=
  let env := envOf config a .failed
  match Attach.checkHealth d.client env d.serverUrl, Attach.readPublicKey env.publicKey,
      Attach.request env.badHost (Attach.urlOf d.serverUrl "/register"),
      Attach.authorize d.client.username d.client.password with
  | .ok (some _), .ok (some key), .ok _, .ok _ => some key
  | _, _, _, _ => none

def callOf (key : Text) : Fabric.Call :=
  let (version, publicKey) := heard a.serverLimit (payload d.version key)
  { authorization := credentials d.client
    version := version
    publicKey := publicKey
    setup := a.setup
    set := if Fabric.Requests.Text.Argument key then a.set else .error "embedded null byte"
    fabricKey := a.fabricKey }

end

-- ---------------------------------------------------------------------------
-- All of them
-- ---------------------------------------------------------------------------

/-- The fabric, with the key that each attached appliance came with and what it set up. -/
structure World (ι : Type) where
  fleet : Fleet
  peers : ι → Option (String × Peer)

variable {ι : Type} [DecidableEq ι] (page : Text) (devices : ι → Device)

/-- What a call of `/register` leaves of the fabric, and the reply that comes back. -/
def registered (s : Fleet) (d : Device) (a : Attempt) : Fleet × Reply :=
  match asked s.app.config d a with
  | none => (s, .failed)
  | some key =>
    if a.register.arrives then
      let (s, status, body) := serve page s (callOf d a key)
      (s, a.register.reply status body)
    else (s, a.register.reply 0 [])

def step (w : World ι) (e : ι × Attempt) : World ι :=
  let d := devices e.1
  let (fleet, register) := registered page w.fleet d e.2
  let env := envOf w.fleet.app.config e.2 register
  match asked w.fleet.app.config d e.2, (Attach.attach d.client env d.serverUrl).2,
      Attach.ask d.client env d.serverUrl with
  | some key, .ok true, .ok (some peer) =>
    ⟨fleet, Function.update w.peers e.1 (some (str key, peer))⟩
  | _, _, _ => { w with fleet }

-- ---------------------------------------------------------------------------
-- Texts that go between them
-- ---------------------------------------------------------------------------

theorem str_text (s : String) : str (text s) = s := by
  simp [str, Fabric.Requests.Text.toString, text, Function.comp_def]

theorem good_plain (fields : List (String × String)) :
    JsonText.GoodFields 0 (plain fields) := by
  intro f hf
  obtain ⟨g, -, rfl⟩ := List.mem_map.mp hf
  have hgood : ∀ s : String, JsonText.GoodText (text s) :=
    fun s => ⟨JsonText.plain_text s, JsonText.joined_text s⟩
  exact ⟨hgood _, JsonText.good_string (hgood _) 0⟩

/-- The fields of a response are read as they were written. -/
theorem loads_jsonify {fields : List (Text × Value)} (hlimit : 0 < limit)
    (h : JsonText.GoodFields 0 fields) (hn : (fields.map Prod.fst).Nodup) :
    JsonText.loads limit (jsonify fields) = .ok (.object (JsonText.sortFields fields)) ∧
      ∀ name v, (text name, v) ∈ fields → Attach.get (JsonText.sortFields fields) name = v := by
  have hgood : JsonText.Good 1 (.object (JsonText.sortFields fields)) :=
    JsonText.good_object (fun f hf => h f (JsonText.mem_sortFields.mp hf)) one_pos
  refine ⟨?_, fun name v hv => ?_⟩
  · rw [jsonify, JsonText.loads_write_append JsonText.compact 0 hgood.1 hlimit, hgood.2]
    simp [text, JsonText.isBlank]
  · rw [Attach.get, JsonText.get?_eq_some_of_mem (JsonText.nodup_sortFields.mpr hn)
      (JsonText.mem_sortFields.mpr hv), Option.getD_some]

theorem heard_payload (hlimit : 0 < limit) (version : String)
    (hkey : ∀ c ∈ key, JsonText.Scalar c) :
    heard limit (payload version key) = (some version, some (str key)) := by
  have hfields : JsonText.GoodFields 0 [(text "version", .string (text version)),
      (text "public_key", .string key)] := by
    have hgood : ∀ s : String, JsonText.GoodText (text s) :=
      fun s => ⟨JsonText.plain_text s, JsonText.joined_text s⟩
    intro f hf
    rcases List.mem_pair.mp hf with rfl | rfl
    · exact ⟨hgood _, JsonText.good_string (hgood _) 0⟩
    · exact ⟨hgood _, JsonText.good_string (JsonText.goodText_of_scalar hkey) 0⟩
  have hgood : JsonText.Good 1 _ := JsonText.good_object hfields one_pos
  have hloads := (JsonText.dumps_of_good hgood hlimit JsonText.oneLine).2
  rw [← payload] at hloads
  have hnodup : ([(text "version", Value.string (text version)),
      (text "public_key", .string key)].map Prod.fst).Nodup := by
    simp [JsonText.text_injective.eq_iff]
  simp only [heard, hloads, heard.read,
    JsonText.get?_eq_some_of_mem hnodup (List.mem_pair.mpr (.inl rfl)),
    JsonText.get?_eq_some_of_mem hnodup (List.mem_pair.mpr (.inr rfl)), str_text]

-- ---------------------------------------------------------------------------
-- What a call leaves
-- ---------------------------------------------------------------------------

/-- What a call leaves of the fabric: nothing, an address, a peer with it, or that and
an answer. -/
inductive Effect (s t : Fleet) (key : String) : Prop
  | nothing : t.app.registry = s.app.registry →
      t.app.wireguard.allowed = s.app.wireguard.allowed → t.assigned = s.assigned → Effect s t key
  | allocated : s.app.registry.allocate key = some (t.app.registry, p) →
      t.app.wireguard.allowed = s.app.wireguard.allowed → t.assigned = s.assigned → Effect s t key
  | added : s.app.registry.allocate key = some (t.app.registry, p) →
      t.app.wireguard.allowed =
        s.app.wireguard.allowed.assign key (FabricWireGuard.allowedIps p.address) →
      (t.assigned = s.assigned ∨ t.assigned = s.assigned.put (key, p.address)) → Effect s t key

theorem ensureReady_allowed {w w' : FabricWireGuard} (h : w.ensureReady setup = .ok w') :
    w'.allowed = w.allowed := by
  unfold FabricWireGuard.ensureReady at h
  split at h
  · rw [Except.ok.inj h]
  · cases setup with
    | error detail => cases h
    | ok u =>
      rw [← Except.ok.inj h]

/-- What an answer of success says, and that the fabric keeps it. -/
def Tells (s t : Fleet) (c : Fabric.Call) (answer : Fabric.Answer) : Prop :=
  ∃ a fabricKey pool, c.fabricKey = .ok fabricKey ∧
    t.assigned = s.assigned.put (c.publicKey.getD "", a) ∧
    answer.body = [("assigned_address", dotted a ++ "/32"), ("fabric_public_key", fabricKey),
      ("endpoint", s.app.config.address), ("tunnel_pool", pool)]

theorem call_cases (s : Fleet) (c : Fabric.Call) :
    (Effect s (s.call c) (c.publicKey.getD "") ∧ (s.call c).app.config = s.app.config) ∧
      (s.Succeeds c → Tells s (s.call c) c (s.app.register c).2) := by
  simp only [Fleet.Succeeds, Fleet.call, App.register]
  by_cases hauth : (!s.app.authenticated c) = true
  · simp only [if_pos hauth]
    exact ⟨⟨.nothing rfl rfl rfl, trivial⟩, fun h => by cases h⟩
  by_cases hkey : c.publicKey.getD "" = ""
  · simp only [if_neg hauth, if_pos hkey]
    exact ⟨⟨.nothing rfl rfl rfl, trivial⟩, fun h => by cases h⟩
  by_cases hold : Fabric.versionTuple (c.version.getD "") <
      Fabric.versionTuple Fabric.minApplianceVersion
  · simp only [if_neg hauth, if_neg hkey, if_pos hold]
    exact ⟨⟨.nothing rfl rfl rfl, trivial⟩, fun h => by cases h⟩
  simp only [if_neg hauth, if_neg hkey, if_neg hold]
  cases hready : s.app.wireguard.ensureReady c.setup with
  | error detail => exact ⟨⟨.nothing rfl rfl rfl, rfl⟩, fun h => by cases h⟩
  | ok w =>
    have hallowed := ensureReady_allowed hready
    dsimp only
    cases halloc : s.app.registry.allocate (c.publicKey.getD "") with
    | none => exact ⟨⟨.nothing rfl hallowed rfl, rfl⟩, fun h => by cases h⟩
    | some out =>
      obtain ⟨registry, p⟩ := out
      have hname := (PeerRegistry.allocate_cases halloc).1
      dsimp only [FabricWireGuard.addPeer]
      cases c.set with
      | error detail => exact ⟨⟨.allocated halloc hallowed rfl, rfl⟩, fun h => by cases h⟩
      | ok u =>
        have hassign : w.allowed.assign (c.publicKey.getD "")
            (FabricWireGuard.allowedIps p.address) = s.app.wireguard.allowed.assign
              (c.publicKey.getD "") (FabricWireGuard.allowedIps p.address) := by rw [hallowed]
        dsimp only [Except.map]
        cases hfabric : c.fabricKey with
        | error detail => exact ⟨⟨.added halloc hassign (.inl rfl), rfl⟩, fun h => by cases h⟩
        | ok fabricKey =>
          have hput : s.assigned.put (p.publicKey, p.address) =
              s.assigned.put (c.publicKey.getD "", p.address) := by rw [hname]
          exact ⟨⟨.added halloc hassign (.inr hput), rfl⟩,
            fun _ => ⟨p.address, fabricKey, _, hfabric, hput, rfl⟩⟩

variable {s t : Fleet} {key : String}

/-- The registry is one that was stored, addresses are the appliances' own, and
no prefix is longer than an address. -/
structure Kept (s : Fleet) : Prop where
  written : s.app.registry.Written
  addressed : s.Addressed
  short : ∀ p k, s.app.wireguard.allowed.owner p = some k → p.length ≤ 32

theorem length_le_of_mem (h : p ∈ FabricWireGuard.allowedIps a) : p.length ≤ 32 := by
  simp only [FabricWireGuard.allowedIps, Fabric.rfc1918Ranges, Prefix.host_eq, List.mem_cons,
    List.not_mem_nil, or_false] at h
  rcases h with rfl | rfl | rfl | rfl <;> simp [Prefix.ofAddress]

theorem kept_effect (hs : Kept s) (h : Effect s t key) : Kept t := by
  obtain ⟨hwritten, haddressed, hshort⟩ := hs
  cases h with
  | nothing hregistry hallowed hassigned =>
    refine ⟨hregistry ▸ hwritten, ⟨?_, ?_, ?_⟩, ?_⟩
    · rw [hregistry]
      exact haddressed.distinct
    · rw [hregistry, hassigned]
      exact haddressed.filed
    · rw [hallowed, hassigned]
      exact haddressed.owns
    · rwa [hallowed]
  | allocated halloc hallowed hassigned =>
    refine ⟨.store hwritten halloc, ⟨PeerRegistry.allocate_distinct haddressed.distinct halloc,
      fun k a hk => ?_, ?_⟩, ?_⟩
    · rw [hassigned] at hk
      exact PeerRegistry.allocate_keeps halloc (haddressed.filed k a hk)
    · rw [hallowed, hassigned]
      exact haddressed.owns
    · rwa [hallowed]
  | @added p halloc hallowed hassigned =>
    have hfile := PeerRegistry.get?_allocate halloc
    have hnew : ∀ k a, t.assigned.get? k = some (k, a) →
        (k = key ∧ a = p.address) ∨ k ≠ key ∧ s.assigned.get? k = some (k, a) := by
      intro k a hk
      by_cases hkey : k = key
      · left
        refine ⟨hkey, ?_⟩
        rw [hkey] at hk
        rcases hassigned with hassigned | hassigned
        · rw [hassigned] at hk
          have hfiled := haddressed.filed key a hk
          have hknown := PeerRegistry.allocate_keeps halloc hfiled
          rw [hfile, if_pos rfl] at hknown
          exact (congrArg Prod.snd (Option.some.inj hknown)).symm
        · rw [hassigned, Keyed.get?_put, if_pos rfl] at hk
          exact (congrArg Prod.snd (Option.some.inj hk)).symm
      · right
        rcases hassigned with hassigned | hassigned
        · rw [hassigned] at hk
          exact ⟨hkey, hk⟩
        · rw [hassigned, Keyed.get?_put, if_neg (Ne.symm hkey)] at hk
          exact ⟨hkey, hk⟩
    refine ⟨.store hwritten halloc, ⟨PeerRegistry.allocate_distinct haddressed.distinct halloc,
      fun k a hk => ?_, fun k a hk => ?_⟩, fun q k hq => ?_⟩
    · rw [hfile]
      obtain ⟨rfl, rfl⟩ | ⟨hne, hold⟩ := hnew k a hk
      · exact if_pos rfl
      · rw [if_neg (Ne.symm hne)]
        exact haddressed.filed k a hold
    · rw [hallowed, PrefixTable.owner_assign]
      obtain ⟨rfl, rfl⟩ | ⟨hne, hold⟩ := hnew k a hk
      · rw [if_pos (Fleet.host_mem_allowedIps.mpr rfl)]
      · have hother : a ≠ p.address := by
          rintro rfl
          exact hne (PeerRegistry.allocate_fresh haddressed.distinct halloc
            (haddressed.filed k _ hold))
        rw [if_neg (mt Fleet.host_mem_allowedIps.mp hother), haddressed.owns k a hold]
        exact Option.filter_eq_some_iff.mpr ⟨rfl, by simpa using hne⟩
    · rw [hallowed, PrefixTable.owner_assign] at hq
      split at hq
      · rename_i hmem
        exact length_le_of_mem hmem
      · exact hshort q k (Option.filter_eq_some_iff.mp hq).1

theorem effect_assigned (hs : Kept s) (h : Effect s t key)
    (hj : s.assigned.get? j = some (j, a)) : t.assigned.get? j = some (j, a) := by
  cases h with
  | nothing _ _ hassigned => rwa [hassigned]
  | allocated _ _ hassigned => rwa [hassigned]
  | @added p halloc _ hassigned =>
    rcases hassigned with hassigned | hassigned
    · rwa [hassigned]
    · rw [hassigned, Keyed.get?_put]
      split
      · rename_i hkey
        obtain rfl : key = j := hkey
        have hknown := PeerRegistry.allocate_keeps halloc (hs.addressed.filed key a hj)
        rwa [PeerRegistry.get?_allocate halloc, if_pos rfl] at hknown
      · exact hj

-- ---------------------------------------------------------------------------
-- What an appliance is told
-- ---------------------------------------------------------------------------

theorem serve_effect (page : Text) (s : Fleet) (c : Fabric.Call) :
    Effect s (serve page s c).1 (c.publicKey.getD "") ∧
      (serve page s c).1.app.config = s.app.config := by
  unfold serve
  split
  · exact ⟨.nothing rfl rfl rfl, rfl⟩
  · dsimp only
    split <;> exact (call_cases s c).1

theorem serve_ok {page : Text} {c : Fabric.Call} (h : (serve page s c).2.1 = 200) :
    s.Succeeds c ∧ (serve page s c).1 = s.call c ∧
      (serve page s c).2.2 = jsonify (plain (s.app.register c).2.body) := by
  unfold serve at h ⊢
  split at h
  · cases h
  · dsimp only at h ⊢
    split at h
    · cases h
    · rename_i hraises
      rw [if_neg hraises]
      exact ⟨h, rfl, rfl⟩

theorem of_readPublicKey {file : File} {key : Text}
    (h : Attach.readPublicKey file = .ok (some key)) :
    ∃ t, file = .text t ∧ Attach.strip t ≠ [] ∧ key = Attach.strip t := by
  cases file with
  | text t =>
    simp only [Attach.readPublicKey, Except.ok.injEq] at h
    split at h
    · cases h
    · rename_i hne
      exact ⟨t, rfl, hne, (Option.some.inj h).symm⟩
  | _ => cases h

/-- What is set up is what the fabric answered. -/
theorem ask_peer {c : Client} {env : Env} {serverUrl : Text}
    (h : Attach.ask c env serverUrl = .ok (some peer)) :
    ∃ body, Attach.Registers env body ∧ peer.publicKey = Attach.get body "fabric_public_key" ∧
      peer.assignedAddress = Attach.get body "assigned_address" ∧
      (Attach.truthy (Attach.get body "endpoint") = true →
        peer.endpoint = Attach.get body "endpoint") := by
  obtain ⟨⟨greeting, hgreets⟩, body, hregisters⟩ := Attach.ask_some h
  obtain ⟨endpoint, hcheck, -⟩ := JsonText.bind_eq_ok.mp h
  have hfit := Attach.fit_of_checkHealth hcheck
  refine ⟨body, hregisters, ?_⟩
  have hkey : Attach.HasKey env := by
    obtain ⟨endpoint, -, h⟩ := JsonText.bind_eq_ok.mp h
    cases endpoint with
    | none => cases h
    | some endpoint =>
      obtain ⟨key, hread, h⟩ := JsonText.bind_eq_ok.mp h
      cases key with
      | none => cases h
      | some key =>
        obtain ⟨t, hfile, hne, -⟩ := of_readPublicKey hread
        exact ⟨t, hfile, hne⟩
  rw [Attach.ask_hasKey hfit hgreets hkey] at h
  rw [Attach.register_registers (Attach.fit_of_register h) hregisters] at h
  obtain rfl := Option.some.inj (Except.ok.inj h)
  exact ⟨rfl, rfl, fun htruthy => if_pos htruthy⟩

/-- The appliance has set up what the fabric has for its key. -/
structure Told (fabricKey : String) (s : Fleet) (key : String) (peer : Peer) : Prop where
  address : ∃ a, s.assigned.get? key = some (key, a) ∧
    peer.assignedAddress = .string (text (dotted a ++ "/32"))
  publicKey : peer.publicKey = .string (text fabricKey)
  endpoint : peer.endpoint = .string (text s.app.config.address)

theorem told_effect {k : String} (hs : Kept s) (h : Effect s t k)
    (hconfig : t.app.config = s.app.config) (htold : Told fabricKey s key peer) :
    Told fabricKey t key peer := by
  obtain ⟨⟨a, hget, haddress⟩, hkey, hendpoint⟩ := htold
  exact ⟨⟨a, effect_assigned hs h hget, haddress⟩, hkey, hconfig ▸ hendpoint⟩

section

variable {config : FabricConfig} {d : Device} {a : Attempt}

theorem asked_scalar {key : Text} (h : asked config d a = some key) :
    ∀ c ∈ key, JsonText.Scalar c := by
  unfold asked at h
  dsimp only at h
  split at h
  · rename_i hread _ _
    obtain ⟨t, hfile, -, hkey⟩ := of_readPublicKey hread
    obtain rfl := Option.some.inj h
    intro c hc
    rw [hkey, Attach.strip, List.mem_reverse] at hc
    have hmem := List.mem_reverse.mp ((List.dropWhile_suffix _).mem hc)
    exact a.decoded t hfile c ((List.dropWhile_suffix _).mem hmem)
  · cases h

theorem callOf_publicKey {key : Text} (h : asked config d a = some key) :
    (callOf d a key).publicKey.getD "" = str key := by
  simp [callOf, heard_payload a.serverLimit_pos d.version (asked_scalar h)]

/-- The reply of a registration that comes to success is the fabric's. -/
theorem of_reply {delivery : Delivery} {body t : Text}
    (h : delivery.reply status body = .response (some 200) (.text t)) :
    delivery.arrives = true ∧ status = 200 ∧ body = t := by
  cases delivery with
  | answered =>
    simp only [Delivery.reply, Reply.response.injEq, Option.some.injEq,
      Attach.Body.text.injEq] at h
    exact ⟨rfl, h⟩
  | failed arrived => cases h
  | raised arrived e => cases h

end

variable {ι : Type} [DecidableEq ι] {page : Text} {devices : ι → Device}

variable (page) in
theorem registered_effect (s : Fleet) (d : Device) (a : Attempt) :
    (∃ key, Effect s (registered page s d a).1 key) ∧
      (registered page s d a).1.app.config = s.app.config := by
  unfold registered
  split
  · exact ⟨⟨"", .nothing rfl rfl rfl⟩, rfl⟩
  · split
    · exact ⟨⟨_, (serve_effect page s _).1⟩, (serve_effect page s _).2⟩
    · exact ⟨⟨"", .nothing rfl rfl rfl⟩, rfl⟩

theorem registered_told {d : Device} {a : Attempt} {key : Text}
    (haddress : s.app.config.address ≠ "") (hkey : ∀ k, a.fabricKey = .ok k → k = fabricKey)
    (hasked : asked s.app.config d a = some key)
    (hask : Attach.ask d.client (envOf s.app.config a (registered page s d a).2) d.serverUrl =
      .ok (some peer)) : Told fabricKey (registered page s d a).1 (str key) peer := by
  obtain ⟨body, ⟨⟨t, hreply, hloads⟩, -⟩, hpublic, haddressed, hendpoint⟩ := ask_peer hask
  simp only [envOf, registered, hasked] at hreply hloads ⊢
  split at hreply
  · rename_i harrives
    obtain ⟨-, hstatus, rfl⟩ := of_reply hreply
    obtain ⟨hsucceeds, hcall, hbody⟩ := serve_ok hstatus
    obtain ⟨p, k, pool, hfabric, hassigned, htells⟩ :=
      (call_cases s (callOf d a key)).2 hsucceeds
    obtain rfl : k = fabricKey := hkey k hfabric
    rw [hbody, htells] at hloads
    have hnodup : ((plain [("assigned_address", dotted p ++ "/32"), ("fabric_public_key", k),
        ("endpoint", s.app.config.address), ("tunnel_pool", pool)]).map Prod.fst).Nodup := by
      simp [plain, JsonText.text_injective.eq_iff]
    obtain ⟨hread, hget⟩ := loads_jsonify a.limit_pos (good_plain _) hnodup
    rw [hread, Except.ok.injEq, Value.object.injEq] at hloads
    subst hloads
    have hgetEndpoint := hget "endpoint" (.string (text s.app.config.address)) (by simp [plain])
    rw [if_pos harrives, hcall]
    refine ⟨⟨p, ?_, ?_⟩, ?_, ?_⟩
    · rw [hassigned, callOf_publicKey hasked, Keyed.get?_put_self]
    · rw [haddressed]
      exact hget _ _ (by simp [plain])
    · rw [hpublic]
      exact hget _ _ (by simp [plain])
    · rw [(call_cases s (callOf d a key)).1.2, hendpoint, hgetEndpoint]
      rw [hgetEndpoint]
      simpa [Attach.truthy, text] using haddress
  · rename_i harrives
    exact absurd (of_reply hreply).1 harrives

-- ---------------------------------------------------------------------------
-- Any number of attempts
-- ---------------------------------------------------------------------------

variable (page devices) in
theorem step_cases (w : World ι) (e : ι × Attempt) :
    (step page devices w e).fleet = (registered page w.fleet (devices e.1) e.2).1 ∧
      ((step page devices w e).peers = w.peers ∨ ∃ key peer,
        asked w.fleet.app.config (devices e.1) e.2 = some key ∧
        Attach.ask (devices e.1).client (envOf w.fleet.app.config e.2
          (registered page w.fleet (devices e.1) e.2).2) (devices e.1).serverUrl =
            .ok (some peer) ∧
        (step page devices w e).peers = Function.update w.peers e.1 (some (str key, peer))) := by
  unfold step
  dsimp only
  split
  · rename_i key peer hasked hattach hask
    exact ⟨rfl, .inr ⟨key, peer, hasked, hask, rfl⟩⟩
  · exact ⟨rfl, .inl rfl⟩

structure Consistent (config : FabricConfig) (fabricKey : String) (w : World ι) : Prop where
  kept : Kept w.fleet
  sameConfig : w.fleet.app.config = config
  told : ∀ i key peer, w.peers i = some (key, peer) → Told fabricKey w.fleet key peer

theorem consistent_step {w : World ι} {e : ι × Attempt} (haddress : config.address ≠ "")
    (hkey : ∀ k, e.2.fabricKey = .ok k → k = fabricKey) (h : Consistent config fabricKey w) :
    Consistent config fabricKey (step page devices w e) := by
  obtain ⟨hfleet, hpeers⟩ := step_cases page devices w e
  obtain ⟨⟨k, heffect⟩, hconfig⟩ := registered_effect page w.fleet (devices e.1) e.2
  have hold : ∀ i key peer, w.peers i = some (key, peer) →
      Told fabricKey (registered page w.fleet (devices e.1) e.2).1 key peer :=
    fun i key peer hi => told_effect h.kept heffect hconfig (h.told i key peer hi)
  rw [← hfleet] at heffect hconfig hold
  refine ⟨kept_effect h.kept heffect, hconfig.trans h.sameConfig, fun i key peer hi => ?_⟩
  obtain hsame | ⟨key', peer', hasked, hask, hupdate⟩ := hpeers
  · rw [hsame] at hi
    exact hold i key peer hi
  · rw [hupdate, Function.update_apply] at hi
    split at hi
    · obtain ⟨rfl, rfl⟩ := Prod.mk.inj (Option.some.inj hi)
      rw [hfleet]
      exact registered_told (by rwa [h.sameConfig]) hkey hasked hask
    · exact hold i key peer hi

/-- The fabric has the appliance under the address that the appliance took, and takes
its packets from there. -/
structure Enrolled (config : FabricConfig) (fabricKey : String) (s : Fleet) (key : String)
    (peer : Peer) : Prop where
  address : ∃ a ∈ s.app.registry.network.hosts, a ≠ s.app.registry.serverAddress ∧
    s.app.registry.load.get? key = some (key, a) ∧
    s.app.wireguard.accepts key a = true ∧
    peer.assignedAddress = .string (text (dotted a ++ "/32"))
  publicKey : peer.publicKey = .string (text fabricKey)
  endpoint : peer.endpoint = .string (text config.address)

theorem accepts_of_owner {w : FabricWireGuard}
    (hshort : ∀ p k, w.allowed.owner p = some k → p.length ≤ 32)
    (h : w.allowed.owner (.host 32 a) = some k) : w.accepts k a = true := by
  refine decide_eq_true (PrefixTable.lookup_eq_some.mpr ⟨_, h, ?_, fun q j hq _ => ?_⟩)
  · simp [Prefix.host_eq, Prefix.Covers]
  · exact (hshort q j hq).trans (by simp [Prefix.host_eq])

variable {config : FabricConfig} {fabricKey : String}

omit [DecidableEq ι] in
theorem Consistent.enrolled {w : World ι} (h : Consistent config fabricKey w)
    (hi : w.peers i = some (key, peer)) : Enrolled config fabricKey w.fleet key peer := by
  obtain ⟨⟨a, hget, haddress⟩, hkey, hendpoint⟩ := h.told i key peer hi
  have hfiled := h.kept.addressed.filed key a hget
  obtain ⟨hhost, hown⟩ := h.kept.written.issued hfiled
  exact ⟨⟨a, hhost, hown, hfiled,
    accepts_of_owner h.kept.short (h.kept.addressed.owns key a hget), haddress⟩, hkey,
    h.sameConfig ▸ hendpoint⟩

omit [DecidableEq ι] in
theorem Consistent.distinct {w : World ι} (h : Consistent config fabricKey w)
    (hi : w.peers i = some (key, peer)) (hj : w.peers j = some (key', peer')) :
    key = key' ↔ peer.assignedAddress = peer'.assignedAddress := by
  obtain ⟨a, hhost, -, hfiled, -, ha⟩ := (h.enrolled hi).address
  obtain ⟨b, hhost', -, hfiled', -, hb⟩ := (h.enrolled hj).address
  rw [ha, hb, Value.string.injEq, JsonText.text_injective.eq_iff, String.append_left_inj,
    Fabric.dotted_inj (Fabric.Network.lt_of_mem_hosts hhost)
      (Fabric.Network.lt_of_mem_hosts hhost')]
  constructor
  · rintro rfl
    rw [hfiled] at hfiled'
    exact congrArg Prod.snd (Option.some.inj hfiled')
  · rintro rfl
    exact h.kept.addressed.distinct key key' a hfiled hfiled'

/-- Whatever gets lost, each appliance that attached has an address of its own, which the
fabric keeps for it. -/
theorem enrolled_exec (page : Text) (devices : ι → Device) {config : FabricConfig}
    (haddress : config.address ≠ "") {registry : PeerRegistry} (hregistry : registry.Written)
    {fabricKey : String} {es : List (ι × Attempt)}
    (hkey : ∀ e ∈ es, ∀ k, e.2.fabricKey = .ok k → k = fabricKey) :
    let w := Runs.exec (step page devices) ⟨.init config registry, fun _ => none⟩ es
    (∀ i key peer, w.peers i = some (key, peer) → Enrolled config fabricKey w.fleet key peer) ∧
      ∀ i key peer j key' peer', w.peers i = some (key, peer) → w.peers j = some (key', peer') →
        (key = key' ↔ peer.assignedAddress = peer'.assignedAddress) := by
  have hstart : Consistent config fabricKey
      (⟨.init config registry, fun _ => none⟩ : World ι) := by
    refine ⟨⟨hregistry, ⟨hregistry.distinct, ?_, ?_⟩, ?_⟩, rfl, ?_⟩
    · simp [Fleet.init]
    · simp [Fleet.init]
    · simp [Fleet.init, App.init, FabricWireGuard.init]
    · simp
  have hend : Consistent config fabricKey (Runs.exec (step page devices) _ es) :=
    Runs.exec_keeps (fun w e he h => consistent_step haddress (hkey e he) h) hstart
  exact ⟨fun i key peer hi => hend.enrolled hi,
    fun i key peer j key' peer' hi hj => hend.distinct hi hj⟩

def houses (_ : Bool) : Device where
  client :=
    { interface := text "wg0"
      fabricMin := text "0.0.0"
      username := text "admin"
      password := text "secret"
      privateKeyPath := text "/etc/wireguard/wifucked-privatekey" }
  serverUrl := text "http://fabric.example:8081"
  version := "0.1.0"

def houseAttempt (key : String) (register : Delivery) : Attempt where
  limit := 900
  serverLimit := 900
  badHost := fun _ => false
  health := .answered
  register := register
  uptime := text "12.5"
  region := text "unknown"
  keyFile := .text (text key)
  ran := fun _ => .done
  setup := .ok ()
  set := .ok ()
  fabricKey := .ok "fabric"
  limit_pos := by decide
  serverLimit_pos := by decide
  literal := by rfl
  good_region := ⟨JsonText.plain_text _, JsonText.joined_text _⟩
  decoded := by
    rintro t ht
    obtain rfl := File.text.inj ht
    exact JsonText.scalar_text key

/-- The first reply to one house is lost. -/
def houseAttempts : List (Bool × Attempt) :=
  [(false, houseAttempt "first\n" (.failed true)), (true, houseAttempt "second\n" .answered),
    (false, houseAttempt "first\n" .answered)]

def houseWorld : World Bool :=
  Runs.exec (step [] houses)
    ⟨.init ⟨"fabric.example:51820", "admin", "secret"⟩ ⟨Fabric.tunnelPool, .missing⟩,
      fun _ => none⟩ houseAttempts

theorem enrolled_houses : (∀ house, (houseWorld.peers house).isSome = true) ∧
    (∀ house key peer, houseWorld.peers house = some (key, peer) →
      Enrolled ⟨"fabric.example:51820", "admin", "secret"⟩ "fabric" houseWorld.fleet key peer) ∧
    ∀ house key peer house' key' peer', houseWorld.peers house = some (key, peer) →
      houseWorld.peers house' = some (key', peer') →
        (key = key' ↔ peer.assignedAddress = peer'.assignedAddress) :=
  ⟨by decide +kernel,
    enrolled_exec [] houses (by decide) (.absent Fabric.tunnelPool)
      (by simp [houseAttempts, houseAttempt])⟩

end Wifucked.Enrolment
