import Wifucked.Fabric.WireGuard

/-!
# What `/register` makes of any request

A body is whatever JSON came in. Its fields go unchecked into comparisons, a
dictionary, a file and a command, each of which takes some types only; what it
raises for the others is caught nowhere. What the commands come to is part of the
request, and what they do to the kernel is left to `FabricWireGuard`.
-/

namespace Wifucked.Fabric.Requests

/-- Code points, lone surrogates among them. -/
abbrev Text := List ℕ

def text (s : String) : Text := s.toList.map Char.toNat

/-- A lone surrogate becomes a character that no version number has. -/
def Text.toString (t : Text) : String := .ofList (t.map Char.ofNat)

def Text.Ascii (t : Text) : Prop := ∀ c ∈ t, c < 128

instance (t : Text) : Decidable t.Ascii := inferInstanceAs (Decidable (∀ c ∈ t, c < 128))

/-- What `execve` can be given: no NUL, and no surrogate but those that stand for bytes. -/
def Text.Argument (t : Text) : Prop :=
  ∀ c ∈ t, c ≠ 0 ∧ (c < 0xD800 ∨ 0xDC80 ≤ c ∧ c ≤ 0xDCFF ∨ 0xDFFF < c)

instance (t : Text) : Decidable t.Argument :=
  inferInstanceAs (Decidable (∀ c ∈ t,
    c ≠ 0 ∧ (c < 0xD800 ∨ 0xDC80 ≤ c ∧ c ≤ 0xDCFF ∨ 0xDFFF < c)))

/-- A number is known by whether it is zero and by what `json.dumps` writes for it. -/
inductive Json where
  | null
  | bool (b : Bool)
  | number (zero : Bool) (written : Text)
  | string (s : Text)
  | array (items : List Json)
  | object (fields : List (Text × Json))

namespace Json

def truthy : Json → Bool
  | .null => false
  | .bool b => b
  | .number zero _ => !zero
  | .string s => !s.isEmpty
  | .array items => !items.isEmpty
  | .object fields => !fields.isEmpty

def hashable : Json → Bool
  | .array _ => false
  | .object _ => false
  | _ => true

/-- The key that a dictionary with this one has in its file. -/
def written : Json → Text
  | .null => text "null"
  | .bool true => text "true"
  | .bool false => text "false"
  | .number _ written => written
  | .string s => s
  | .array _ => []
  | .object _ => []

end Json

/-- `payload.get`, where the last of two equal names counts. -/
def field (fields : List (Text × Json)) (name : String) : Json :=
  (fields.reverse.lookup (text name)).getD (.string [])

inductive Raised where
  | attributeError
  | typeError
  | valueError
  | wireGuardError (detail : Text)
  deriving DecidableEq

/-- How a command, or a few of them in a row, can fail. -/
inductive Failure where
  | wireGuardError (detail : Text)
  /-- A `UnicodeDecodeError` of what it printed, or of the file of the private key. -/
  | undecodable

def Failure.raised : Failure → Raised
  | .wireGuardError detail => .wireGuardError detail
  | .undecodable => .valueError

structure Response where
  status : ℕ
  body : List (String × Text)
  deriving DecidableEq

/-- The user name and the password of the header, if it has them. -/
structure Request where
  authorization : Option (Option Text × Option Text)
  /-- What `get_json` made of the body, if it is JSON. -/
  body : Option Json
  setup : Except Failure Unit
  set : Except Failure Unit
  pubkey : Except Failure Text

structure Server where
  config : FabricConfig
  network : Network
  /-- The file of peers, where there is one that can be read. -/
  peers : Option (Keyed (Text × Address) Prod.fst)
  ready : Bool
  publicKey : Option Text

def compareDigest (a b : Text) : Except Raised Bool :=
  if a.Ascii ∧ b.Ascii then .ok (a = b) else .error .typeError

def requireAuth (config : FabricConfig) : Option (Option Text × Option Text) → Except Raised Bool
  | none => .ok false
  | some (username, password) => do
    if ← compareDigest (username.getD []) (text config.username) then
      compareDigest (password.getD []) (text config.password)
    else return false

/-- Python's `or` makes an empty body of any type an empty dictionary. -/
def payload : Option Json → Except Raised (List (Text × Json))
  | none => .ok []
  | some body =>
    if body.truthy then
      match body with
      | .object fields => .ok fields
      | _ => .error .attributeError
    else .ok []

def versionOf : Json → Except Raised (List ℤ)
  | .string version => .ok (versionTuple version.toString)
  | _ => .error .attributeError

namespace Server

variable (s : Server)

def load : Keyed (Text × Address) Prod.fst := s.peers.getD .empty

def serverAddress : Address := s.network.address + 1

def nextFree : Option Address :=
  let used := s.serverAddress :: s.load.values.map Prod.snd
  s.network.hosts.find? fun candidate => candidate ∉ used

def store (key : Text) (address : Address) : Server :=
  { s with peers := some (s.load.put (key, address)) }

/-- A key that is no text is never found, as the file has texts for keys; and
`sort_keys` cannot order it among them. -/
def allocateOther (written : Text) : Except Raised (Option (Server × Address)) :=
  match s.nextFree with
  | none => .ok none
  | some address =>
    if s.load.values = [] then .ok (some (s.store written address, address))
    else .error .typeError

/-- `none` is `PoolExhausted`. -/
def allocate (publicKey : Json) : Except Raised (Option (Server × Address)) :=
  match publicKey with
  | .array _ => .error .typeError
  | .object _ => .error .typeError
  | .string key =>
    match s.load.get? key with
    | some existing => .ok (some (s, existing.2))
    | none => .ok (s.nextFree.map fun address => (s.store key address, address))
  | other => s.allocateOther other.written

def ensureReady (setup : Except Failure Unit) : Except Failure Server :=
  if s.ready then .ok s else setup.map fun _ => { s with ready := true }

end Server

def addPeer (publicKey : Json) (set : Except Failure Unit) : Except Raised Unit :=
  match publicKey with
  | .string key => if key.Argument then set.mapError Failure.raised else .error .valueError
  | _ => .error .typeError

def Server.fabricKey (s : Server) (pubkey : Except Failure Text) : Except Raised (Server × Text) :=
  match s.publicKey with
  | some key => .ok (s, key)
  | none => (pubkey.mapError Failure.raised).map fun key => ({ s with publicKey := some key }, key)

def refuse (status : ℕ) (error : String) (detail : Text) : Response :=
  ⟨status, [("error", text error), ("detail", detail)]⟩

namespace Server

variable (s : Server)

def enrol (publicKey : Json) (address : Address) (r : Request) :
    Server × Except Raised Response :=
  match addPeer publicKey r.set with
  | .error (.wireGuardError detail) => (s, .ok (refuse 503 "could not add tunnel peer" detail))
  | .error e => (s, .error e)
  | .ok _ =>
    match s.fabricKey r.pubkey with
    | .error e => (s, .error e)
    | .ok (s, key) =>
      (s, .ok ⟨200, [("assigned_address", text (dotted address ++ "/32")),
        ("fabric_public_key", key), ("endpoint", text s.config.address),
        ("tunnel_pool", text s.network.text)]⟩)

def join (publicKey : Json) (r : Request) : Server × Except Raised Response :=
  match s.allocate publicKey with
  | .error e => (s, .error e)
  | .ok none =>
    (s, .ok (refuse 503 "tunnel address pool exhausted"
      (text ("tunnel pool " ++ s.network.text ++ " has no free address"))))
  | .ok (some (s, address)) => s.enrol publicKey address r

def connect (publicKey : Json) (r : Request) : Server × Except Raised Response :=
  match s.ensureReady r.setup with
  | .error (.wireGuardError detail) =>
    (s, .ok (refuse 503 "tunnel backend unavailable" detail))
  | .error .undecodable => (s, .error .valueError)
  | .ok s => s.join publicKey r

def check (version publicKey : Json) (r : Request) : Server × Except Raised Response :=
  if publicKey.truthy then
    match versionOf version with
    | .error e => (s, .error e)
    | .ok v =>
      if v < versionTuple minApplianceVersion then
        (s, .ok ⟨409, [("error", text "appliance too old for this fabric"),
          ("appliance_version", version.written),
          ("min_appliance_version", text minApplianceVersion)]⟩)
      else s.connect publicKey r
  else (s, .ok ⟨400, [("error", text "public_key is required")]⟩)

def register (r : Request) : Server × Except Raised Response :=
  match requireAuth s.config r.authorization with
  | .error e => (s, .error e)
  | .ok false => (s, .ok ⟨401, [("error", text "authentication required")]⟩)
  | .ok true =>
    match payload r.body with
    | .error e => (s, .error e)
    | .ok fields => s.check (field fields "version") (field fields "public_key") r

end Server

-- ---------------------------------------------------------------------------
-- What is asked of the code
-- ---------------------------------------------------------------------------

/-- The password is compared only where the user name is right. -/
def Comparable (config : FabricConfig) : Option (Option Text × Option Text) → Prop
  | none => True
  | some (username, password) =>
    ((username.getD []).Ascii ∧ (text config.username).Ascii) ∧
      (username.getD [] = text config.username →
        (password.getD []).Ascii ∧ (text config.password).Ascii)

def fieldsOf : Option Json → List (Text × Json)
  | some (.object fields) => fields
  | _ => []

namespace Request

def version (r : Request) : Json := field (fieldsOf r.body) "version"

def publicKey (r : Request) : Json := field (fieldsOf r.body) "public_key"

def Compatible (r : Request) : Prop :=
  ∃ v, versionOf r.version = .ok v ∧ ¬ v < versionTuple minApplianceVersion

end Request

namespace Server

variable (s : Server)

def Valid (r : Request) : Prop := requireAuth s.config r.authorization = .ok true

def Backed (r : Request) : Prop := s.ready = true ∨ r.setup = .ok ()

/-- The request is answered, and the file changes for a new peer only. -/
structure Proper (r : Request) : Prop where
  answered : ∃ response, (s.register r).2 = .ok response ∧
    response.status ∈ [200, 400, 401, 409, 503]
  consumes : (s.register r).1.peers ≠ s.peers → s.Valid r ∧ r.Compatible ∧ s.Backed r ∧
    ∃ key, r.publicKey = .string key ∧ key ≠ [] ∧ s.load.get? key = none

def Exhausted (key : Json) : Prop :=
  s.nextFree = none ∧ ∀ k, key = .string k → s.load.get? k = none

/-- What the call of `allocate`, and what follows it, can take. -/
structure Takes (key : Json) (r : Request) : Prop where
  hashable : key.hashable = true
  argument : ¬ s.Exhausted key → ∃ k, key = .string k ∧ k.Argument
  output : ¬ s.Exhausted key → r.set ≠ .error .undecodable
  fabricKey : ¬ s.Exhausted key → r.set = .ok () → s.publicKey = none → ∃ k, r.pubkey = .ok k

/-- Nothing that the checks, the dictionary or the commands get is of a type
that they raise for, what the commands print decodes, and the fabric's own key can
be had where it is asked for. -/
structure Handled (r : Request) : Prop where
  credentials : Comparable s.config r.authorization
  body : s.Valid r → ∀ body, r.body = some body → body.truthy = true →
    ∃ fields, body = .object fields
  version : s.Valid r → r.publicKey.truthy = true → ∃ v, r.version = .string v
  setup : s.Valid r → r.publicKey.truthy = true → r.Compatible → s.ready = false →
    r.setup ≠ .error .undecodable
  publicKey : s.Valid r → r.publicKey.truthy = true → r.Compatible → s.Backed r →
    s.Takes r.publicKey r

end Server

-- ---------------------------------------------------------------------------
-- What each part raises for
-- ---------------------------------------------------------------------------

theorem compareDigest_eq (h : x.Ascii ∧ y.Ascii) : compareDigest x y = .ok (decide (x = y)) :=
  if_pos h

theorem compareDigest_ok : (∃ b, compareDigest x y = .ok b) ↔ x.Ascii ∧ y.Ascii := by
  constructor
  · rintro ⟨b, hb⟩
    unfold compareDigest at hb
    split at hb
    · assumption
    · cases hb
  · intro h
    exact ⟨_, compareDigest_eq h⟩

theorem requireAuth_some (config : FabricConfig) (u p : Option Text) :
    requireAuth config (some (u, p)) =
      (compareDigest (u.getD []) (text config.username)).bind fun same =>
        if same then compareDigest (p.getD []) (text config.password) else .ok false := rfl

theorem requireAuth_ok (config : FabricConfig) (auth : Option (Option Text × Option Text)) :
    (∃ b, requireAuth config auth = .ok b) ↔ Comparable config auth := by
  cases auth with
  | none => exact ⟨fun _ => trivial, fun _ => ⟨false, rfl⟩⟩
  | some auth =>
    obtain ⟨u, p⟩ := auth
    rw [requireAuth_some, Comparable]
    by_cases hu : (u.getD []).Ascii ∧ (text config.username).Ascii
    · rw [compareDigest_eq hu]
      by_cases hsame : u.getD [] = text config.username
      · have hthen : (Except.ok (decide (u.getD [] = text config.username))).bind (fun same =>
            if same then compareDigest (p.getD []) (text config.password) else .ok false) =
            compareDigest (p.getD []) (text config.password) := by
          simp [Except.bind, hsame]
        rw [hthen, compareDigest_ok]
        exact ⟨fun h => ⟨hu, fun _ => h⟩, fun h => h.2 hsame⟩
      · simp [Except.bind, hsame, hu]
    · have hraise : compareDigest (u.getD []) (text config.username) = .error .typeError :=
        if_neg hu
      simp [hraise, Except.bind, hu]

theorem payload_ok : payload body = .ok fields ↔
    (∀ b, body = some b → b.truthy = true → ∃ fields, b = .object fields) ∧
      fieldsOf body = fields := by
  cases body with
  | none => simp [payload, fieldsOf]
  | some b =>
    cases b with
    | object fs =>
      cases fs with
      | nil => simp [payload, fieldsOf, Json.truthy]
      | cons f fs => simp [payload, fieldsOf, Json.truthy]
    | _ =>
      simp only [payload, fieldsOf]
      split <;> simp_all

theorem payload_error (h : payload body = .error e) : fieldsOf body = [] := by
  unfold payload at h
  split at h
  · cases h
  · rename_i b
    split at h
    · cases b with
      | object fields => cases h
      | _ => rfl
    · cases h

theorem versionOf_ok (version : Json) :
    (∃ v, versionOf version = .ok v) ↔ ∃ v, version = .string v := by
  constructor
  · rintro ⟨v, h⟩
    cases version with
    | string version => exact ⟨version, rfl⟩
    | _ => cases h
  · rintro ⟨v, rfl⟩
    exact ⟨_, rfl⟩

namespace Server

variable {s : Server}

/-- What `allocate` comes to: the key is there, it gets an address, the pool is
exhausted, or the dictionary or the file takes no such key. -/
inductive Allocates (s : Server) : Json → Except Raised (Option (Server × Address)) → Prop
  | known : s.load.get? k = some (k, a) → Allocates s (.string k) (.ok (some (s, a)))
  | fresh {key : Json} : (∀ k, key = .string k → s.load.get? k = none) → key.hashable = true →
      s.nextFree = some a → ((∃ k, key = .string k) ∨ s.load.values = []) →
      Allocates s key (.ok (some (s.store key.written a, a)))
  | exhausted {key : Json} : s.Exhausted key → key.hashable = true → Allocates s key (.ok none)
  | raises {key : Json} : (∀ k, key ≠ .string k) → (key.hashable = true → s.nextFree ≠ none) →
      Allocates s key (.error .typeError)

theorem allocates_other {key : Json} (hkey : ∀ k, key ≠ .string k)
    (hhash : key.hashable = true) : Allocates s key (s.allocateOther key.written) := by
  unfold allocateOther
  split
  · rename_i hfree
    exact .exhausted ⟨hfree, fun k hk => absurd hk (hkey k)⟩ hhash
  · rename_i a hfree
    split
    · rename_i hempty
      exact .fresh (fun k hk => absurd hk (hkey k)) hhash hfree (.inr hempty)
    · exact .raises hkey fun _ => by simp [hfree]

theorem allocates (s : Server) (key : Json) : Allocates s key (s.allocate key) := by
  cases key with
  | string k =>
    simp only [allocate]
    split
    · rename_i e he
      obtain ⟨j, a⟩ := e
      obtain rfl : j = k := Keyed.key_of_get? he
      exact .known he
    · rename_i hnone
      have hunknown : ∀ j, Json.string k = .string j → s.load.get? j = none := by
        rintro j hj
        rw [← Json.string.inj hj, hnone]
      cases hfree : s.nextFree with
      | none => exact .exhausted ⟨hfree, hunknown⟩ rfl
      | some a => exact .fresh hunknown rfl hfree (.inl ⟨k, rfl⟩)
  | array items => exact .raises (fun k h => by cases h) fun h => by cases h
  | object fields => exact .raises (fun k h => by cases h) fun h => by cases h
  | null => exact allocates_other (fun k h => by cases h) rfl
  | bool b => exact allocates_other (fun k h => by cases h) rfl
  | number zero written => exact allocates_other (fun k h => by cases h) rfl

/-- The answers that a step of the request may give. -/
def Answered (out : Server × Except Raised Response) : Prop :=
  ∃ response, out.2 = .ok response ∧ response.status ∈ [200, 400, 401, 409, 503]

theorem not_answered {out : Server × Except Raised Response} (h : out.2 = .error e) :
    ¬ Answered out := by
  rintro ⟨response, hr, -⟩
  rw [h] at hr
  cases hr

theorem fabricKey_ok (s : Server) (pubkey : Except Failure Text) :
    (∃ out, s.fabricKey pubkey = .ok out) ↔ (s.publicKey = none → ∃ k, pubkey = .ok k) := by
  unfold fabricKey
  cases s.publicKey with
  | some key => simp
  | none =>
    cases pubkey with
    | ok key => simp [Except.mapError, Except.map]
    | error detail => simp [Except.mapError, Except.map]

theorem fabricKey_peers (h : s.fabricKey pubkey = .ok (s', key)) : s'.peers = s.peers := by
  unfold fabricKey at h
  split at h
  · cases h
    rfl
  · cases pubkey with
    | ok key =>
      cases h
      rfl
    | error detail => cases h

theorem enrol_peers (s : Server) (key : Json) (a : Address) (r : Request) :
    (s.enrol key a r).1.peers = s.peers := by
  unfold enrol
  split
  · rfl
  · rfl
  · split
    · rfl
    · rename_i hkey
      exact fabricKey_peers hkey

theorem addPeer_string {k : Text} {set : Except Failure Unit} (h : k.Argument) :
    addPeer (.string k) set = set.mapError Failure.raised :=
  if_pos h

theorem enrol_answered {key : Json} :
    Answered (s.enrol key a r) ↔ (∃ k, key = .string k ∧ k.Argument) ∧
      r.set ≠ .error .undecodable ∧
        (r.set = .ok () → s.publicKey = none → ∃ k, r.pubkey = .ok k) := by
  by_cases hkey : ∃ k, key = .string k ∧ k.Argument
  · obtain ⟨k, rfl, hk⟩ := hkey
    unfold enrol
    rw [addPeer_string hk]
    cases hset : r.set with
    | error failure =>
      cases failure with
      | wireGuardError detail =>
        refine ⟨fun _ => ⟨⟨k, rfl, hk⟩, by simp, fun h => by cases h⟩, fun _ => ⟨_, rfl, ?_⟩⟩
        simp [refuse]
      | undecodable => exact ⟨fun h => absurd h (not_answered rfl), fun h => absurd rfl h.2.1⟩
    | ok u =>
      simp only [Except.mapError]
      have hfabric := fabricKey_ok s r.pubkey
      cases hout : s.fabricKey r.pubkey with
      | error e =>
        rw [hout] at hfabric
        refine ⟨fun h => absurd h (not_answered rfl), ?_⟩
        rintro ⟨-, -, h⟩
        obtain ⟨out, hout⟩ := hfabric.mpr (h trivial)
        cases hout
      | ok out =>
        rw [hout] at hfabric
        refine ⟨fun _ => ⟨⟨k, rfl, hk⟩, by simp, fun _ => hfabric.mp ⟨out, rfl⟩⟩,
          fun _ => ⟨_, rfl, ?_⟩⟩
        simp
  · refine ⟨fun h => absurd h ?_, fun h => absurd h.1 hkey⟩
    unfold enrol
    cases key with
    | string k =>
      have hk : ¬ k.Argument := fun hk => hkey ⟨k, rfl, hk⟩
      have hraise : addPeer (.string k) r.set = .error .valueError := if_neg hk
      rw [hraise]
      exact not_answered rfl
    | _ => exact not_answered rfl

theorem takes_iff {key : Json} (hhash : key.hashable = true) (hex : ¬ s.Exhausted key) :
    s.Takes key r ↔ (∃ k, key = .string k ∧ k.Argument) ∧ r.set ≠ .error .undecodable ∧
      (r.set = .ok () → s.publicKey = none → ∃ k, r.pubkey = .ok k) :=
  ⟨fun h => ⟨h.argument hex, h.output hex, h.fabricKey hex⟩,
    fun h => ⟨hhash, fun _ => h.1, fun _ => h.2.1, fun _ => h.2.2⟩⟩

theorem join_answered {key : Json} : Answered (s.join key r) ↔ s.Takes key r := by
  have halloc := allocates s key
  unfold join
  generalize s.allocate key = out at halloc
  cases halloc with
  | @known k a hk =>
    have hex : ¬ s.Exhausted (.string k) := by
      rintro ⟨-, hunknown⟩
      rw [hunknown k rfl] at hk
      cases hk
    rw [takes_iff rfl hex]
    exact enrol_answered
  | fresh _ hhash hfree _ =>
    have hex : ¬ s.Exhausted key := by
      rintro ⟨hnone, -⟩
      rw [hnone] at hfree
      cases hfree
    rw [takes_iff hhash hex]
    exact enrol_answered
  | exhausted hex hhash =>
    refine ⟨fun _ => ⟨hhash, fun h => absurd hex h, fun h => absurd hex h, fun h => absurd hex h⟩,
      fun _ => ⟨_, rfl, ?_⟩⟩
    simp [refuse]
  | raises hkey hfree =>
    refine ⟨fun h => absurd h (not_answered rfl), ?_⟩
    intro h
    obtain ⟨k, hk, -⟩ := h.argument fun hex => hfree h.hashable hex.1
    exact absurd hk (hkey k)

theorem join_peers {key : Json} (h : (s.join key r).1.peers ≠ s.peers) :
    ∃ a, s.nextFree = some a ∧
      (s.join key r).1.peers = (s.store key.written a).peers ∧
      ((∃ k, key = .string k ∧ s.load.get? k = none) ∨
        (∀ k, key ≠ .string k) ∧ s.load.values = []) := by
  have halloc := allocates s key
  unfold join at h ⊢
  generalize s.allocate key = out at halloc h
  cases halloc with
  | known hk => exact absurd (enrol_peers _ _ _ _) h
  | @fresh a _ hunknown _ hfree hempty =>
    refine ⟨a, hfree, enrol_peers _ _ _ _, ?_⟩
    by_cases hkey : ∃ k, key = .string k
    · obtain ⟨k, hk⟩ := hkey
      exact .inl ⟨k, hk, hunknown k hk⟩
    · exact .inr ⟨fun k hk => hkey ⟨k, hk⟩, hempty.resolve_left hkey⟩
  | exhausted _ _ => exact absurd rfl h
  | raises _ _ => exact absurd rfl h

/-- The tunnel backend is there, or the answer says that it is not, if what its
commands print decodes. -/
theorem connect_cases (s : Server) (key : Json) (r : Request) :
    (∃ ready, s.Backed r ∧ s.connect key r = ({ s with ready } : Server).join key r) ∨
      ¬ s.Backed r ∧ s.ready = false ∧ (s.connect key r).1 = s ∧
        (Answered (s.connect key r) ↔ r.setup ≠ .error .undecodable) := by
  unfold connect ensureReady
  by_cases hready : s.ready = true
  · left
    refine ⟨true, .inl hready, ?_⟩
    rw [if_pos hready, ← hready]
  · rw [if_neg hready]
    cases hsetup : r.setup with
    | ok u => exact .inl ⟨true, .inr hsetup, rfl⟩
    | error failure =>
      right
      have hnot : ¬ s.Backed r := by
        rintro (h | h)
        · exact hready h
        · rw [hsetup] at h
          cases h
      have hready : s.ready = false := by simpa using hready
      cases failure with
      | wireGuardError detail =>
        exact ⟨hnot, hready, rfl, fun _ => by simp, fun _ => ⟨_, rfl, by simp [refuse]⟩⟩
      | undecodable =>
        exact ⟨hnot, hready, rfl, fun h => absurd h (not_answered rfl), fun h => absurd rfl h⟩

theorem takes_ready {key : Json} (ready : Bool) :
    ({ s with ready } : Server).Takes key r ↔ s.Takes key r :=
  ⟨fun h => ⟨h.hashable, h.argument, h.output, h.fabricKey⟩,
    fun h => ⟨h.hashable, h.argument, h.output, h.fabricKey⟩⟩

theorem connect_answered {key : Json} :
    Answered (s.connect key r) ↔
      (s.ready = false → r.setup ≠ .error .undecodable) ∧ (s.Backed r → s.Takes key r) := by
  obtain ⟨ready, hbacked, heq⟩ | ⟨hbacked, hready, -, hanswered⟩ := connect_cases s key r
  · rw [heq, join_answered, takes_ready]
    refine ⟨fun h => ⟨fun hready => ?_, fun _ => h⟩, fun h => h.2 hbacked⟩
    rw [hbacked.resolve_left (by simp [hready])]
    simp
  · rw [hanswered]
    exact ⟨fun h => ⟨fun _ => h, fun hb => absurd hb hbacked⟩, fun h => h.1 hready⟩

theorem check_answered {version key : Json} :
    Answered (s.check version key r) ↔ (key.truthy = true → ∃ v, version = .string v) ∧
      (key.truthy = true → (∃ v, versionOf version = .ok v ∧
        ¬ v < versionTuple minApplianceVersion) →
          (s.ready = false → r.setup ≠ .error .undecodable) ∧
            (s.Backed r → s.Takes key r)) := by
  unfold check
  by_cases hkey : key.truthy = true
  · rw [if_pos hkey]
    have hok := versionOf_ok version
    cases hversion : versionOf version with
    | error e =>
      rw [hversion] at hok
      refine ⟨fun h => absurd h (not_answered rfl), fun h => ?_⟩
      obtain ⟨v, hv⟩ := hok.mpr (h.1 hkey)
      cases hv
    | ok v =>
      have hstring := hok.mp ⟨v, hversion⟩
      simp only
      by_cases hold : v < versionTuple minApplianceVersion
      · rw [if_pos hold]
        refine ⟨fun _ => ⟨fun _ => hstring, fun _ hv => ?_⟩, fun _ => ⟨_, rfl, by simp⟩⟩
        obtain ⟨w, hw, hnew⟩ := hv
        obtain rfl := Except.ok.inj hw
        exact absurd hold hnew
      · rw [if_neg hold, connect_answered]
        exact ⟨fun h => ⟨fun _ => hstring, fun _ _ => h⟩, fun h => h.2 hkey ⟨v, rfl, hold⟩⟩
  · rw [if_neg hkey]
    exact ⟨fun _ => ⟨fun h => absurd h hkey, fun h => absurd h hkey⟩, fun _ => ⟨_, rfl, by simp⟩⟩

theorem register_answered : Answered (s.register r) ↔ s.Handled r := by
  have hauth := requireAuth_ok s.config r.authorization
  unfold register
  cases hvalid : requireAuth s.config r.authorization with
  | error e =>
    rw [hvalid] at hauth
    refine ⟨fun h => absurd h (not_answered rfl), fun h => ?_⟩
    obtain ⟨b, hb⟩ := hauth.mpr h.credentials
    cases hb
  | ok valid =>
    have hcred := hauth.mp ⟨valid, hvalid⟩
    cases valid with
    | false =>
      have hnot : ¬ s.Valid r := by
        intro h
        rw [Valid, hvalid] at h
        cases h
      exact ⟨fun _ => ⟨hcred, fun h => absurd h hnot, fun h => absurd h hnot,
        fun h => absurd h hnot, fun h => absurd h hnot⟩, fun _ => ⟨_, rfl, by simp⟩⟩
    | true =>
      cases hpayload : payload r.body with
      | error e =>
        refine ⟨fun h => absurd h (not_answered rfl), fun h => ?_⟩
        have hok := payload_ok.mpr ⟨h.body hvalid, rfl⟩
        rw [hpayload] at hok
        cases hok
      | ok fields =>
        obtain ⟨hobject, rfl⟩ := payload_ok.mp hpayload
        simp only [check_answered]
        exact ⟨fun h => ⟨hcred, fun _ => hobject, fun _ => h.1,
            fun _ hkey hv => (h.2 hkey hv).1, fun _ hkey hv => (h.2 hkey hv).2⟩,
          fun h => ⟨h.version hvalid,
            fun hkey hv => ⟨h.setup hvalid hkey hv, h.publicKey hvalid hkey hv⟩⟩⟩

/-- The request passes every check, and its key is looked up. -/
structure Admits (s : Server) (r : Request) : Prop where
  valid : s.Valid r
  key : r.publicKey.truthy = true
  compatible : r.Compatible
  backed : s.Backed r

theorem check_cases (s : Server) (version key : Json) (r : Request) :
    ((key.truthy = true ∧ (∃ v, versionOf version = .ok v ∧
        ¬ v < versionTuple minApplianceVersion) ∧ s.Backed r) ∧
      ∃ ready, s.check version key r = ({ s with ready } : Server).join key r) ∨
    ¬ (key.truthy = true ∧ (∃ v, versionOf version = .ok v ∧
        ¬ v < versionTuple minApplianceVersion) ∧ s.Backed r) ∧
      (s.check version key r).1 = s := by
  unfold check
  by_cases hkey : key.truthy = true
  · rw [if_pos hkey]
    cases hversion : versionOf version with
    | error e =>
      right
      refine ⟨?_, rfl⟩
      rintro ⟨-, ⟨v, hv, -⟩, -⟩
      cases hv
    | ok v =>
      simp only
      by_cases hold : v < versionTuple minApplianceVersion
      · rw [if_pos hold]
        right
        refine ⟨?_, rfl⟩
        rintro ⟨-, ⟨w, hw, hnew⟩, -⟩
        obtain rfl := Except.ok.inj hw
        exact hnew hold
      · rw [if_neg hold]
        obtain ⟨ready, hbacked, heq⟩ | ⟨hbacked, -, hs, -⟩ := connect_cases s key r
        · exact .inl ⟨⟨hkey, ⟨v, rfl, hold⟩, hbacked⟩, ready, heq⟩
        · exact .inr ⟨fun h => hbacked h.2.2, hs⟩
  · rw [if_neg hkey]
    exact .inr ⟨fun h => hkey h.1, rfl⟩

/-- Either the file stays, or the request is admitted and what `join` does counts. -/
theorem register_cases (s : Server) (r : Request) :
    (s.Admits r ∧ ∃ ready, s.register r = ({ s with ready } : Server).join r.publicKey r) ∨
      ¬ s.Admits r ∧ (s.register r).1 = s := by
  unfold register
  cases hvalid : requireAuth s.config r.authorization with
  | error e =>
    refine .inr ⟨fun h => ?_, rfl⟩
    have hv := h.valid
    rw [Valid, hvalid] at hv
    cases hv
  | ok valid =>
    cases valid with
    | false =>
      refine .inr ⟨fun h => ?_, rfl⟩
      have hv := h.valid
      rw [Valid, hvalid] at hv
      cases hv
    | true =>
      cases hpayload : payload r.body with
      | error e =>
        refine .inr ⟨fun h => ?_, rfl⟩
        have hkey := h.key
        rw [Request.publicKey, payload_error hpayload] at hkey
        cases hkey
      | ok fields =>
        obtain ⟨-, rfl⟩ := payload_ok.mp hpayload
        obtain ⟨⟨hkey, hversion, hbacked⟩, hjoin⟩ | ⟨hnot, hs⟩ :=
          check_cases s r.version r.publicKey r
        · exact .inl ⟨⟨hvalid, hkey, hversion, hbacked⟩, hjoin⟩
        · exact .inr ⟨fun h => hnot ⟨h.key, h.compatible, h.backed⟩, hs⟩

theorem register_proper : s.Proper r ↔ s.Handled r := by
  constructor
  · intro h
    exact register_answered.mp h.answered
  · intro h
    refine ⟨register_answered.mpr h, ?_⟩
    intro hne
    obtain ⟨hadmits, ready, heq⟩ | ⟨-, hs⟩ := register_cases s r
    · rw [heq] at hne
      obtain ⟨a, hfree, -, hkey⟩ := join_peers (s := { s with ready }) hne
      have htakes := h.publicKey hadmits.valid hadmits.key hadmits.compatible hadmits.backed
      obtain ⟨k, hk, hunknown⟩ | ⟨hkey, -⟩ := hkey
      · refine ⟨hadmits.valid, hadmits.compatible, hadmits.backed, k, hk, ?_, hunknown⟩
        rintro rfl
        have htruthy := hadmits.key
        rw [hk] at htruthy
        cases htruthy
      · obtain ⟨k, hk, -⟩ := htakes.argument fun hex => by
          rw [Exhausted.eq_1, show s.nextFree = some a from hfree] at hex
          cases hex.1
        exact absurd hk (hkey k)
    · rw [hs] at hne
      exact absurd rfl hne

-- ---------------------------------------------------------------------------
-- Repeated requests
-- ---------------------------------------------------------------------------

def step (s : Server) (r : Request) : Server := (s.register r).1

/-- Requests with one body leave one address for its key, the first that one of
them was given, and nothing else. -/
structure Once (s : Server) (rs : List Request) (key : Json) : Prop where
  others : ∀ j, j ≠ key.written → (Runs.exec step s rs).load.get? j = s.load.get? j
  stands : ∀ pre r post, rs = pre ++ r :: post → (Runs.exec step s pre).Admits r →
    ∀ s' a, (Runs.exec step s pre).allocate key = .ok (some (s', a)) →
      (Runs.exec step s rs).load.get? key.written = some (key.written, a)

theorem load_of_peers {s t : Server} (h : s.peers = t.peers) : s.load = t.load := by
  rw [load, load, h]

/-- What a request changes in the file. -/
theorem step_load (s : Server) (r : Request) : (step s r).load = s.load ∨
    ∃ a, s.load.get? r.publicKey.written = none ∧
      (step s r).load = s.load.put (r.publicKey.written, a) := by
  obtain ⟨-, ready, heq⟩ | ⟨-, hs⟩ := register_cases s r
  · by_cases hpeers : (s.register r).1.peers = s.peers
    · exact .inl (load_of_peers hpeers)
    · rw [heq] at hpeers
      obtain ⟨a, -, hstore, hkey⟩ := join_peers (s := { s with ready }) hpeers
      refine .inr ⟨a, ?_, ?_⟩
      · obtain ⟨k, hk, hunknown⟩ | ⟨-, hempty⟩ := hkey
        · rw [hk]
          exact hunknown
        · cases hget : s.load.get? r.publicKey.written with
          | none => rfl
          | some e =>
            have hmem := (Keyed.get?_eq_some.mp hget).1
            rw [show s.load.values = [] from hempty] at hmem
            cases hmem
      · rw [step, heq]
        exact load_of_peers hstore
  · left
    rw [step, hs]

theorem allocateOther_ready (s : Server) (ready : Bool) (written : Text) :
    ({ s with ready } : Server).allocateOther written =
      (s.allocateOther written).map (Option.map fun out => ({ out.1 with ready }, out.2)) := by
  have hfree : ({ s with ready } : Server).nextFree = s.nextFree := rfl
  have hload : ({ s with ready } : Server).load = s.load := rfl
  unfold allocateOther
  rw [hfree, hload]
  cases s.nextFree with
  | none => rfl
  | some a =>
    simp only
    split <;> rfl

theorem allocate_ready (s : Server) (ready : Bool) (key : Json) :
    ({ s with ready } : Server).allocate key =
      (s.allocate key).map (Option.map fun out => ({ out.1 with ready }, out.2)) := by
  cases key with
  | string k =>
    have hfree : ({ s with ready } : Server).nextFree = s.nextFree := rfl
    have hload : ({ s with ready } : Server).load = s.load := rfl
    simp only [allocate, hfree, hload]
    cases s.load.get? k with
    | some e => rfl
    | none => cases s.nextFree <;> rfl
  | array items => rfl
  | object fields => rfl
  | null => exact allocateOther_ready s ready _
  | bool b => exact allocateOther_ready s ready _
  | number zero written => exact allocateOther_ready s ready _

theorem allocate_load {t : Server} (h : s.allocate key = .ok (some (t, a))) :
    t.load.get? key.written = some (key.written, a) := by
  have halloc := allocates s key
  rw [h] at halloc
  cases halloc with
  | known hk => exact hk
  | fresh _ _ _ _ => exact Keyed.get?_put_self _ _

theorem step_admitted {s' : Server} (hr : s.Admits r)
    (h : s.allocate r.publicKey = .ok (some (s', a))) :
    (step s r).load.get? r.publicKey.written = some (r.publicKey.written, a) := by
  obtain ⟨-, ready, heq⟩ | ⟨hnot, -⟩ := register_cases s r
  · have halloc := allocate_ready s ready r.publicKey
    rw [h] at halloc
    rw [step, heq, join, halloc]
    exact (congrArg (Keyed.get? · _) (load_of_peers (enrol_peers _ _ _ _))).trans
      (allocate_load (t := s') h)
  · exact absurd hr hnot

theorem step_others (s : Server) (r : Request) (hj : j ≠ r.publicKey.written) :
    (step s r).load.get? j = s.load.get? j := by
  obtain hs | ⟨a, -, hs⟩ := step_load s r
  · rw [hs]
  · rw [hs, Keyed.get?_put, if_neg hj.symm]

theorem step_stands (r : Request) (h : s.load.get? r.publicKey.written = some e) :
    (step s r).load.get? r.publicKey.written = some e := by
  obtain hs | ⟨a, hunknown, -⟩ := step_load s r
  · rw [hs, h]
  · rw [hunknown] at h
    cases h

theorem once (s : Server) {rs : List Request} {key : Json}
    (hkey : ∀ r ∈ rs, r.publicKey = key) : Once s rs key where
  others := by
    intro j hj
    refine Runs.exec_keeps (P := fun t : Server => t.load.get? j = s.load.get? j) ?_ rfl
    intro t r hr ht
    rw [← hkey r hr] at hj
    exact (step_others t r hj).trans ht
  stands := by
    rintro pre r post rfl hadmits s' a h
    obtain ⟨hr, hpost⟩ : r.publicKey = key ∧ ∀ r ∈ post, r.publicKey = key :=
      ⟨hkey r (by simp), fun r hr => hkey r (by simp [hr])⟩
    rw [Runs.exec_append, Runs.exec_cons]
    refine Runs.exec_keeps (P := fun t : Server => t.load.get? key.written = some (key.written, a))
      ?_ ?_
    · intro t r hr ht
      rw [← hpost r hr] at ht ⊢
      exact step_stands r ht
    · rw [← hr] at h ⊢
      exact step_admitted hadmits h

def fresh : Server :=
  ⟨⟨"fabric.example:8081", "admin", "secret"⟩, tunnelPool, none, false, none⟩

def numberRequest : Request where
  authorization := some (some (text "admin"), some (text "secret"))
  body := some (.object [(text "version", .string (text "0.1.0")),
    (text "public_key", .number false (text "5"))])
  setup := .ok ()
  set := .ok ()
  pubkey := .ok (text "fabric")

end Server

end Wifucked.Fabric.Requests
