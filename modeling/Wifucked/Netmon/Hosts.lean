import Wifucked.Lib.JsonLoaded
import Wifucked.Lib.Runs

/-!
# The hosts of the network monitor

The hosts that are monitored, as the dashboard's requests add, change and remove
them, and the file they are kept in. A request's body is any text that Python
can nest as deep as its values do. A new start finds the hosts that are
monitored, in their order, but for a request that changed them and could not
write the file.
-/

namespace Wifucked.Hosts

open JsonText (Text Value text)

-- ---------------------------------------------------------------------------
-- Configurations
-- ---------------------------------------------------------------------------

abbrev Config := Keyed (Text × Value) Prod.fst

def get (cfg : Config) (name : String) : Option Value := (cfg.get? (text name)).map Prod.snd

def set (cfg : Config) (name : String) (v : Value) : Config := cfg.put (text name, v)

def setdefault (cfg : Config) (name : String) (v : Value) : Config :=
  match get cfg name with
  | some _ => cfg
  | none => set cfg name v

def truthy : Value → Bool
  | .null => false
  | .bool b => b
  | .int i => i ≠ 0
  | .float literal => literal ≠ text "0.0" && literal ≠ text "-0.0"
  | .string s => s ≠ []
  | .array items => !items.isEmpty
  | .object fields => !fields.isEmpty

/-- What Python makes of values, how deep it can nest them, and `hosts.example.json`. -/
structure Env (κ : Type) where
  /-- The text of the float that a literal is. -/
  repr : Text → Text
  /-- A value as a key of a dictionary; `none` where it cannot be one. -/
  key : Value → Option κ
  startLimit : ℕ
  requestLimit : ℕ
  writeLimit : ℕ
  examples : Option Text

inductive Raised where
  | keyError
  | typeError
  | valueError
  | recursionError
  | osError
  deriving DecidableEq, Repr

variable {κ : Type} (env : Env κ)

abbrev Monitors (κ : Type) := Keyed (κ × Config) Prod.fst

def raised : JsonText.Raised → Raised
  | .decodeError => .valueError
  | .valueError => .valueError
  | .recursionError => .recursionError

def loadsJson (limit : ℕ) (t : Text) : Except Raised Value :=
  ((JsonText.loads limit t).map (Value.held env.repr)).mapError raised

def dumpsJson (v : Value) : Except Raised Text :=
  (JsonText.dumpsWithin env.writeLimit (JsonText.indented 2) v).mapError raised

def configs (monitors : Monitors κ) : Value :=
  .array (monitors.values.map fun m => .object m.2.values)

-- ---------------------------------------------------------------------------
-- What can be written
-- ---------------------------------------------------------------------------

/-- What can be written can be read at the start, and a host can be written. -/
structure Workable : Prop where
  reprs : JsonText.Reprs env.repr
  writeLimit_le : env.writeLimit ≤ env.startLimit
  two_le : 2 ≤ env.writeLimit

/-- The text is decoded, and its values nest no deeper than that. -/
def Within (limit room : ℕ) (t : Text) : Prop :=
  (∀ c ∈ t, JsonText.Scalar c) ∧ ∀ v, JsonText.loads limit t = .ok v → v.depth ≤ room

def FieldOk (f : Text × Value) : Prop := JsonText.HeldField env.repr (env.writeLimit - 2) f

def ConfigOk (m : κ × Config) : Prop :=
  m.2.All (FieldOk env) ∧ (get m.2 "id").bind env.key = some m.1

section

variable {env} {monitors : Monitors κ} {cfg : Config}

theorem get_set (cfg : Config) (name field : String) (v : Value) :
    get (set cfg field v) name = if text field = text name then some v else get cfg name := by
  unfold get set
  rw [Keyed.get?_put]
  split <;> rfl

theorem all_setdefault (h : cfg.All (FieldOk env)) (name : String)
    (hv : FieldOk env (text name, v)) : (setdefault cfg name v).All (FieldOk env) := by
  unfold setdefault
  split
  · exact h
  · exact Keyed.all_put h hv

theorem held_config (h : Workable env) (hcfg : cfg.All (FieldOk env)) :
    JsonText.Held env.repr (env.writeLimit - 1) (.object cfg.values) :=
  JsonText.held_object cfg.nodup hcfg (by have := h.two_le; omega)

theorem held_configs (h : Workable env) (hok : monitors.All (ConfigOk env)) :
    JsonText.Held env.repr env.writeLimit (configs monitors) := by
  refine JsonText.held_array (fun v hv => ?_) (by have := h.two_le; omega)
  obtain ⟨m, hm, rfl⟩ := List.mem_map.mp hv
  exact held_config h (hok m hm).1

/-- What is held is written as a text that a start reads as the same. -/
theorem dumpsJson_of_held (h : Workable env) (hv : JsonText.Held env.repr env.writeLimit v) :
    ∃ t, dumpsJson env v = .ok t ∧ loadsJson env env.startLimit t = .ok v := by
  obtain ⟨t, hdumps, hloads⟩ :=
    JsonText.dumpsWithin_of_held hv le_rfl h.writeLimit_le (JsonText.indented 2)
  refine ⟨t, ?_, ?_⟩
  · rw [dumpsJson, hdumps]
    rfl
  · rw [loadsJson, hloads]
    rfl

theorem held_of_loadsJson (h : Workable env) (ht : Within limit room t)
    (hloads : loadsJson env limit t = .ok v) : JsonText.Held env.repr room v := by
  unfold loadsJson at hloads
  cases hv : JsonText.loads limit t with
  | error e => rw [hv] at hloads; cases hloads
  | ok w =>
    rw [hv] at hloads
    cases hloads
    exact JsonText.held_of_depth h.reprs ht.1 hv (ht.2 w hv)

theorem all_ofList {fields : List (Text × Value)}
    (h : JsonText.Held env.repr (env.writeLimit - 1) (.object fields)) (hw : Workable env) :
    (Keyed.ofList fields : Config).All (FieldOk env) :=
  fun f hf => JsonText.heldField_of_held hw.reprs h f (Keyed.mem_of_mem_ofList hf)

theorem fieldOk_text (name : String) (hv : JsonText.Held env.repr 0 v) :
    FieldOk env (text name, v) :=
  ⟨⟨JsonText.plain_text name, JsonText.joined_text name⟩, hv.mono (Nat.zero_le _)⟩

theorem fieldOk_string (name : String) (h : ∀ c ∈ t, JsonText.Scalar c) :
    FieldOk env (text name, .string t) :=
  fieldOk_text name ⟨JsonText.good_string (JsonText.goodText_of_scalar h) 0, rfl⟩

end

variable [DecidableEq κ]

-- ---------------------------------------------------------------------------
-- The file
-- ---------------------------------------------------------------------------

def spawn (monitors : Monitors κ) : Value → Except Raised (Monitors κ)
  | .object fields =>
    let cfg : Config := .ofList fields
    match get cfg "id" with
    | none => .error .keyError
    | some id =>
      match env.key id with
      | none => .error .typeError
      | some k => .ok (monitors.put (k, cfg))
  | _ => .error .typeError

/-- What a loop over a value goes through. -/
def iterated : Value → Except Raised (List Value)
  | .array items => .ok items
  | .object fields => .ok (fields.map fun f => .string f.1)
  | .string s => .ok (s.map fun c => .string [c])
  | _ => .error .typeError

def spawnAll (configs : Value) : Except Raised (Monitors κ) := do
  (← iterated configs).foldlM (spawn env) .empty

/-- `hosts.json`; what a write leaves that was cut short ends within the list, and is
not read. -/
inductive File where
  | missing
  | text (t : Text)
  | cut
  deriving DecidableEq, Repr

/-- What `write_text` comes to: the file can be opened and written, or not. -/
inductive Write where
  | whole
  | unopened
  | cut
  deriving DecidableEq, Repr

def Write.leaves (file : File) (t : Text) : Write → File
  | .whole => .text t
  | .unopened => file
  | .cut => .cut

def load (write : Write) : File → File × Except Raised (Monitors κ)
  | .text t => (.text t, loadsJson env env.startLimit t >>= spawnAll env)
  | .cut => (.cut, .error .valueError)
  | .missing =>
    match env.examples with
    | none => (.missing, .ok .empty)
    | some t =>
      match loadsJson env env.startLimit t with
      | .error e => (.missing, .error e)
      | .ok configs =>
        match dumpsJson env configs with
        | .error e => (.missing, .error e)
        | .ok written =>
          (write.leaves .missing written,
            if write = .whole then spawnAll env configs else .error .osError)

/-- Where no process runs, nothing is monitored. -/
structure Manager (κ : Type) where
  running : Bool
  monitors : Monitors κ
  hostsFile : File

-- ---------------------------------------------------------------------------
-- Requests
-- ---------------------------------------------------------------------------

inductive Request where
  /-- `POST /api/hosts`, and the id that a host without one gets. -/
  | add (body uuid : Text)
  | update (hostId body : Text)
  | delete (hostId : Text)
  /-- The process ends, and a new one starts. -/
  | restart
  deriving DecidableEq

inductive Response where
  | created
  | updated
  | deleted
  | badRequest
  | notFound
  /-- 500, of an error before anything was changed. -/
  | serverError
  /-- 500, of an error after the monitors were changed. -/
  | unsaved
  /-- There is no process that answers. -/
  | down
  /-- A process that started, or could not. -/
  | started
  | failed
  deriving DecidableEq, Repr

def Response.accepted : Response → Bool
  | .created | .updated | .deleted | .started => true
  | _ => false

def Response.refused : Response → Bool
  | .badRequest | .notFound | .serverError | .down => true
  | _ => false

/-- `add_host`'s defaults. -/
def withDefaults (body : Config) (uuid : Text) : Config :=
  let cfg := setdefault body "id" (.string uuid)
  let cfg := setdefault cfg "vpn" (.string [])
  let cfg := setdefault cfg "interval_s" (.float (env.repr (text "0.1")))
  let cfg := setdefault cfg "timeout_s" (.int 2)
  setdefault cfg "beep_on_drop" (.bool true)

def persist (write : Write) (s : Manager κ) (monitors : Monitors κ) (response : Response) :
    Manager κ × Response :=
  match dumpsJson env (configs monitors) with
  | .ok t =>
    ({ s with monitors, hostsFile := write.leaves s.hostsFile t },
      if write = .whole then response else .unsaved)
  | .error _ => ({ s with monitors }, .unsaved)

def addHost (write : Write) (s : Manager κ) (cfg : Config) : Manager κ × Response :=
  match (get cfg "id").bind env.key with
  | none => (s, .serverError)
  | some k =>
    match s.monitors.get? k with
    | some _ => (s, .badRequest)
    | none => persist env write s (s.monitors.put (k, cfg)) .created

/-- `api_add_host`, of what the body was read as. -/
def apiAddHost (write : Write) (s : Manager κ) (uuid : Text) : Value → Manager κ × Response
  | .object fields =>
    let body : Config := .ofList fields
    if (get body "host").any truthy && (get body "name").any truthy then
      addHost env write s (withDefaults env body uuid)
    else (s, .badRequest)
  | _ => (s, .serverError)

/-- `update_host`, of what the body was read as. -/
def updateHost (write : Write) (s : Manager κ) (hostId : Text) (updates : Value) :
    Manager κ × Response :=
  match (env.key (.string hostId)).bind s.monitors.get? with
  | none => (s, .notFound)
  | some (k, cfg) =>
    match updates with
    | .object fields =>
      let newCfg := set (cfg.putAll (Keyed.ofList fields : Config).values) "id" (.string hostId)
      persist env write s (s.monitors.put (k, newCfg)) .updated
    | _ => (s, .serverError)

def deleteHost (write : Write) (s : Manager κ) (hostId : Text) : Manager κ × Response :=
  match (env.key (.string hostId)).bind s.monitors.get? with
  | none => (s, .notFound)
  | some (k, _) => persist env write s (s.monitors.filter fun m => m.1 ≠ k) .deleted

/-- What `get_json` makes of a body. -/
def withJson (s : Manager κ) (body : Text) (f : Value → Manager κ × Response) :
    Manager κ × Response :=
  match loadsJson env env.requestLimit body with
  | .ok v => f v
  | .error .recursionError => (s, .serverError)
  | .error _ => (s, .badRequest)

def restart (write : Write) (s : Manager κ) : Manager κ × Response :=
  match load env write s.hostsFile with
  | (file, .ok monitors) => (⟨true, monitors, file⟩, .started)
  | (file, .error _) => (⟨false, .empty, file⟩, .failed)

def serve (write : Write) (s : Manager κ) : Request → Manager κ × Response
  | .add body uuid => withJson env s body (apiAddHost env write s uuid)
  | .update hostId body => withJson env s body (updateHost env write s hostId)
  | .delete hostId => deleteHost env write s hostId
  | .restart => restart env write s

def answer (s : Manager κ) (turn : Request × Write) : Manager κ × Response :=
  if s.running ∨ turn.1 = .restart then serve env turn.2 s turn.1 else (s, .down)

def step (s : Manager κ) (turn : Request × Write) : Manager κ := (answer env s turn).1

-- ---------------------------------------------------------------------------
-- What can be written
-- ---------------------------------------------------------------------------

def Request.Writable : Request → Prop
  | .add body uuid =>
    Within env.requestLimit (env.writeLimit - 1) body ∧ ∀ c ∈ uuid, JsonText.Scalar c
  | .update hostId body =>
    Within env.requestLimit (env.writeLimit - 1) body ∧ ∀ c ∈ hostId, JsonText.Scalar c
  | .delete _ => True
  | .restart => True

/-- A start finds the hosts that are monitored, and leaves the file as it is. -/
def Found (s : Manager κ) : Prop :=
  ∀ write, load env write s.hostsFile = (s.hostsFile, .ok s.monitors)

/-- The hosts can be written, and so can those that a start would find. -/
structure Kept (s : Manager κ) : Prop where
  writable : s.monitors.All (ConfigOk env)
  readable : ∀ write left monitors, load env write s.hostsFile = (left, .ok monitors) →
    monitors.All (ConfigOk env) ∧ ∀ write', load env write' left = (left, .ok monitors)

/-- An answer changes the hosts only if it says so, and leaves them to be found unless it
says that they could not be saved. -/
structure Fair (write : Write) (s : Manager κ) (answer : Manager κ × Response) : Prop where
  kept : Kept env answer.1
  refused : answer.2.refused = true → answer.1 = s
  accepted : answer.2.accepted = true → answer.1.running = true ∧ Found env answer.1
  unsaved : answer.2 = .unsaved →
    write ≠ .whole ∧ (answer.1.hostsFile = s.hostsFile ∨ answer.1.hostsFile = .cut)
  failed : answer.2 = .failed → answer.1.running = false

variable {env} {s : Manager κ} {monitors : Monitors κ} {cfg : Config}

-- ---------------------------------------------------------------------------
-- Reading what was written
-- ---------------------------------------------------------------------------

theorem spawn_config (hid : (get cfg "id").bind env.key = some k) (monitors : Monitors κ) :
    spawn env monitors (.object cfg.values) = .ok (monitors.put (k, cfg)) := by
  obtain ⟨id, hget, hkey⟩ := Option.bind_eq_some_iff.mp hid
  simp [spawn, Keyed.ofList_values, hget, hkey]

theorem foldlM_spawn {l : List (κ × Config)}
    (h : ∀ m ∈ l, (get m.2 "id").bind env.key = some m.1) (monitors : Monitors κ) :
    (l.map fun m => Value.object m.2.values).foldlM (spawn env) monitors =
      .ok (monitors.putAll l) := by
  induction l generalizing monitors with
  | nil => rfl
  | cons m l ih =>
    rw [List.forall_mem_cons] at h
    rw [List.map_cons, List.foldlM_cons, spawn_config h.1]
    exact ih h.2 _

theorem spawnAll_configs (hok : monitors.All (ConfigOk env)) :
    spawnAll env (configs monitors) = .ok monitors := by
  have hfold := foldlM_spawn (fun m hm => (hok m hm).2) Keyed.empty
  rw [← Keyed.ofList, Keyed.ofList_values] at hfold
  exact hfold

theorem Kept.fair (hs : Kept env s) {response : Response} (h : response.refused = true) :
    Fair env write s (s, response) := by
  refine ⟨hs, fun _ => rfl, ?_, ?_, ?_⟩ <;> intro hr <;> cases response <;> cases h <;> cases hr

theorem Kept.fair_accepted {s' : Manager κ} (hs : Kept env s') {response : Response}
    (h : response.accepted = true) (hrunning : s'.running = true) (hfound : Found env s') :
    Fair env write s (s', response) := by
  refine ⟨hs, ?_, fun _ => ⟨hrunning, hfound⟩, ?_, ?_⟩ <;> intro hr <;> cases response <;>
    cases h <;> cases hr

theorem Kept.fair_unsaved {s' : Manager κ} (hs : Kept env s') (hwrite : write ≠ .whole)
    (hfile : s'.hostsFile = s.hostsFile ∨ s'.hostsFile = .cut) :
    Fair env write s (s', .unsaved) := by
  refine ⟨hs, ?_, ?_, fun _ => ⟨hwrite, hfile⟩, ?_⟩ <;> intro hr <;> cases hr

theorem Kept.fair_failed {s' : Manager κ} (hs : Kept env s') (hdown : s'.running = false) :
    Fair env write s (s', .failed) := by
  refine ⟨hs, ?_, ?_, ?_, fun _ => hdown⟩ <;> intro hr <;> cases hr

/-- An answer after which a process runs was accepted, or it could not be saved, or it
changed nothing. -/
theorem Fair.found {a : Manager κ × Response} (h : Fair env write s a) (hwrite : write = .whole)
    (hfound : s.running = true → Found env s) : a.1.running = true → Found env a.1 := by
  intro hrunning
  cases hr : a.2 with
  | created | updated | deleted | started => exact (h.accepted (by rw [hr]; rfl)).2
  | badRequest | notFound | serverError | down =>
    have hsame := h.refused (by rw [hr]; rfl)
    rw [hsame] at hrunning ⊢
    exact hfound hrunning
  | unsaved => exact absurd hwrite (h.unsaved hr).1
  | failed => exact absurd hrunning (by simp [h.failed hr])

theorem load_written (hok : monitors.All (ConfigOk env))
    (hloads : loadsJson env env.startLimit t = .ok (configs monitors)) (write : Write) :
    load env write (.text t) = (.text t, .ok monitors) := by
  rw [load, hloads]
  exact congrArg _ (spawnAll_configs hok)

theorem fair_persist (h : Workable env) (hs : Kept env s) (hrunning : s.running = true)
    (hok : monitors.All (ConfigOk env)) {response : Response}
    (hresponse : response.accepted = true) :
    Fair env write s (persist env write s monitors response) := by
  obtain ⟨t, hdumps, hloads⟩ := dumpsJson_of_held h (held_configs h hok)
  have hload := load_written hok hloads
  simp only [persist, hdumps]
  cases write with
  | whole =>
    have hkept : Kept env ⟨s.running, monitors, .text t⟩ := by
      refine ⟨hok, fun write left found hfound => ?_⟩
      cases (hload write).symm.trans hfound
      exact ⟨hok, hload⟩
    exact hkept.fair_accepted hresponse hrunning hload
  | unopened =>
    have hkept : Kept env ⟨s.running, monitors, s.hostsFile⟩ := ⟨hok, hs.readable⟩
    exact hkept.fair_unsaved (by simp) (.inl rfl)
  | cut =>
    have hkept : Kept env ⟨s.running, monitors, .cut⟩ := ⟨hok, fun _ _ _ hfound => by cases hfound⟩
    exact hkept.fair_unsaved (by simp) (.inr rfl)

-- ---------------------------------------------------------------------------
-- The first start
-- ---------------------------------------------------------------------------

theorem spawn_object (h : spawn env monitors (.object fields) = .ok spawned) :
    ∃ k, (get (.ofList fields) "id").bind env.key = some k ∧
      spawned = monitors.put (k, .ofList fields) := by
  simp only [spawn] at h
  cases hid : get (.ofList fields) "id" with
  | none => rw [hid] at h; cases h
  | some id =>
    cases hk : env.key id with
    | none => simp [hid, hk] at h
    | some k =>
      simp only [hid, hk, Except.ok.injEq] at h
      exact ⟨k, hk, h.symm⟩

theorem all_spawn (hw : Workable env) (hok : monitors.All (ConfigOk env))
    (hv : JsonText.Held env.repr (env.writeLimit - 1) v)
    (h : spawn env monitors v = .ok spawned) : spawned.All (ConfigOk env) := by
  cases v with
  | object fields =>
    obtain ⟨k, hid, rfl⟩ := spawn_object h
    exact Keyed.all_put hok ⟨all_ofList hv hw, hid⟩
  | _ => cases h

theorem all_foldlM_spawn {l : List Value} (hw : Workable env) (hok : monitors.All (ConfigOk env))
    (hl : ∀ v ∈ l, JsonText.Held env.repr (env.writeLimit - 1) v)
    (h : l.foldlM (spawn env) monitors = .ok spawned) : spawned.All (ConfigOk env) := by
  induction l generalizing monitors with
  | nil => cases h; exact hok
  | cons v l ih =>
    rw [List.forall_mem_cons] at hl
    rw [List.foldlM_cons] at h
    cases hspawn : spawn env monitors v with
    | error e => rw [hspawn] at h; cases h
    | ok next =>
      rw [hspawn] at h
      exact ih (all_spawn hw hok hl.1 hspawn) hl.2 h

theorem all_spawnAll (hw : Workable env) (hv : JsonText.Held env.repr env.writeLimit v)
    (h : spawnAll env v = .ok spawned) : spawned.All (ConfigOk env) := by
  have hstring : ∀ texts : List Text,
      (texts.map Value.string).foldlM (spawn env) Keyed.empty = .ok spawned →
        spawned.All (ConfigOk env) := by
    intro texts htexts
    cases texts with
    | nil => cases htexts; exact Keyed.all_empty
    | cons first rest => cases htexts
  cases v with
  | array items => exact all_foldlM_spawn hw Keyed.all_empty (JsonText.held_of_held_array hv) h
  | object fields => exact hstring (fields.map Prod.fst) (by rw [List.map_map]; exact h)
  | string s => exact hstring (s.map fun c => [c]) (by rw [List.map_map]; exact h)
  | _ => cases h

theorem load_missing (hw : Workable env)
    (hexamples : ∀ t ∈ env.examples, Within env.startLimit env.writeLimit t)
    {r : Except Raised (Monitors κ)} (h : load env write .missing = (left, r)) :
    (∀ write', load env write' .missing = (.missing, .ok (.empty : Monitors κ))) ∨
    (left = .missing ∨ left = .cut) ∧ (∃ e, r = .error e) ∨
      ∃ t v, left = .text t ∧ JsonText.Held env.repr env.writeLimit v ∧
        loadsJson env env.startLimit t = .ok v ∧ r = spawnAll env v := by
  cases ht : env.examples with
  | none => exact .inl fun write' => by simp [load, ht]
  | some t =>
    simp only [load, ht] at h
    cases hv : loadsJson env env.startLimit t with
    | error e =>
      rw [hv] at h
      cases h
      exact .inr (.inl ⟨.inl rfl, e, rfl⟩)
    | ok v =>
      have hheld := held_of_loadsJson hw (hexamples t ht) hv
      obtain ⟨written, hdumps, hloads⟩ := dumpsJson_of_held hw hheld
      simp only [hv, hdumps] at h
      cases write with
      | whole =>
        cases h
        exact .inr (.inr ⟨written, v, rfl, hheld, hloads, rfl⟩)
      | unopened =>
        cases h
        exact .inr (.inl ⟨.inl rfl, .osError, rfl⟩)
      | cut =>
        cases h
        exact .inr (.inl ⟨.inr rfl, .osError, rfl⟩)

theorem kept_start (hw : Workable env)
    (hfile : ∀ t, file = .text t → Within env.startLimit env.writeLimit t)
    (hexamples : ∀ t ∈ env.examples, Within env.startLimit env.writeLimit t) :
    Kept env (⟨false, .empty, file⟩ : Manager κ) := by
  refine ⟨Keyed.all_empty, fun write left monitors h => ?_⟩
  cases file with
  | cut => cases h
  | text t =>
    have hload : (loadsJson env env.startLimit t >>= spawnAll env) = .ok monitors :=
      congrArg Prod.snd h
    obtain rfl : .text t = left := congrArg Prod.fst h
    cases hv : loadsJson env env.startLimit t with
    | error e => rw [hv] at hload; cases hload
    | ok v =>
      refine ⟨?_, fun write' => h⟩
      rw [hv] at hload
      exact all_spawnAll hw (held_of_loadsJson hw (hfile t rfl) hv) hload
  | missing =>
    rcases load_missing hw hexamples h with
      hempty | ⟨-, e, herror⟩ | ⟨t, v, rfl, hheld, hloads, hspawn⟩
    · cases (hempty write).symm.trans h
      exact ⟨Keyed.all_empty, hempty⟩
    · cases herror
    · refine ⟨all_spawnAll hw hheld hspawn.symm, fun write' => ?_⟩
      rw [load, hloads]
      exact congrArg _ hspawn.symm

-- ---------------------------------------------------------------------------
-- What a request keeps
-- ---------------------------------------------------------------------------

omit [DecidableEq κ] in
theorem all_withDefaults (hw : Workable env) {body : Config} (hbody : body.All (FieldOk env))
    (huuid : ∀ c ∈ uuid, JsonText.Scalar c) : (withDefaults env body uuid).All (FieldOk env) := by
  have hscalar : JsonText.Literal (text "0.1") := rfl
  have hfloat : JsonText.Held env.repr 0 (.float (env.repr (text "0.1"))) :=
    ⟨⟨hw.reprs.literal _ hscalar, rfl⟩, by rw [Value.held, hw.reprs.idem _ hscalar]⟩
  unfold withDefaults
  refine all_setdefault (all_setdefault (all_setdefault (all_setdefault (all_setdefault hbody
    "id" (fieldOk_string _ huuid)) "vpn" (fieldOk_string _ (by simp))) "interval_s"
      (fieldOk_text _ hfloat)) "timeout_s" (fieldOk_text _ ?_)) "beep_on_drop" (fieldOk_text _ ?_)
  · exact ⟨⟨rfl, rfl⟩, rfl⟩
  · exact ⟨⟨trivial, rfl⟩, rfl⟩

theorem fair_addHost (hw : Workable env) (hs : Kept env s) (hrunning : s.running = true)
    (hcfg : cfg.All (FieldOk env)) : Fair env write s (addHost env write s cfg) := by
  unfold addHost
  cases hid : (get cfg "id").bind env.key with
  | none => exact hs.fair rfl
  | some k =>
    cases hk : s.monitors.get? k with
    | some _ => simpa [hk] using (hs.fair rfl : Fair env write s (s, .badRequest))
    | none =>
      simp only [hk]
      exact fair_persist hw hs hrunning (Keyed.all_put hs.writable ⟨hcfg, hid⟩) rfl

theorem fair_apiAddHost (hw : Workable env) (hs : Kept env s) (hrunning : s.running = true)
    (hv : JsonText.Held env.repr (env.writeLimit - 1) v) (huuid : ∀ c ∈ uuid, JsonText.Scalar c) :
    Fair env write s (apiAddHost env write s uuid v) := by
  cases v with
  | object fields =>
    simp only [apiAddHost]
    split
    · exact fair_addHost hw hs hrunning (all_withDefaults hw (all_ofList hv hw) huuid)
    · exact hs.fair rfl
  | _ => exact hs.fair rfl

theorem fair_updateHost (hw : Workable env) (hs : Kept env s) (hrunning : s.running = true)
    (hv : JsonText.Held env.repr (env.writeLimit - 1) v)
    (hhostId : ∀ c ∈ hostId, JsonText.Scalar c) :
    Fair env write s (updateHost env write s hostId v) := by
  unfold updateHost
  cases hget : (env.key (.string hostId)).bind s.monitors.get? with
  | none => exact hs.fair rfl
  | some m =>
    obtain ⟨k, hkey, hk⟩ := Option.bind_eq_some_iff.mp hget
    obtain rfl : m.1 = k := Keyed.key_of_get? hk
    have hm := hs.writable.of_get? hk
    cases v with
    | object fields =>
      refine fair_persist hw hs hrunning (Keyed.all_put hs.writable ⟨?_, ?_⟩) rfl
      · refine Keyed.all_put (fun f hf => ?_) (fieldOk_string "id" hhostId)
        rcases Keyed.mem_of_mem_putAll hf with hold | hnew
        · exact hm.1 f hold
        · exact all_ofList hv hw f hnew
      · rw [get_set, if_pos rfl]
        exact hkey
    | _ => exact hs.fair rfl

theorem fair_deleteHost (hw : Workable env) (hs : Kept env s) (hrunning : s.running = true)
    (hostId : Text) : Fair env write s (deleteHost env write s hostId) := by
  unfold deleteHost
  cases (env.key (.string hostId)).bind s.monitors.get? with
  | none => exact hs.fair rfl
  | some m => exact fair_persist hw hs hrunning (Keyed.all_filter hs.writable) rfl

theorem fair_withJson (hw : Workable env) (hs : Kept env s)
    (hbody : Within env.requestLimit (env.writeLimit - 1) body)
    (hf : ∀ v, JsonText.Held env.repr (env.writeLimit - 1) v → Fair env write s (f v)) :
    Fair env write s (withJson env s body f) := by
  unfold withJson
  split
  · rename_i v hv
    exact hf v (held_of_loadsJson hw hbody hv)
  · exact hs.fair rfl
  · exact hs.fair rfl

theorem fair_restart (hw : Workable env)
    (hexamples : ∀ t ∈ env.examples, Within env.startLimit env.writeLimit t) (hs : Kept env s) :
    Fair env write s (restart env write s) := by
  unfold restart
  split
  · rename_i left monitors hload
    obtain ⟨hok, hfound⟩ := hs.readable _ _ _ hload
    have hkept : Kept env ⟨true, monitors, left⟩ := by
      refine ⟨hok, fun write' left' found h => ?_⟩
      cases (hfound write').symm.trans h
      exact ⟨hok, hfound⟩
    exact hkept.fair_accepted rfl rfl hfound
  · rename_i left e hload
    have hkept : Kept env ⟨false, .empty, left⟩ := by
      refine ⟨Keyed.all_empty, fun write' left' found h => ?_⟩
      have h : load env write' left = (left', .ok found) := h
      cases hfile : s.hostsFile with
      | text t =>
        rw [hfile] at hload
        obtain rfl : .text t = left := congrArg Prod.fst hload
        exact hs.readable write' left' found (by rw [hfile]; exact h)
      | cut =>
        rw [hfile] at hload
        cases hload
        cases h
      | missing =>
        rw [hfile] at hload
        rcases load_missing hw hexamples hload with hempty | ⟨rfl | rfl, -⟩ |
          ⟨t, v, rfl, -, hloads, hspawn⟩
        · cases (hempty write).symm.trans hload
        · exact hs.readable write' left' found (by rw [hfile]; exact h)
        · cases h
        · have herror : load env write' (.text t) = (.text t, .error e) := by
            rw [load, hloads, hspawn]
            rfl
          cases herror.symm.trans h
    exact hkept.fair_failed rfl

theorem fair_answer (hw : Workable env)
    (hexamples : ∀ t ∈ env.examples, Within env.startLimit env.writeLimit t) (hs : Kept env s)
    {turn : Request × Write} (hr : turn.1.Writable env) :
    Fair env turn.2 s (answer env s turn) := by
  obtain ⟨r, write⟩ := turn
  unfold answer
  cases hrunning : s.running with
  | false =>
    by_cases hrestart : r = .restart
    · subst hrestart
      simpa [serve] using fair_restart hw hexamples hs
    · simpa [hrestart] using (hs.fair rfl : Fair env write s (s, .down))
  | true =>
    simp only [true_or, if_true]
    cases r with
    | add body uuid =>
      exact fair_withJson hw hs hr.1 fun v hv => fair_apiAddHost hw hs hrunning hv hr.2
    | update hostId body =>
      exact fair_withJson hw hs hr.1 fun v hv => fair_updateHost hw hs hrunning hv hr.2
    | delete hostId => exact fair_deleteHost hw hs hrunning hostId
    | restart => exact fair_restart hw hexamples hs

-- ---------------------------------------------------------------------------
-- A write that fails
-- ---------------------------------------------------------------------------

omit [DecidableEq κ] in
theorem monitors_persist (write : Write) (s : Manager κ) (monitors : Monitors κ)
    (response : Response) : (persist env write s monitors response).1.monitors = monitors := by
  unfold persist
  split <;> rfl

omit [DecidableEq κ] in
theorem monitors_withJson {f g : Value → Manager κ × Response}
    (h : ∀ v, (f v).1.monitors = (g v).1.monitors) :
    (withJson env s body f).1.monitors = (withJson env s body g).1.monitors := by
  unfold withJson
  split
  · exact h _
  · rfl
  · rfl

theorem monitors_addHost (write write' : Write) :
    (addHost env write s cfg).1.monitors = (addHost env write' s cfg).1.monitors := by
  unfold addHost
  split
  · rfl
  · split
    · rfl
    · rw [monitors_persist, monitors_persist]

theorem monitors_apiAddHost (write write' : Write) (v : Value) :
    (apiAddHost env write s uuid v).1.monitors = (apiAddHost env write' s uuid v).1.monitors := by
  cases v with
  | object fields =>
    simp only [apiAddHost]
    split
    · exact monitors_addHost write write'
    · rfl
  | _ => rfl

theorem monitors_updateHost (write write' : Write) (v : Value) :
    (updateHost env write s hostId v).1.monitors =
      (updateHost env write' s hostId v).1.monitors := by
  unfold updateHost
  split
  · rfl
  · cases v with
    | object fields => exact (monitors_persist _ _ _ _).trans (monitors_persist _ _ _ _).symm
    | _ => rfl

theorem monitors_deleteHost (write write' : Write) :
    (deleteHost env write s hostId).1.monitors = (deleteHost env write' s hostId).1.monitors := by
  unfold deleteHost
  split
  · rfl
  · rw [monitors_persist, monitors_persist]

theorem restart_ne_unsaved (write : Write) (s : Manager κ) :
    (restart env write s).2 ≠ .unsaved := by
  unfold restart
  split <;> simp

/-- A request whose hosts cannot be saved changes the monitors as one whose can. -/
theorem monitors_unsaved {r : Request} {write : Write}
    (h : (answer env s (r, write)).2 = .unsaved) (write' : Write) :
    (answer env s (r, write)).1.monitors = (answer env s (r, write')).1.monitors := by
  unfold answer at h ⊢
  split at h
  · rename_i hserved
    rw [if_pos hserved, if_pos hserved]
    cases r with
    | add body uuid => exact monitors_withJson (monitors_apiAddHost write write')
    | update hostId body => exact monitors_withJson (monitors_updateHost write write')
    | delete hostId => exact monitors_deleteHost write write'
    | restart => exact absurd h (restart_ne_unsaved write s)
  · cases h

/-- Whichever writes fail, an accepted request leaves the hosts to be found by a new
start, in their order, a refused one changes nothing, and one that cannot be saved
changes the monitors only; where no write fails the hosts are found at all times. -/
theorem load_exec (hw : Workable env)
    (hfile : ∀ t, file = .text t → Within env.startLimit env.writeLimit t)
    (hexamples : ∀ t ∈ env.examples, Within env.startLimit env.writeLimit t)
    {turns : List (Request × Write)} (hr : ∀ turn ∈ turns, turn.1.Writable env)
    (hs : Runs.exec (step env) ⟨false, .empty, file⟩ turns = s) :
    (∀ turn : Request × Write, turn.1.Writable env → Fair env turn.2 s (answer env s turn)) ∧
      (∀ r write, (answer env s (r, write)).2 = .unsaved →
        (answer env s (r, write)).1.monitors = (answer env s (r, .whole)).1.monitors) ∧
      ((∀ turn ∈ turns, turn.2 = .whole) → s.running = true → Found env s) := by
  have hkept : Kept env s := by
    rw [← hs]
    exact Runs.exec_keeps (fun s turn hmem hs => (fair_answer hw hexamples hs (hr turn hmem)).kept)
      (kept_start hw hfile hexamples)
  refine ⟨fun turn hturn => fair_answer hw hexamples hkept hturn,
    fun r write h => monitors_unsaved h .whole, fun hwhole => ?_⟩
  rw [← hs]
  refine (Runs.exec_keeps (P := fun s => Kept env s ∧ (s.running = true → Found env s))
    (fun s turn hmem h => ?_) ⟨kept_start hw hfile hexamples, ?_⟩).2
  · have hfair := fair_answer hw hexamples h.1 (hr turn hmem)
    exact ⟨hfair.kept, hfair.found (hwhole turn hmem) h.2⟩
  · intro hrunning
    cases hrunning

-- ---------------------------------------------------------------------------
-- A host that is added
-- ---------------------------------------------------------------------------

def idKey : Value → Option Text
  | .string s => some s
  | _ => none

def laptop : Env Text where
  repr := id
  key := idKey
  startLimit := 900
  requestLimit := 880
  writeLimit := 870
  examples := none

def nas : Text :=
  text "\x7b\"name\": \"nas\", \"host\": \"10.0.0.2\", \"interval_s\": 0.5\x7d"

def mornings : List (Request × Write) :=
  [(.restart, .whole), (.add nas (text "5f3a"), .whole), (.delete (text "none"), .whole),
    (.restart, .whole)]

def fullDisk : List (Request × Write) := [(.restart, .whole), (.add nas (text "5f3a"), .cut)]

theorem within_nas : Within 880 869 nas := by
  refine ⟨JsonText.scalar_text _, fun v hv => ?_⟩
  have hloads : JsonText.loads 880 nas = .ok (JsonText.named
      [("name", .string (text "nas")), ("host", .string (text "10.0.0.2")),
        ("interval_s", .float (text "0.5"))]) := rfl
  cases hloads.symm.trans hv
  decide

theorem load_exec_mornings :
    Found laptop (Runs.exec (step laptop) ⟨false, .empty, .missing⟩ mornings) ∧
      Fair laptop .whole (Runs.exec (step laptop) ⟨false, .empty, .missing⟩ fullDisk)
        (answer laptop (Runs.exec (step laptop) ⟨false, .empty, .missing⟩ fullDisk)
          (.delete (text "5f3a"), .whole)) := by
  have hw : Workable laptop := ⟨⟨fun _ h => h, fun _ _ => rfl⟩, by decide, by decide⟩
  have hnas : (Request.add nas (text "5f3a")).Writable laptop :=
    ⟨within_nas, JsonText.scalar_text _⟩
  have hmornings : ∀ turn ∈ mornings, turn.1.Writable laptop := by
    simp only [mornings, List.forall_mem_cons]
    exact ⟨trivial, hnas, trivial, trivial, by simp⟩
  have hfullDisk : ∀ turn ∈ fullDisk, turn.1.Writable laptop := by
    simp only [fullDisk, List.forall_mem_cons]
    exact ⟨trivial, hnas, by simp⟩
  exact ⟨(load_exec hw (by simp) (by simp [laptop]) hmornings rfl).2.2 (by simp [mornings])
      (by decide +kernel),
    (load_exec hw (by simp) (by simp [laptop]) hfullDisk rfl).1 (.delete (text "5f3a"), .whole)
      trivial⟩

end Wifucked.Hosts
