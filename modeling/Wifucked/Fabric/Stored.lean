import Mathlib.Data.List.Find
import Wifucked.Fabric.Requests
import Wifucked.Lib.JsonLoaded

/-!
# The registry's file

Addresses are kept as texts, in a file that each allocation reads and writes
anew. A worker can be killed, and a write can fail, at any of them. The texts are
related to what `/register` is given by `Requests.Server.allocate`.
-/

namespace Wifucked.Fabric.Stored

open JsonText (Text Value File text)
open Requests (Server)

-- ---------------------------------------------------------------------------
-- Addresses
-- ---------------------------------------------------------------------------

def address (a : Address) : Text := text (dotted a)

theorem address_inj {a b : ℕ} (ha : a < 2 ^ 32) (hb : b < 2 ^ 32) : address a = address b ↔ a = b :=
  JsonText.text_injective.eq_iff.trans (dotted_inj ha hb)

-- ---------------------------------------------------------------------------
-- The file
-- ---------------------------------------------------------------------------

/-- How deep a text that is read can nest, and the text that a float is written as. -/
structure Env where
  limit : ℕ
  repr : Text → Text

structure Registry where
  network : Network
  file : File

inductive Raised where
  | valueError
  | recursionError
  | attributeError
  | typeError
  | osError
  | poolExhausted
  /-- The worker is killed before it answers. -/
  | killed
  deriving DecidableEq, Repr

abbrev Peers := Keyed (Text × Value) Prod.fst

/-- What storing the peers comes to. A killed worker leaves the old file or the new one. -/
inductive Write where
  | done
  | failed
  | killed (replaced : Bool)
  deriving DecidableEq, Repr

def Write.lands : Write → Bool
  | .done => true
  | .failed => false
  | .killed replaced => replaced

def Write.answer (fresh : Text) : Write → Except Raised (Value × Bool)
  | .done => .ok (.string fresh, true)
  | .failed => .error .osError
  | .killed _ => .error .killed

variable (env : Env)

/-- Of what raises, only a text that is no JSON is caught. -/
def load : File → Except Raised Peers
  | .absent => .ok .empty
  | .unreadable => .ok .empty
  | .undecodable _ => .error .valueError
  | .text t =>
    match (JsonText.loads env.limit t).map (Value.held env.repr) with
    | .error .decodeError => .ok .empty
    | .error .valueError => .error .valueError
    | .error .recursionError => .error .recursionError
    | .ok (.object data) =>
      match JsonText.get? data (text "peers") with
      | some (.object peers) => .ok (.ofList peers)
      | _ => .ok .empty
    | .ok _ => .error .attributeError

/-- `json.dumps`, with `sort_keys`. The values are no containers, or `nextFree` raises. -/
def dumps (peers : Peers) : Except Raised Text :=
  (JsonText.dumps (JsonText.indented 2) (.object [(text "peers",
    .object (JsonText.sortFields peers.values))])).mapError fun _ => .valueError

def hashable : Value → Bool
  | .array _ => false
  | .object _ => false
  | _ => true

def isText (t : Text) : Value → Bool
  | .string s => s = t
  | _ => false

@[simp] theorem isText_string (s t : Text) : isText t (.string s) = decide (s = t) := rfl

def nextFree (network : Network) (peers : Peers) : Except Raised Text :=
  if peers.values.all fun e => hashable e.2 then
    let used := .string (address (network.address + 1)) :: peers.values.map Prod.snd
    match network.hosts.find? fun host => !used.any (isText (address host)) with
    | some host => .ok (address host)
    | none => .error .poolExhausted
  else .error .typeError

namespace Registry

variable (r : Registry)

/-- The address with whether it is a new one. Of an address that is `null` it is
as if there were none. -/
def allocate (key : Text) (write : Write) : Registry × Except Raised (Value × Bool) :=
  match load env r.file with
  | .error e => (r, .error e)
  | .ok peers =>
    match ((peers.get? key).map Prod.snd).getD .null with
    | .null =>
      match nextFree r.network peers with
      | .error e => (r, .error e)
      | .ok fresh =>
        match dumps (peers.put (key, .string fresh)) with
        | .error e => (r, .error e)
        | .ok t =>
          (if write.lands then { r with file := .text t } else r, write.answer fresh)
    | existing => (r, .ok (existing, false))

end Registry

structure Call where
  key : Text
  write : Write

def step (r : Registry) (c : Call) : Registry := (r.allocate env c.key c.write).1

def answers : Registry → List Call → List (Text × Value)
  | _, [] => []
  | r, c :: cs =>
    match (r.allocate env c.key c.write).2 with
    | .ok (v, _) => (c.key, v) :: answers (step env r c) cs
    | .error _ => answers (step env r c) cs

/-- What a call comes to where the addresses themselves are kept. -/
def grant (s : Server) (c : Call) : Server :=
  match s.allocate (.string c.key) with
  | .ok (some (granted, _)) => if c.write.lands then granted else s
  | _ => s

-- ---------------------------------------------------------------------------
-- What is written is read
-- ---------------------------------------------------------------------------

/-- The file has the addresses of these peers. -/
structure Reads (r : Registry) (s : Server) : Prop where
  network : r.network = s.network
  loads : ∃ peers, load env r.file = .ok peers ∧
    ∀ k, peers.get? k = (s.load.get? k).map fun e => (e.1, .string (address e.2))
  keys : s.load.All fun e => JsonText.GoodText e.1
  pool : s.load.All fun e => e.2 ∈ s.network.hosts ∧ e.2 ≠ s.serverAddress
  distinct : ∀ e ∈ s.load.values, ∀ f ∈ s.load.values, e.2 = f.2 → e.1 = f.1

variable {env} {peers : Peers} {r : Registry} {s : Server}

theorem goodText_plain (s : String) : JsonText.GoodText (text s) :=
  ⟨JsonText.plain_text s, JsonText.joined_text s⟩

theorem load_dumps (hlimit : 2 ≤ env.limit)
    (h : peers.All fun e => JsonText.GoodText e.1 ∧ ∃ t, e.2 = .string t ∧ JsonText.GoodText t) :
    ∃ t back, dumps peers = .ok t ∧ load env (.text t) = .ok back ∧
      ∀ k, back.get? k = peers.get? k := by
  let sorted := JsonText.sortFields peers.values
  have hnodup : (sorted.map Prod.fst).Nodup := JsonText.nodup_sortFields.mpr peers.nodup
  have hfields : ∀ e ∈ sorted, JsonText.HeldField env.repr 0 e := by
    intro e he
    obtain ⟨hkey, t, ht, hgood⟩ := h e (JsonText.mem_sortFields.mp he)
    refine ⟨hkey, ?_⟩
    rw [ht]
    exact ⟨JsonText.good_string hgood 0, rfl⟩
  have hdata : JsonText.Held env.repr 2 (.object [(text "peers", .object sorted)]) := by
    refine JsonText.held_object (by simp) (fun f hf => ?_) (by decide)
    rw [List.mem_singleton.mp hf]
    exact ⟨goodText_plain _,
      JsonText.held_object hnodup hfields (by decide)⟩
  obtain ⟨hdumps, hloads⟩ := JsonText.dumps_of_good hdata.1 hlimit (JsonText.indented 2)
  generalize JsonText.write (JsonText.indented 2) 0 _ = t at hdumps hloads
  refine ⟨t, .ofList sorted, ?_, ?_, fun k => ?_⟩
  · exact congrArg (Except.mapError fun _ => Raised.valueError) hdumps
  · have hget : JsonText.get? [(text "peers", .object sorted)] (text "peers") =
        some (.object sorted) := by simp [JsonText.get?]
    simp only [load, hloads, Except.map, hdata.2, hget]
  · refine Keyed.get?_of_mem_iff (fun e => ?_) k
    rw [Keyed.values_ofList hnodup, JsonText.mem_sortFields]

theorem mem_of_reads (h : ∀ k, peers.get? k = (s.load.get? k).map fun e =>
    (e.1, Value.string (address e.2))) :
    e ∈ peers.values ↔ ∃ a, (e.1, a) ∈ s.load.values ∧ e.2 = .string (address a) := by
  obtain ⟨k, v⟩ := e
  rw [Keyed.mem_values, h, Option.map_eq_some_iff]
  constructor
  · rintro ⟨⟨j, a⟩, hget, heq⟩
    obtain ⟨rfl, rfl⟩ := Prod.mk.inj heq
    exact ⟨a, (Keyed.get?_eq_some.mp hget).1, rfl⟩
  · rintro ⟨a, hmem, rfl⟩
    exact ⟨(k, a), Keyed.mem_values.mp hmem, rfl⟩

theorem nextFree_of_reads (hown : (s.network.address + 1 : ℕ) < 2 ^ 32)
    (hpool : s.load.All fun e => e.2 ∈ s.network.hosts ∧ e.2 ≠ s.serverAddress)
    (h : ∀ k, peers.get? k = (s.load.get? k).map fun e => (e.1, Value.string (address e.2))) :
    nextFree s.network peers = match s.nextFree with
      | some a => .ok (address a)
      | none => .error .poolExhausted := by
  have hhash : (peers.values.all fun e => hashable e.2) = true := by
    refine List.all_eq_true.mpr fun e he => ?_
    obtain ⟨a, -, ha⟩ := (mem_of_reads h).mp he
    rw [ha]
    rfl
  have hfind : (s.network.hosts.find? fun host =>
      !(Value.string (address (s.network.address + 1)) :: peers.values.map Prod.snd).any
        (isText (address host))) = s.nextFree := by
    refine List.find?_congr fun host hhost => ?_
    have hlt := Network.lt_of_mem_hosts hhost
    rw [Bool.eq_iff_iff, Bool.not_eq_true', ← Bool.not_eq_true, List.any_eq_true, decide_eq_true_eq]
    refine not_congr ?_
    simp only [List.mem_cons, List.mem_map, exists_eq_or_imp, isText_string, decide_eq_true_eq]
    refine or_congr ?_ ?_
    · rw [address_inj hown hlt]
      exact eq_comm
    · constructor
      · rintro ⟨v, ⟨e, he, rfl⟩, htext⟩
        obtain ⟨a, hmem, ha⟩ := (mem_of_reads h).mp he
        rw [ha, isText_string, decide_eq_true_eq,
          address_inj (Network.lt_of_mem_hosts (hpool _ hmem).1) hlt] at htext
        exact ⟨_, hmem, htext⟩
      · rintro ⟨⟨k, a⟩, hmem, rfl⟩
        exact ⟨_, ⟨(k, .string (address a)), (mem_of_reads h).mpr ⟨a, hmem, rfl⟩, rfl⟩,
          decide_eq_true rfl⟩
  rw [nextFree, if_pos hhash]
  simp only [hfind]

-- ---------------------------------------------------------------------------
-- One allocation
-- ---------------------------------------------------------------------------

theorem load_store (s : Server) (key : Text) (a : Address) :
    (s.store key a).load = s.load.put (key, a) := rfl

theorem nextFree_fresh {a : Address} (h : s.nextFree = some a) :
    a ∈ s.network.hosts ∧ a ≠ s.serverAddress ∧ ∀ e ∈ s.load.values, e.2 ≠ a := by
  have hused := List.find?_some h
  simp only [List.mem_cons, not_or, decide_eq_true_eq, List.mem_map, not_exists, not_and] at hused
  exact ⟨List.mem_of_find?_eq_some h, hused.1, hused.2⟩

theorem reads_store {a : Address} (hlimit : 2 ≤ env.limit) (h : Reads env r s)
    (hpeers : ∀ k, peers.get? k = (s.load.get? k).map fun e => (e.1, Value.string (address e.2)))
    (hkey : JsonText.GoodText key) (hfree : s.nextFree = some a) :
    ∃ t, dumps (peers.put (key, .string (address a))) = .ok t ∧
      Reads env { r with file := .text t } (s.store key a) := by
  obtain ⟨hhost, hown, hfresh⟩ := nextFree_fresh hfree
  have hgood : (peers.put (key, Value.string (address a))).All fun e =>
      JsonText.GoodText e.1 ∧ ∃ t, e.2 = .string t ∧ JsonText.GoodText t := by
    refine Keyed.all_put (fun e he => ?_) ⟨hkey, _, rfl, goodText_plain _⟩
    obtain ⟨b, hmem, hb⟩ := (mem_of_reads hpeers).mp he
    exact ⟨h.keys _ hmem, _, hb, goodText_plain _⟩
  obtain ⟨t, back, hdumps, hback, hget⟩ := load_dumps hlimit hgood
  refine ⟨t, hdumps, h.network, ⟨back, hback, fun k => ?_⟩, Keyed.all_put h.keys hkey,
    Keyed.all_put h.pool ⟨hhost, hown⟩, ?_⟩
  · rw [hget, load_store, Keyed.get?_put, Keyed.get?_put, hpeers]
    split <;> rfl
  · intro e he f hf heq
    rw [load_store, Keyed.mem_put] at he hf
    rcases he with rfl | ⟨he, -⟩ <;> rcases hf with rfl | ⟨hf, -⟩
    · rfl
    · exact absurd heq.symm (hfresh f hf)
    · exact absurd heq (hfresh e he)
    · exact h.distinct e he f hf heq

theorem allocate_cases (hlimit : 2 ≤ env.limit) (hown : (s.network.address + 1 : ℕ) < 2 ^ 32)
    (h : Reads env r s) (hkey : JsonText.GoodText key) (write : Write) :
    (∃ a, s.load.get? key = some (key, a) ∧
      r.allocate env key write = (r, .ok (.string (address a), false))) ∨
    (s.load.get? key = none ∧ s.nextFree = none ∧
      r.allocate env key write = (r, .error .poolExhausted)) ∨
    ∃ a stored, s.load.get? key = none ∧ s.nextFree = some a ∧ Reads env stored (s.store key a) ∧
      r.allocate env key write = (if write.lands then stored else r, write.answer (address a)) := by
  obtain ⟨peers, hload, hpeers⟩ := h.loads
  have hfree := nextFree_of_reads hown h.pool hpeers
  rw [← h.network] at hfree
  unfold Registry.allocate
  rw [hload]
  cases hget : s.load.get? key with
  | some e =>
    left
    obtain ⟨k, a⟩ := e
    obtain rfl : k = key := Keyed.key_of_get? hget
    refine ⟨a, rfl, ?_⟩
    simp only [hpeers, hget, Option.map_some, Option.getD_some]
  | none =>
    right
    simp only [hpeers, hget, Option.map_none, Option.getD_none, hfree]
    cases hnext : s.nextFree with
    | none => exact .inl ⟨trivial, rfl, rfl⟩
    | some a =>
      obtain ⟨t, hdumps, hreads⟩ := reads_store hlimit h hpeers hkey hnext
      refine .inr ⟨a, { r with file := .text t }, trivial, rfl, hreads, ?_⟩
      simp only [hdumps]

theorem grant_known {a : Address} (h : s.load.get? c.key = some (c.key, a)) : grant s c = s := by
  simp [grant, Server.allocate, h]

theorem grant_fresh (h : s.load.get? c.key = none) :
    grant s c = match s.nextFree with
      | some a => if c.write.lands then s.store c.key a else s
      | none => s := by
  simp only [grant, Server.allocate, h]
  cases s.nextFree <;> rfl

theorem reads_step (hlimit : 2 ≤ env.limit) (hown : (s.network.address + 1 : ℕ) < 2 ^ 32)
    (h : Reads env r s) (hkey : JsonText.GoodText c.key) :
    Reads env (step env r c) (grant s c) := by
  unfold step
  obtain ⟨a, hget, heq⟩ | ⟨hget, hnext, heq⟩ | ⟨a, stored, hget, hnext, hstored, heq⟩ :=
    allocate_cases hlimit hown h hkey c.write
  · rw [heq, grant_known hget]
    exact h
  · rw [heq, grant_fresh hget, hnext]
    exact h
  · rw [heq, grant_fresh hget, hnext]
    dsimp only
    split
    · exact hstored
    · exact h

theorem network_grant (s : Server) (c : Call) : (grant s c).network = s.network := by
  cases hget : s.load.get? c.key with
  | some e =>
    obtain ⟨k, a⟩ := e
    obtain rfl : k = c.key := Keyed.key_of_get? hget
    rw [grant_known hget]
  | none =>
    rw [grant_fresh hget]
    cases s.nextFree with
    | none => rfl
    | some a => dsimp only; split <;> rfl

theorem grant_keeps (c : Call) (h : s.load.get? k = some e) : (grant s c).load.get? k = some e := by
  cases hget : s.load.get? c.key with
  | some e =>
    obtain ⟨j, a⟩ := e
    obtain rfl : j = c.key := Keyed.key_of_get? hget
    rwa [grant_known hget]
  | none =>
    have hne : c.key ≠ k := by
      rintro rfl
      rw [h] at hget
      cases hget
    rw [grant_fresh hget]
    cases s.nextFree with
    | none => exact h
    | some a =>
      dsimp only
      split
      · rwa [load_store, Keyed.get?_put, if_neg hne]
      · exact h

-- ---------------------------------------------------------------------------
-- Any number of them
-- ---------------------------------------------------------------------------

theorem reads_exec (hlimit : 2 ≤ env.limit) (hown : (s.network.address + 1 : ℕ) < 2 ^ 32)
    {cs : List Call} (h : Reads env r s) (hkeys : ∀ c ∈ cs, JsonText.GoodText c.key) :
    Reads env (Runs.exec (step env) r cs) (Runs.exec grant s cs) := by
  induction cs generalizing r s with
  | nil => exact h
  | cons c cs ih =>
    rw [List.forall_mem_cons] at hkeys
    rw [← network_grant s c] at hown
    exact ih hown (reads_step hlimit (by rwa [network_grant] at hown) h hkeys.1) hkeys.2

theorem exec_keeps (h : s.load.get? k = some e) (cs : List Call) :
    (Runs.exec grant s cs).load.get? k = some e :=
  Runs.exec_keeps (P := fun s : Server => s.load.get? k = some e)
    (fun _ c _ hs => grant_keeps c hs) h

/-- What was answered is what the key has at the end. -/
theorem answers_kept (hlimit : 2 ≤ env.limit) (hown : (s.network.address + 1 : ℕ) < 2 ^ 32)
    {cs : List Call} (h : Reads env r s) (hkeys : ∀ c ∈ cs, JsonText.GoodText c.key) :
    ∀ e ∈ answers env r cs, ∃ a, (e.1, a) ∈ (Runs.exec grant s cs).load.values ∧
      e.2 = .string (address a) := by
  induction cs generalizing r s with
  | nil => simp [answers]
  | cons c cs ih =>
    rw [List.forall_mem_cons] at hkeys
    have hrest := ih (r := step env r c) (s := grant s c) (by rwa [network_grant])
      (reads_step hlimit hown h hkeys.1) hkeys.2
    have hnow : ∀ a, (grant s c).load.get? c.key = some (c.key, a) →
        ∃ b, (c.key, b) ∈ (Runs.exec grant s (c :: cs)).load.values ∧
          Value.string (address a) = .string (address b) :=
      fun a ha => ⟨a, Keyed.mem_values.mpr (exec_keeps ha cs), rfl⟩
    unfold answers
    obtain ⟨a, hget, heq⟩ | ⟨hget, hnext, heq⟩ | ⟨a, stored, hget, hnext, hstored, heq⟩ :=
      allocate_cases hlimit hown h hkeys.1 c.write
    · rw [heq]
      refine List.forall_mem_cons.mpr ⟨hnow a ?_, hrest⟩
      rwa [grant_known hget]
    · rw [heq]
      exact hrest
    · rw [heq]
      cases hwrite : c.write with
      | done =>
        refine List.forall_mem_cons.mpr ⟨hnow a ?_, hrest⟩
        simp [grant_fresh hget, hnext, hwrite, Write.lands, load_store]
      | failed => exact hrest
      | killed replaced => exact hrest

/-- What was answered in a run, and what the next call is answered. -/
structure Settled (env : Env) (r : Registry) (s : Server) (cs : List Call) : Prop where
  once : ∀ e ∈ answers env r cs, ∀ f ∈ answers env r cs, e.1 = f.1 ↔ e.2 = f.2
  pool : ∀ e ∈ answers env r cs, ∃ a ∈ r.network.hosts, a ≠ r.network.address + 1 ∧
    e.2 = .string (address a)
  next : ∀ key, JsonText.GoodText key →
    ((Runs.exec (step env) r cs).allocate env key .done).2 =
      match (Runs.exec grant s cs).allocate (.string key) with
      | .ok (some (_, a)) =>
        .ok (.string (address a), ((Runs.exec grant s cs).load.get? key).isNone)
      | _ => .error .poolExhausted

/-- Keys are texts of requests that were read. Whichever writes fail and whichever workers
are killed, each key has one address, and each address one key. -/
theorem allocations_exec {env : Env} (hlimit : 2 ≤ env.limit) {s : Server} (hpeers : s.peers = none)
    (hown : (s.network.address + 1 : ℕ) < 2 ^ 32) {cs : List Call}
    (hkeys : ∀ c ∈ cs, JsonText.GoodText c.key) :
    Settled env ⟨s.network, .absent⟩ s cs := by
  have hload : s.load = .empty := by rw [Server.load, hpeers]; rfl
  have hstart : Reads env ⟨s.network, .absent⟩ s := by
    refine ⟨rfl, ⟨.empty, rfl, ?_⟩, ?_, ?_, ?_⟩ <;> rw [hload]
    · simp
    · exact Keyed.all_empty
    · exact Keyed.all_empty
    · simp [Keyed.empty]
  have hend := reads_exec hlimit hown hstart hkeys
  have hkept := answers_kept hlimit hown hstart hkeys
  have hnetwork : (Runs.exec grant s cs).network = s.network :=
    Runs.exec_keeps (P := fun t : Server => t.network = s.network)
      (fun t c _ ht => (network_grant t c).trans ht) rfl
  refine ⟨fun e he f hf => ?_, fun e he => ?_, fun key hkey => ?_⟩
  · obtain ⟨a, ha, hea⟩ := hkept e he
    obtain ⟨b, hb, hfb⟩ := hkept f hf
    rw [hea, hfb, Value.string.injEq,
      address_inj (Network.lt_of_mem_hosts (hend.pool _ ha).1)
        (Network.lt_of_mem_hosts (hend.pool _ hb).1)]
    refine ⟨fun hkey => ?_, fun hab => hend.distinct _ ha _ hb hab⟩
    rw [Keyed.mem_values, ← hkey] at hb
    rw [Keyed.mem_values, hb] at ha
    exact (congrArg Prod.snd (Option.some.inj ha)).symm
  · obtain ⟨a, ha, hea⟩ := hkept e he
    obtain ⟨hhost, hne⟩ := hend.pool _ ha
    rw [hnetwork] at hhost
    rw [Server.serverAddress, hnetwork] at hne
    exact ⟨a, hhost, hne, hea⟩
  · rw [← hnetwork] at hown
    obtain ⟨a, hget, heq⟩ | ⟨hget, hnext, heq⟩ | ⟨a, stored, hget, hnext, -, heq⟩ :=
      allocate_cases hlimit hown hend hkey .done
    · simp [heq, hget, Server.allocate]
    · simp [heq, hget, hnext, Server.allocate]
    · simp [heq, hget, hnext, Server.allocate, Write.answer]

/-- A worker that is killed, one whose write fails, and others after them. -/
theorem allocations_evening :
    Settled ⟨2, id⟩ ⟨tunnelPool, .absent⟩ Server.fresh
      [⟨text "first", .killed true⟩, ⟨text "first", .done⟩, ⟨text "second", .failed⟩,
        ⟨text "second", .done⟩] :=
  allocations_exec (s := Server.fresh) (by decide) rfl (by decide) (by
    simp only [List.forall_mem_cons, List.not_mem_nil, false_implies, implies_true, and_true]
    exact ⟨goodText_plain _, goodText_plain _, goodText_plain _, goodText_plain _⟩)

end Wifucked.Fabric.Stored
