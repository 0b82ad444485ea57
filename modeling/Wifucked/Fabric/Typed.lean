import Wifucked.Fabric.Requests

/-!
# Requests with texts for fields

A call of an appliance, as `App.register` takes it, is a request whose fields are
texts that the comparisons and the commands take. On such requests the server
does what the fabric does.
-/

namespace Wifucked.Fabric.Requests

theorem toString_text (s : String) : (text s).toString = s := by
  have hchars : (s.toList.map Char.toNat).map Char.ofNat = s.toList := by
    rw [List.map_map]
    exact (List.map_congr_left fun c _ => Char.ofNat_toNat c).trans (List.map_id _)
  simp [Text.toString, text, hchars]

theorem text_injective : Function.Injective text :=
  Function.LeftInverse.injective toString_text

theorem text_eq_nil : text s = [] ↔ s = "" := by
  simp [text]

def peer (p : String × Address) : Text × Address := (text p.1, p.2)

theorem putList_peer (p : String × Address) (peers : List (String × Address)) :
    Keyed.putList Prod.fst (peer p) (peers.map peer) =
      (Keyed.putList Prod.fst p peers).map peer := by
  induction peers with
  | nil => rfl
  | cons q peers ih =>
    by_cases hkey : q.1 = p.1
    · simp [Keyed.putList, peer, hkey]
    · have hkey' : (peer q).1 ≠ (peer p).1 := fun h => hkey (text_injective h)
      simp only [List.map_cons, Keyed.putList, if_neg hkey, if_neg hkey', ih]

def failure (detail : String) : Failure := .wireGuardError (text detail)

/-- The server holds what the fabric holds. -/
structure Represents (f : App) (s : Server) : Prop where
  config : s.config = f.config
  network : s.network = f.registry.network
  peers : s.load.values = f.registry.load.values.map peer
  ready : s.ready = f.wireguard.ready

/-- The request is that call: with credentials that compare, and a key that can be an
argument. The fabric's own key is asked for where the server does not have it. -/
structure Sends (s : Server) (c : Call) (r : Request) : Prop where
  authorization : r.authorization = c.authorization.map fun a => (some (text a.1), some (text a.2))
  comparable : Comparable s.config r.authorization
  body : payload r.body = .ok (fieldsOf r.body)
  version : r.version = .string (text (c.version.getD ""))
  publicKey : r.publicKey = .string (text (c.publicKey.getD ""))
  argument : (text (c.publicKey.getD "")).Argument
  setup : r.setup = c.setup.mapError failure
  set : r.set = c.set.mapError failure
  fabricKey : (match s.publicKey with | some key => .ok key | none => r.pubkey) =
    (c.fabricKey.mapError failure).map text

def response : Answer → Except Raised Response
  | .raised detail => .error (.wireGuardError (text detail))
  | answer => .ok ⟨answer.status, answer.body.map fun p => (p.1, text p.2)⟩

/-- The fabric and its answer are those of the server. -/
def Agree (out : App × Answer) (out' : Server × Except Raised Response) : Prop :=
  Represents out.1 out'.1 ∧ out'.2 = response out.2

variable {f : App} {s : Server}

theorem get?_peer (h : Represents f s) (k : String) :
    s.load.get? (text k) = (f.registry.load.get? k).map peer := by
  unfold Keyed.get?
  rw [h.peers, List.find?_map]
  have hkeys : (fun p : String × Address => decide ((peer p).1 = text k)) =
      fun p => decide (p.1 = k) := by
    funext p
    simp [peer, text_injective.eq_iff]
  exact congrArg (fun q => (f.registry.load.values.find? q).map peer) hkeys

theorem nextFree_eq (h : Represents f s) : s.nextFree = f.registry.nextFree f.registry.load := by
  have hused : s.load.values.map Prod.snd = f.registry.load.values.map Prod.snd := by
    simp [h.peers, Function.comp_def, peer]
  simp only [Server.nextFree, PeerRegistry.nextFree, h.network]
  congr 1
  funext candidate
  rw [decide_eq_decide, Server.serverAddress, PeerRegistry.serverAddress, h.network, hused]

theorem requireAuth_eq (h : Represents f s) (hr : Sends s c r) :
    requireAuth s.config r.authorization = .ok (f.authenticated c) := by
  have hcomparable := hr.comparable
  rw [hr.authorization, h.config] at hcomparable ⊢
  unfold App.authenticated
  cases hauth : c.authorization with
  | none => rfl
  | some auth =>
    obtain ⟨username, password⟩ := auth
    rw [hauth] at hcomparable
    obtain ⟨husername, hpassword⟩ := hcomparable
    simp only [Option.getD_some, text_injective.eq_iff] at husername hpassword
    rw [Option.map_some, requireAuth_some, Option.getD_some, compareDigest_eq husername]
    by_cases hsame : username = f.config.username
    · have hpassword := hpassword hsame
      simp [Except.bind, hsame, compareDigest_eq hpassword, text_injective.eq_iff]
    · simp [Except.bind, hsame, text_injective.eq_iff]

theorem ensureReady_eq (h : Represents f s) (hsetup : setup' = setup.mapError failure) :
    (∃ detail, f.wireguard.ensureReady setup = .error detail ∧
        s.ensureReady setup' = .error (failure detail)) ∨
      ∃ w, f.wireguard.ensureReady setup = .ok w ∧ w.ready = true ∧
        s.ensureReady setup' = .ok { s with ready := true } := by
  unfold FabricWireGuard.ensureReady Server.ensureReady
  rw [h.ready]
  cases hready : f.wireguard.ready with
  | true =>
    have hsame : { s with ready := true } = s := by
      rw [← hready, ← h.ready]
    exact .inr ⟨f.wireguard, rfl, hready, by rw [hsame]; rfl⟩
  | false =>
    rw [hsetup]
    cases setup with
    | error detail => exact .inl ⟨detail, rfl, rfl⟩
    | ok u => exact .inr ⟨_, rfl, rfl, rfl⟩

theorem allocate_eq (h : Represents f s) (k : String) :
    (f.registry.allocate k = none ∧ s.allocate (.string (text k)) = .ok none) ∨
      ∃ registry p s', f.registry.allocate k = some (registry, p) ∧
        s.allocate (.string (text k)) = .ok (some (s', p.address)) ∧
        s'.publicKey = s.publicKey ∧ Represents { f with registry } s' := by
  have hget := get?_peer h k
  have hnext := nextFree_eq h
  simp only [Server.allocate, PeerRegistry.allocate]
  rw [hget]
  cases hk : f.registry.load.get? k with
  | some existing => exact .inr ⟨f.registry, _, s, rfl, rfl, rfl, h⟩
  | none =>
    rw [Option.map_none, hnext]
    cases hfree : f.registry.nextFree f.registry.load with
    | none => exact .inl ⟨rfl, rfl⟩
    | some address =>
      refine .inr ⟨_, _, _, rfl, rfl, rfl, h.config, h.network, ?_, h.ready⟩
      have hput := putList_peer (k, address) f.registry.load.values
      rw [← h.peers] at hput
      exact hput

theorem fabricKey_eq (hr : Sends s c r) (hkept : t.publicKey = s.publicKey) :
    (∃ detail, c.fabricKey = .error detail ∧
        Server.fabricKey t r.pubkey = .error (.wireGuardError (text detail))) ∨
      ∃ key, c.fabricKey = .ok key ∧
        Server.fabricKey t r.pubkey = .ok ({ t with publicKey := some (text key) }, text key) := by
  have hkey := hr.fabricKey
  unfold Server.fabricKey
  rw [← hkept] at hkey
  cases hcached : t.publicKey with
  | some cached =>
    rw [hcached] at hkey
    cases hfabric : c.fabricKey with
    | error detail =>
      rw [hfabric] at hkey
      cases hkey
    | ok key =>
      rw [hfabric] at hkey
      obtain rfl : cached = text key := Except.ok.inj hkey
      have hsame : { t with publicKey := some (text key) } = t := by rw [← hcached]
      exact .inr ⟨key, rfl, by rw [hsame]⟩
  | none =>
    rw [hcached] at hkey
    simp only at hkey ⊢
    rw [hkey]
    cases c.fabricKey with
    | error detail => exact .inl ⟨detail, rfl, rfl⟩
    | ok key => exact .inr ⟨key, rfl, rfl⟩

/-- A call does to the fabric, and answers, what its request does to the server. -/
theorem register_agree (h : Represents f s) (hr : Sends s c r) :
    Agree (f.register c) (s.register r) := by
  have hbody : s.register r =
      if f.authenticated c then s.check r.version r.publicKey r
      else (s, .ok ⟨401, [("error", text "authentication required")]⟩) := by
    unfold Server.register
    rw [requireAuth_eq h hr, hr.body]
    cases f.authenticated c <;> rfl
  rw [hbody]
  unfold App.register
  cases f.authenticated c with
  | false => exact ⟨h, rfl⟩
  | true =>
    simp only [Bool.not_true, Bool.false_eq_true, if_false, if_true]
    unfold Server.check
    rw [hr.version, hr.publicKey]
    by_cases hkey : c.publicKey.getD "" = ""
    · rw [if_pos hkey, hkey]
      exact ⟨h, rfl⟩
    · have htruthy : (Json.string (text (c.publicKey.getD ""))).truthy = true := by
        simpa [Json.truthy, text_eq_nil] using hkey
      rw [if_neg hkey, if_pos htruthy]
      simp only [versionOf, toString_text]
      by_cases hold : versionTuple (c.version.getD "") < versionTuple minApplianceVersion
      · rw [if_pos hold, if_pos hold]
        exact ⟨h, rfl⟩
      · rw [if_neg hold, if_neg hold]
        unfold Server.connect
        rcases ensureReady_eq h hr.setup with ⟨detail, hw, hs⟩ | ⟨w, hw, hready, hs⟩
        · rw [hw, hs]
          exact ⟨h, rfl⟩
        rw [hw, hs]
        have h : Represents { f with wireguard := w } { s with ready := true } :=
          ⟨h.config, h.network, h.peers, hready.symm⟩
        simp only [Server.join]
        rcases allocate_eq h (c.publicKey.getD "") with
          ⟨hf, hs⟩ | ⟨registry, p, t, hf, hs, hkept, h⟩
        · simp only at hf
          rw [hf, hs]
          exact ⟨h, by rw [h.network]; rfl⟩
        simp only at hf h
        rw [hf, hs]
        simp only [Server.enrol, Server.addPeer_string hr.argument, hr.set]
        cases c.set with
        | error detail => exact ⟨h, rfl⟩
        | ok u =>
          rcases fabricKey_eq hr hkept with ⟨detail, hf, ht⟩ | ⟨key, hf, ht⟩
          · simp only [FabricWireGuard.addPeer, hf, ht]
            exact ⟨⟨h.config, h.network, h.peers, h.ready⟩, rfl⟩
          · simp only [FabricWireGuard.addPeer, hf, ht]
            refine ⟨⟨h.config, h.network, h.peers, h.ready⟩, ?_⟩
            rw [h.config, h.network]
            rfl

end Wifucked.Fabric.Requests
