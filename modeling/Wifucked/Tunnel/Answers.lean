import Wifucked.Tunnel.Attach

/-!
# What any answer makes of attaching

An answer is taken for an object with texts in it, and an error of another kind
than a call catches gets out of `attach` and of the daemon's start. What each
stage needs is stated of the replies, and together it is all that is needed.
-/

namespace Wifucked.Attach

open JsonText (Text Value File text)

variable (c : Client) (env : Env) (serverUrl : Text)

-- ---------------------------------------------------------------------------
-- What is asked of a call
-- ---------------------------------------------------------------------------

def Holds (recursionLimit : ℕ) (reply : Reply) (status : Option ℕ) (v : Value) : Prop :=
  ∃ t, reply = .response status (.text t) ∧ JsonText.loads recursionLimit t = .ok v

/-- The server's version is not below the floor. -/
def Greets (health : List (Text × Value)) : Prop :=
  (∃ status, Holds env.recursionLimit env.health status (.object health)) ∧
    ∃ version, get health "version" = .string version ∧ version ≠ [] ∧
      ¬versionTuple version < versionTuple c.fabricMin

def Registers (body : List (Text × Value)) : Prop :=
  Holds env.recursionLimit env.register (some 200) (.object body) ∧
    truthy (get body "fabric_public_key") = true ∧ truthy (get body "assigned_address") = true ∧
      truthy (get body "tunnel_pool") = true

def HasKey : Prop := ∃ t, env.publicKey = .text t ∧ strip t ≠ []

structure Safe : Prop where
  returns : ∃ b, (attach c env serverUrl).2 = .ok b
  starts : ∀ tried others, attachFabricOnce c env tried (serverUrl :: others) = .ok ()
  commands : (attach c env serverUrl).1 ≠ [] → (∃ health, Greets c env health) ∧
    ∃ body, Registers env body

-- ---------------------------------------------------------------------------
-- What a call needs
-- ---------------------------------------------------------------------------

def Accepted (badHost : Text → Bool) (url : Text) : Prop :=
  hasScheme (untagged (unwrap url)) = true ∧ badHost url = false

/-- A reply that decodes and has no number or nesting that is too long for Python. -/
def Readable (recursionLimit : ℕ) : Reply → Prop
  | .failed => True
  | .raised _ => False
  | .response _ .unread => True
  | .response _ .undecodable => False
  | .response _ (.text t) => ∀ e, JsonText.loads recursionLimit t = .error e → e = .decodeError

structure HealthFit : Prop where
  url : Accepted env.badHost (urlOf serverUrl "/health")
  readable : Readable env.recursionLimit env.health
  shape : ∀ status v, Holds env.recursionLimit env.health status v →
    v = .null ∨ ∃ fields, v = .object fields ∧
      (truthy (get fields "version") = true → ∃ t, get fields "version" = .string t)

structure RegisterFit : Prop where
  url : Accepted env.badHost (urlOf serverUrl "/register")
  credentials : ∀ ch ∈ c.username ++ c.password, isSurrogate ch = false
  readable : Readable env.recursionLimit env.register
  shape : ∀ status v, Holds env.recursionLimit env.register status v →
    v = .null ∨ (∃ fields, v = .object fields) ∨ status ≠ some 200 ∧ truthy v = false

def tried (peer : Peer) : List (List Arg) :=
  addLink c :: setPeer c peer :: if env.ran (setPeer c peer) = .done then bringUp c peer else []

/-- A command that can be started, and whose output decodes. -/
def Clean (ran : List Arg → Ran) (argv : List Arg) : Prop :=
  (∀ arg ∈ argv, arg.encode = .ok ()) ∧ ran argv ≠ .undecodable

def CommandsFit (peer : Peer) : Prop := ∀ argv ∈ tried c env peer, Clean env.ran argv

structure Fit : Prop where
  health : HealthFit env serverUrl
  keyFile : (∃ health, Greets c env health) → ∀ bytes, env.publicKey ≠ .undecodable bytes
  register : (∃ health, Greets c env health) → HasKey env → RegisterFit c env serverUrl
  commands : ∀ health, Greets c env health → HasKey env → ∀ body, Registers env body →
    CommandsFit c env
      ⟨get body "fabric_public_key",
        orElse (get body "endpoint") (orElse (get health "address") (.string serverUrl)),
        get body "assigned_address"⟩

-- ---------------------------------------------------------------------------
-- Stages
-- ---------------------------------------------------------------------------

variable {c : Client} {env : Env} {serverUrl : Text} {limit : ℕ} {reply : Reply} {peer : Peer}

theorem request_eq_ok {badHost : Text → Bool} {url : Text} :
    request badHost url = .ok () ↔ Accepted badHost url := by
  unfold request Accepted
  cases hasScheme (untagged (unwrap url)) <;> cases badHost url <;> simp

theorem answer_of_holds (h : Holds limit reply status v) :
    answer limit reply = .ok (v, status) := by
  obtain ⟨t, rfl, ht⟩ := h
  simp [answer, parse, ht]
  rfl

theorem readable_iff : Readable limit reply ↔ ∃ r, answer limit reply = .ok r := by
  cases reply with
  | failed => simp [Readable, answer]
  | raised e => simp [Readable, answer]
  | response status body =>
    cases body with
    | unread =>
      simp only [Readable, answer, parse, true_iff, bind, Except.bind]
      split <;> exact ⟨_, rfl⟩
    | undecodable => simp [Readable, answer, parse, bind, Except.bind]
    | text t =>
      cases h : JsonText.loads limit t with
      | ok v => simp [Readable, answer, parse, h, bind, Except.bind, pure, Except.pure]
      | error e =>
        cases e with
        | decodeError =>
          simp only [Readable, answer, parse, h, bind, Except.bind]
          simp only [Except.error.injEq, forall_eq', true_iff]
          split <;> exact ⟨_, rfl⟩
        | valueError => simp [Readable, answer, parse, h, bind, Except.bind]
        | recursionError => simp [Readable, answer, parse, h, bind, Except.bind]

theorem holds_of_answer (h : answer limit reply = .ok (v, status)) :
    v = .null ∨ Holds limit reply status v := by
  cases reply with
  | failed =>
    simp only [answer, Except.ok.injEq, Prod.mk.injEq] at h
    exact .inl h.1.symm
  | raised e => cases h
  | response status' body =>
    obtain ⟨read, hread, h⟩ := JsonText.bind_eq_ok.mp h
    cases read with
    | none =>
      refine .inl ?_
      dsimp only at h
      split at h <;> exact (congrArg Prod.fst (Except.ok.inj h)).symm
    | some w =>
      obtain ⟨rfl, rfl⟩ := Prod.mk.inj (Except.ok.inj h)
      cases body with
      | unread => cases hread
      | undecodable => cases hread
      | text t =>
        refine .inr ⟨t, rfl, ?_⟩
        cases hloads : JsonText.loads limit t with
        | ok w' =>
          simp only [parse, hloads, Except.ok.injEq, Option.some.injEq] at hread
          rw [hread]
        | error e => cases e <;> simp [parse, hloads] at hread

theorem compatible_eq_ok {version : Value} {minimum : Text} :
    (∃ b, fabricCompatible version minimum = .ok b) ↔
      (truthy version = true → ∃ t, version = .string t) := by
  unfold fabricCompatible
  cases htruthy : truthy version with
  | false => simp
  | true => cases version <;> simp

theorem compatible_iff {version : Value} {minimum : Text} :
    fabricCompatible version minimum = .ok true ↔
      ∃ t, version = .string t ∧ t ≠ [] ∧ ¬versionTuple t < versionTuple minimum := by
  unfold fabricCompatible
  cases htruthy : truthy version with
  | false =>
    simp only [Bool.false_eq_true, if_false, Except.ok.injEq, false_iff]
    rintro ⟨t, rfl, hne, -⟩
    simp [truthy, hne] at htruthy
  | true =>
    cases version with
    | string t =>
      have hne : t ≠ [] := by
        rintro rfl
        simp [truthy] at htruthy
      simp [hne]
    | _ => simp

-- ---------------------------------------------------------------------------
-- The two calls
-- ---------------------------------------------------------------------------

theorem fit_of_checkHealth (h : checkHealth c env serverUrl = .ok r) : HealthFit env serverUrl := by
  obtain ⟨⟨⟩, hurl, h⟩ := JsonText.bind_eq_ok.mp h
  obtain ⟨⟨v, status⟩, hanswer, h⟩ := JsonText.bind_eq_ok.mp h
  refine ⟨request_eq_ok.mp hurl, readable_iff.mpr ⟨_, hanswer⟩, fun status' v' hv => ?_⟩
  rw [answer_of_holds hv, Except.ok.injEq, Prod.mk.injEq] at hanswer
  obtain ⟨rfl, rfl⟩ := hanswer
  cases v' with
  | null => exact .inl rfl
  | object fields =>
    obtain ⟨b, hb, -⟩ := JsonText.bind_eq_ok.mp h
    exact .inr ⟨fields, rfl, compatible_eq_ok.mp ⟨b, hb⟩⟩
  | _ => cases h

theorem checkHealth_greets (hfit : HealthFit env serverUrl) (h : Greets c env health) :
    checkHealth c env serverUrl =
      .ok (some (orElse (get health "address") (.string serverUrl))) := by
  obtain ⟨⟨status, hholds⟩, hversion⟩ := h
  simp [checkHealth, request_eq_ok.mpr hfit.url, answer_of_holds hholds,
    compatible_iff.mpr hversion, bind, Except.bind, pure, Except.pure]

theorem checkHealth_none (hfit : HealthFit env serverUrl) (h : ¬∃ health, Greets c env health) :
    checkHealth c env serverUrl = .ok none := by
  obtain ⟨⟨v, status⟩, hanswer⟩ := readable_iff.mp hfit.readable
  have hnull : (v = .null ∨ ∃ fields, v = .object fields ∧
      fabricCompatible (get fields "version") c.fabricMin = .ok false) := by
    rcases holds_of_answer hanswer with hv | hholds
    · exact .inl hv
    · rcases hfit.shape status v hholds with hv | ⟨fields, rfl, hversion⟩
      · exact .inl hv
      · refine .inr ⟨fields, rfl, ?_⟩
        obtain ⟨b, hb⟩ := compatible_eq_ok.mpr hversion
        cases b with
        | false => exact hb
        | true => exact absurd ⟨fields, ⟨status, hholds⟩, compatible_iff.mp hb⟩ h
  rcases hnull with rfl | ⟨fields, rfl, hcompatible⟩
  · simp [checkHealth, request_eq_ok.mpr hfit.url, hanswer, bind, Except.bind, pure, Except.pure]
  · simp [checkHealth, request_eq_ok.mpr hfit.url, hanswer, hcompatible, bind, Except.bind, pure,
      Except.pure]

theorem authorize_eq_ok {username password : Text} : authorize username password = .ok () ↔
    ∀ ch ∈ username ++ password, isSurrogate ch = false := by
  unfold authorize
  split
  · rename_i hany
    obtain ⟨ch, hmem, hch⟩ := List.any_eq_true.mp hany
    constructor
    · intro h
      cases h
    · intro h
      rw [h ch hmem] at hch
      cases hch
  · rename_i hany
    simpa only [true_iff, List.any_eq_true, not_exists, not_and, Bool.not_eq_true] using hany

theorem fit_of_register {endpoint : Value} (h : register c env serverUrl endpoint = .ok r) :
    RegisterFit c env serverUrl := by
  obtain ⟨⟨⟩, hurl, h⟩ := JsonText.bind_eq_ok.mp h
  obtain ⟨⟨⟩, hauthorize, h⟩ := JsonText.bind_eq_ok.mp h
  obtain ⟨⟨v, status⟩, hanswer, h⟩ := JsonText.bind_eq_ok.mp h
  refine ⟨request_eq_ok.mp hurl, authorize_eq_ok.mp hauthorize, readable_iff.mpr ⟨_, hanswer⟩,
    fun status' v' hv => ?_⟩
  rw [answer_of_holds hv, Except.ok.injEq, Prod.mk.injEq] at hanswer
  obtain ⟨rfl, rfl⟩ := hanswer
  have hother : (if status' ≠ some 200 ∧ ¬truthy v' then
      (pure none : Except Raised (Option Peer)) else throw .attributeError) = .ok r →
      status' ≠ some 200 ∧ truthy v' = false := by
    intro h
    split at h
    · rename_i hc
      exact ⟨hc.1, by simpa using hc.2⟩
    · cases h
  cases v' with
  | null => exact .inl rfl
  | object fields => exact .inr (.inl ⟨fields, rfl⟩)
  | _ => exact .inr (.inr (hother h))

theorem register_registers {endpoint : Value} (hfit : RegisterFit c env serverUrl)
    (h : Registers env body) :
    register c env serverUrl endpoint =
      .ok (some ⟨get body "fabric_public_key", orElse (get body "endpoint") endpoint,
        get body "assigned_address"⟩) := by
  obtain ⟨hholds, hkey, haddress, hpool⟩ := h
  simp [register, request_eq_ok.mpr hfit.url, authorize_eq_ok.mpr hfit.credentials,
    answer_of_holds hholds, hkey, haddress, hpool, bind, Except.bind, pure, Except.pure]

theorem register_none {endpoint : Value} (hfit : RegisterFit c env serverUrl)
    (h : ¬∃ body, Registers env body) : register c env serverUrl endpoint = .ok none := by
  obtain ⟨⟨v, status⟩, hanswer⟩ := readable_iff.mp hfit.readable
  have hrest : ∀ f : Value × Option ℕ → Except Raised (Option Peer),
      f (v, status) = .ok none →
      (do
        request env.badHost (urlOf serverUrl "/register")
        authorize c.username c.password
        f (← answer env.recursionLimit env.register)) = .ok none := by
    intro f hf
    simp [request_eq_ok.mpr hfit.url, authorize_eq_ok.mpr hfit.credentials, hanswer, bind,
      Except.bind, hf]
  refine hrest _ ?_
  rcases holds_of_answer hanswer with rfl | hholds
  · rfl
  · rcases hfit.shape status v hholds with rfl | ⟨fields, rfl⟩ | ⟨hstatus, hfalsy⟩
    · rfl
    · dsimp only
      split
      · rfl
      · rename_i hstatus
        split
        · rename_i hall
          obtain rfl : status = some 200 := by simpa using hstatus
          exact absurd ⟨fields, hholds, hall⟩ h
        · rfl
    · cases v with
      | null => rfl
      | object fields => exact if_pos hstatus
      | _ => exact if_pos ⟨hstatus, by simp [hfalsy]⟩

-- ---------------------------------------------------------------------------
-- The commands
-- ---------------------------------------------------------------------------

variable {ran : List Arg → Ran} {argv : List Arg}

theorem forM_encode : argv.forM Arg.encode = .ok () ↔ ∀ arg ∈ argv, arg.encode = .ok () := by
  induction argv with
  | nil => simp [pure, Except.pure]
  | cons arg argv ih =>
    have hcons : (arg :: argv).forM Arg.encode = (arg.encode >>= fun _ => argv.forM Arg.encode) :=
      rfl
    rw [hcons, JsonText.bind_eq_ok, List.forall_mem_cons, ← ih]
    constructor
    · rintro ⟨⟨⟩, h⟩
      exact h
    · intro h
      exact ⟨(), h⟩

theorem run_eq_ok : (∃ b, run ran argv = .ok b) ↔ Clean ran argv := by
  unfold run Clean
  rw [← forM_encode]
  constructor
  · rintro ⟨b, h⟩
    obtain ⟨⟨⟩, hforM, h⟩ := JsonText.bind_eq_ok.mp h
    refine ⟨hforM, fun hran => ?_⟩
    rw [hran] at h
    cases h
  · rintro ⟨hforM, hran⟩
    rw [hforM]
    cases hr : ran argv with
    | done => exact ⟨true, rfl⟩
    | failed => exact ⟨false, rfl⟩
    | undecodable => exact absurd hr hran

theorem run_true (h : run ran argv = .ok b) : b = true ↔ ran argv = .done := by
  obtain ⟨⟨⟩, -, h⟩ := JsonText.bind_eq_ok.mp h
  cases hr : ran argv with
  | done =>
    rw [hr] at h
    obtain rfl := Except.ok.inj h
    simp
  | failed =>
    rw [hr] at h
    obtain rfl := Except.ok.inj h
    simp
  | undecodable =>
    rw [hr] at h
    cases h

theorem runEach_eq_ok {commands : List (List Arg)} :
    (runEach ran commands).2 = .ok () ↔ ∀ argv ∈ commands, Clean ran argv := by
  induction commands with
  | nil => simp [runEach]
  | cons argv commands ih =>
    rw [List.forall_mem_cons, ← ih, ← run_eq_ok, runEach]
    cases run ran argv with
    | error e => simp
    | ok b => simp

theorem configureInterface_eq_ok :
    (∃ b, (configureInterface c env peer).2 = .ok b) ↔ CommandsFit c env peer := by
  unfold configureInterface CommandsFit tried
  rw [List.forall_mem_cons, List.forall_mem_cons, ← run_eq_ok, ← run_eq_ok]
  cases run env.ran (addLink c) with
  | error e => simp
  | ok added =>
    cases hset : run env.ran (setPeer c peer) with
    | error e => simp
    | ok b =>
      have hdone := run_true hset
      cases b with
      | false =>
        have hnot : env.ran (setPeer c peer) ≠ .done := fun h => by simp [h] at hdone
        simp [hnot]
      | true =>
        simp only [Except.ok.injEq, exists_eq', true_and, hdone.mp rfl, if_true, ← runEach_eq_ok]
        cases (runEach env.ran (bringUp c peer)).2 <;> simp [Except.map]

-- ---------------------------------------------------------------------------
-- The whole
-- ---------------------------------------------------------------------------

theorem readPublicKey_hasKey (h : HasKey env) :
    ∃ key, readPublicKey env.publicKey = .ok (some key) := by
  obtain ⟨t, ht, hne⟩ := h
  exact ⟨strip t, by simp [readPublicKey, ht, hne]⟩

theorem readPublicKey_none (h : ¬HasKey env) (hfile : ∀ bytes, env.publicKey ≠ .undecodable bytes) :
    readPublicKey env.publicKey = .ok none := by
  cases hkey : env.publicKey with
  | absent => rfl
  | unreadable => rfl
  | undecodable bytes => exact absurd hkey (hfile bytes)
  | text t =>
    have hempty : strip t = [] := by
      by_contra hne
      exact h ⟨t, hkey, hne⟩
    simp [readPublicKey, hempty]

theorem ask_of_greets (hfit : HealthFit env serverUrl) (hgreets : Greets c env health) :
    (∀ key, readPublicKey env.publicKey = .ok (some key) → ask c env serverUrl =
      register c env serverUrl (orElse (get health "address") (.string serverUrl))) ∧
    (readPublicKey env.publicKey = .ok none → ask c env serverUrl = .ok none) ∧
    ∀ e, readPublicKey env.publicKey = .error e → ask c env serverUrl = .error e := by
  have hask := checkHealth_greets hfit hgreets
  refine ⟨fun key hread => ?_, fun hread => ?_, fun e hread => ?_⟩ <;>
    simp only [ask, hask, hread, bind, Except.bind, pure, Except.pure]

theorem ask_hasKey (hfit : HealthFit env serverUrl) (hgreets : Greets c env health)
    (hkey : HasKey env) : ask c env serverUrl =
      register c env serverUrl (orElse (get health "address") (.string serverUrl)) := by
  obtain ⟨key, hread⟩ := readPublicKey_hasKey hkey
  exact (ask_of_greets hfit hgreets).1 key hread

/-- What is configured was greeted and registered. -/
theorem ask_some (h : ask c env serverUrl = .ok (some peer)) :
    (∃ health, Greets c env health) ∧ ∃ body, Registers env body := by
  obtain ⟨endpoint, hcheck, h⟩ := JsonText.bind_eq_ok.mp h
  have hgreets : ∃ health, Greets c env health := by
    by_contra hno
    rw [checkHealth_none (fit_of_checkHealth hcheck) hno] at hcheck
    obtain rfl := Except.ok.inj hcheck
    cases h
  refine ⟨hgreets, ?_⟩
  cases endpoint with
  | none => cases h
  | some endpoint =>
    obtain ⟨key, -, h⟩ := JsonText.bind_eq_ok.mp h
    cases key with
    | none => cases h
    | some key =>
      dsimp only at h
      by_contra hno
      rw [register_none (fit_of_register h) hno] at h
      cases h

theorem ask_of_attach (h : (attach c env serverUrl).2 = .ok b) :
    ∃ r, ask c env serverUrl = .ok r := by
  cases hask : ask c env serverUrl with
  | error e =>
    rw [attach_error hask] at h
    cases h
  | ok r => exact ⟨r, rfl⟩

theorem fit_of_attach (h : (attach c env serverUrl).2 = .ok b) : Fit c env serverUrl := by
  obtain ⟨r, hask⟩ := ask_of_attach h
  obtain ⟨endpoint, hcheck, -⟩ := JsonText.bind_eq_ok.mp hask
  have hfit := fit_of_checkHealth hcheck
  have hregister : ∀ health, Greets c env health → HasKey env → RegisterFit c env serverUrl := by
    intro health hgreets hkey
    rw [ask_hasKey hfit hgreets hkey] at hask
    exact fit_of_register hask
  refine ⟨hfit, ?_, fun ⟨health, hgreets⟩ => hregister health hgreets, ?_⟩
  · rintro ⟨health, hgreets⟩ bytes hbytes
    have hread : readPublicKey env.publicKey = .error .valueError := by rw [hbytes, readPublicKey]
    rw [(ask_of_greets hfit hgreets).2.2 _ hread] at hask
    cases hask
  · intro health hgreets hkey body hregisters
    have hpeer := ask_hasKey hfit hgreets hkey
    rw [register_registers (hregister health hgreets hkey) hregisters] at hpeer
    rw [attach_some hpeer] at h
    exact configureInterface_eq_ok.mp ⟨b, h⟩

theorem attach_of_fit (h : Fit c env serverUrl) : ∃ b, (attach c env serverUrl).2 = .ok b := by
  by_cases hgreets : ∃ health, Greets c env health
  · obtain ⟨health, hgreets⟩ := hgreets
    by_cases hkey : HasKey env
    · have hregister := h.register ⟨health, hgreets⟩ hkey
      have hask := ask_hasKey h.health hgreets hkey
      by_cases hregisters : ∃ body, Registers env body
      · obtain ⟨body, hregisters⟩ := hregisters
        rw [register_registers hregister hregisters] at hask
        rw [attach_some hask]
        exact configureInterface_eq_ok.mpr (h.commands health hgreets hkey body hregisters)
      · rw [register_none hregister hregisters] at hask
        exact ⟨false, by rw [attach_none hask]⟩
    · have hread := readPublicKey_none hkey (h.keyFile ⟨health, hgreets⟩)
      have hask := (ask_of_greets h.health hgreets).2.1 hread
      exact ⟨false, by rw [attach_none hask]⟩
  · have hask : ask c env serverUrl = .ok none := by
      simp only [ask, checkHealth_none h.health hgreets, bind, Except.bind, pure, Except.pure]
    exact ⟨false, by rw [attach_none hask]⟩

theorem commands_of_attach (h : (attach c env serverUrl).1 ≠ []) :
    (∃ health, Greets c env health) ∧ ∃ body, Registers env body := by
  cases hask : ask c env serverUrl with
  | error e =>
    rw [attach_error hask] at h
    exact absurd rfl h
  | ok r =>
    cases r with
    | none =>
      rw [attach_none hask] at h
      exact absurd rfl h
    | some peer => exact ask_some hask

def plainClient : Client where
  interface := text "wg0"
  fabricMin := text "0.0.0"
  username := []
  password := []
  privateKeyPath := text "/etc/wireguard/wifucked-privatekey"

def plainEnv (health : Body) : Env where
  recursionLimit := 900
  badHost := fun _ => false
  health := .response (some 200) health
  register := .response (some 200) (.text (text ("\x7b\"fabric_public_key\": \"k\", " ++
    "\"assigned_address\": \"10.99.0.2/32\", \"tunnel_pool\": \"10.99.0.0/24\"\x7d")))
  publicKey := .text (text "key\n")
  ran := fun _ => .done

example : (attach plainClient (plainEnv (.text (text "\x7b\"version\": \"0.1.0\"\x7d")))
    (text "http://fabric.example/")).2 = .ok true := by decide +kernel

end Wifucked.Attach
