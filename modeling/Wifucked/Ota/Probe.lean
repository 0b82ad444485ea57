import Wifucked.ConfigFile
import Wifucked.Lib.Scan
import Wifucked.Ota.Slots

/-!
# The watchdog's health probe

Where the watchdog looks for the API, and where the daemon has it. The script
searches the lines of the configuration file for a port and always asks the
loopback address; the daemon binds what it has loaded from the same file.
-/

namespace Wifucked.Ota

open JsonText (Text Value File text isDigit decimal)
open ConfigFile (Config)

-- ---------------------------------------------------------------------------
-- The script
-- ---------------------------------------------------------------------------

/-- `[[:space:]]` within a line. -/
def isBlank (c : ℕ) : Bool := c = ' '.toNat || c = '\t'.toNat || 11 ≤ c && c ≤ 13

def quoted (name : String) : Text := text ("\"" ++ name ++ "\"")

/-- What follows a quoted name, a colon and the white space around it, where a
text starts with these. -/
def afterName (name : String) (t : Text) : Option Text :=
  (t.dropPrefix? (quoted name)).bind fun rest =>
    match rest.dropWhile isBlank with
    | [] => none
    | c :: rest => if c = ':'.toNat then some (rest.dropWhile isBlank) else none

/-- The match that starts here, if there is one. -/
def portAt (t : Text) : Option Text :=
  (afterName "api_port" t).bind fun rest =>
    if rest.takeWhile isDigit = [] then none else some (rest.takeWhile isDigit)

def parsed (t : Text) : Option Text := Scan.last portAt t

def defaultPort : ℕ := 8080

/-- A file with a NUL is binary, and its matches are not shown. -/
def port : File → ℕ
  | .absent => defaultPort
  | .unreadable => defaultPort
  | .undecodable bytes => if 0 ∈ bytes then defaultPort else (parsed bytes).elim defaultPort decimal
  | .text t => if 0 ∈ t then defaultPort else (parsed t).elim defaultPort decimal

def loopback : Text := text "127.0.0.1"

/-- A server's socket; without an address it takes connections to every one. -/
structure Listener where
  address : Option Text
  port : ℕ
  valid : 0 < port ∧ port < 2 ^ 16

def Listener.Reached (l : Listener) (address : Text) : Prop :=
  l.address = none ∨ l.address = some address

instance (l : Listener) (address : Text) : Decidable (l.Reached address) :=
  inferInstanceAs (Decidable (_ ∨ _))

/-- What one probe meets: whether the service is active, and what the daemon
answers to `/api/health` where a request gets to it. -/
structure Moment where
  active : Bool
  body : Option Text

def okTrue (body : Text) : Bool :=
  body.tails.any fun t => (afterName "ok" t).any (text "true").isPrefixOf

def curl (listener : Option Listener) (port : ℕ) (m : Moment) : Option Text :=
  listener.bind fun l => if l.Reached loopback ∧ l.port = port then m.body else none

def healthOk (listener : Option Listener) (port : ℕ) (m : Moment) : Bool :=
  m.active && (curl listener port m).any okTrue

def healthAttempts : ℕ := 3

/-- `none` without `curl`. -/
def verdict (curlFound : Bool) (listener : Option Listener) (file : File) (moments : ℕ → Moment) :
    Option Bool :=
  if curlFound then
    some ((List.range healthAttempts).any fun n => healthOk listener (port file) (moments n))
  else none

-- ---------------------------------------------------------------------------
-- Where the text has a port
-- ---------------------------------------------------------------------------

def Place (t digits : Text) : Prop :=
  (digits ≠ [] ∧ ∀ c ∈ digits, isDigit c) ∧ ∃ gap gap' after : Text,
    t = quoted "api_port" ++ (gap ++ ':'.toNat :: (gap' ++ (digits ++ after))) ∧
      (∀ c ∈ gap, isBlank c) ∧ (∀ c ∈ gap', isBlank c) ∧ Scan.Ends isDigit after

def Says (t : Text) (port : ℕ) : Prop :=
  (∃ s digits, s <:+ t ∧ Place s digits ∧ decimal digits = port ∧
    ∀ later more, later <:+ s → later ≠ s → ¬Place later more) ∨
  (∀ s digits, s <:+ t → ¬Place s digits) ∧ port = defaultPort

def SaysPort : File → ℕ → Prop
  | .absent, port => port = defaultPort
  | .unreadable, port => port = defaultPort
  | .undecodable bytes, port => if 0 ∈ bytes then port = defaultPort else Says bytes port
  | .text t, port => if 0 ∈ t then port = defaultPort else Says t port

variable {t rest digits : Text}

theorem afterName_eq_some : afterName name t = some rest ↔
    Scan.Ends isBlank rest ∧ ∃ gap gap' : Text,
      t = quoted name ++ (gap ++ ':'.toNat :: (gap' ++ rest)) ∧
        (∀ c ∈ gap, isBlank c) ∧ ∀ c ∈ gap', isBlank c := by
  unfold afterName
  simp only [Option.bind_eq_some_iff, List.dropPrefix?_eq_some_iff, beq_iff_eq]
  constructor
  · rintro ⟨r, ⟨name', rfl, rfl⟩, h⟩
    split at h
    · cases h
    · rename_i c more hdrop
      split at h
      · rename_i hc
        subst hc
        obtain ⟨hends, gap', hmore, hgap'⟩ := Scan.dropWhile_eq_iff.mp (Option.some.inj h)
        obtain ⟨-, gap, hr, hgap⟩ := Scan.dropWhile_eq_iff.mp hdrop
        exact ⟨hends, gap, gap', by rw [hr, hmore], hgap, hgap'⟩
      · cases h
  · rintro ⟨hends, gap, gap', rfl, hgap, hgap'⟩
    refine ⟨_, ⟨_, rfl, rfl⟩, ?_⟩
    have hdrop : (gap ++ ':'.toNat :: (gap' ++ rest)).dropWhile isBlank =
        ':'.toNat :: (gap' ++ rest) :=
      Scan.dropWhile_eq_iff.mpr ⟨by intro c hc; obtain rfl := Option.some.inj hc; decide,
        gap, rfl, hgap⟩
    have hdrop' : (gap' ++ rest).dropWhile isBlank = rest :=
      Scan.dropWhile_eq_iff.mpr ⟨hends, gap', rfl, hgap'⟩
    rw [hdrop]
    simp only [if_true, hdrop']

theorem portAt_eq_some : portAt t = some digits ↔ Place t digits := by
  unfold portAt
  simp only [Option.bind_eq_some_iff, afterName_eq_some]
  constructor
  · rintro ⟨rest, ⟨-, gap, gap', rfl, hgap, hgap'⟩, h⟩
    split at h
    · cases h
    · rename_i hne
      obtain rfl := Option.some.inj h
      refine ⟨⟨hne, fun _ => List.mem_takeWhile_imp⟩, gap, gap', rest.dropWhile isDigit, ?_, hgap,
        hgap', Scan.ends_dropWhile _ _⟩
      rw [List.takeWhile_append_dropWhile]
  · rintro ⟨⟨hne, hdigits⟩, gap, gap', after, rfl, hgap, hgap', hafter⟩
    have htake := Scan.takeWhile_append_ends hdigits hafter
    refine ⟨digits ++ after, ⟨?_, gap, gap', rfl, hgap, hgap'⟩, by simp [htake, hne]⟩
    intro c hc
    obtain ⟨d, ds, rfl⟩ := List.exists_cons_of_ne_nil hne
    obtain rfl := Option.some.inj hc
    have hd := hdigits d List.mem_cons_self
    simp [isDigit, isBlank] at hd ⊢
    omega

theorem says_iff {port : ℕ} : Says t port ↔ (parsed t).elim defaultPort decimal = port := by
  have hnone : ∀ s, portAt s = none ↔ ∀ digits, ¬Place s digits := by
    intro s
    simp only [← portAt_eq_some, Option.eq_none_iff_forall_ne_some, ne_eq]
  unfold Says parsed
  cases hlast : Scan.last portAt t with
  | none =>
    rw [Scan.last_eq_none] at hlast
    constructor
    · rintro (⟨s, digits, hs, hplace, -⟩ | ⟨-, rfl⟩)
      · exact absurd hplace ((hnone s).mp (hlast s hs) digits)
      · rfl
    · rintro rfl
      exact .inr ⟨fun s digits hs => (hnone s).mp (hlast s hs) digits, rfl⟩
  | some digits =>
    obtain ⟨s, hs, hplace, hlater⟩ := Scan.last_eq_some.mp hlast
    rw [portAt_eq_some] at hplace
    constructor
    · rintro (⟨s', digits', hs', hplace', rfl, hlater'⟩ | ⟨hno, -⟩)
      · have h' : Scan.last portAt t = some digits' :=
          Scan.last_eq_some.mpr ⟨s', hs', portAt_eq_some.mpr hplace',
            fun later hl hne => (hnone later).mpr fun more => hlater' later more hl hne⟩
        rw [hlast] at h'
        rw [Option.some.inj h']
        rfl
      · exact absurd hplace (hno s digits hs)
    · rintro rfl
      exact .inl ⟨s, digits, hs, hplace, rfl,
        fun later more hl hne => (hnone later).mp (hlater later hl hne) more⟩

theorem saysPort_iff {file : File} {p : ℕ} : SaysPort file p ↔ port file = p := by
  have htext : ∀ t, (if 0 ∈ t then p = defaultPort else Says t p) ↔
      (if 0 ∈ t then defaultPort else (parsed t).elim defaultPort decimal) = p := by
    intro t
    split
    · exact eq_comm
    · exact says_iff
  cases file with
  | absent => exact eq_comm
  | unreadable => exact eq_comm
  | undecodable bytes => exact htext bytes
  | text t => exact htext t

-- ---------------------------------------------------------------------------
-- A version that works
-- ---------------------------------------------------------------------------

variable {υ : Type u} [DecidableEq υ]

def MarkedHealthy (b : Box υ) (healthy : Option Bool) : Prop :=
  .healthy true ∈ done b (.boot healthy none) ∧ ∀ w, .link w ∉ done b (.boot healthy none)

theorem markedHealthy_iff {b : Box υ} {healthy : Option Bool} :
    MarkedHealthy b healthy ↔ healthy = some true := by
  match healthy with
  | none => simp [MarkedHealthy, done]
  | some true => simp [MarkedHealthy, done, firstSteps, watchdog]
  | some false =>
    have hnot : .healthy true ∉ rollback b := by
      unfold rollback
      split
      · simp
      · split
        · simp
        · split <;> simp
    simp [MarkedHealthy, done, firstSteps, watchdog, hnot]

/-- The daemon runs with the file, and answers `ok` where it listens. What Flask
and the kernel make of a host and a port is given. -/
structure Answers (serve : Value → Value → Option Listener) (recursionLimit : ℕ) (file : File)
    (moments : ℕ → Moment) (config : Config) (listener : Listener) : Prop where
  loaded : ConfigFile.load recursionLimit file = .ok config
  bound : serve config.apiHost config.apiPort = some listener
  active : ∀ n, (moments n).active = true
  ok : ∀ n, (moments n).body.any okTrue = true

theorem healthOk_iff {listener : Listener} {m : Moment} {port : ℕ} (hactive : m.active = true)
    (hok : m.body.any okTrue = true) :
    healthOk (some listener) port m = true ↔ listener.Reached loopback ∧ port = listener.port := by
  by_cases hreach : listener.Reached loopback ∧ listener.port = port
  · simp [healthOk, curl, hactive, hreach, hok]
  · have hport : ¬(listener.Reached loopback ∧ port = listener.port) := fun h =>
      hreach ⟨h.1, h.2.symm⟩
    simp [healthOk, curl, hreach, hport]

variable {serve : Value → Value → Option Listener} {recursionLimit : ℕ} {file : File}
  {moments : ℕ → Moment} {config : Config} {listener : Listener}

theorem working_marked_iff (b : Box υ)
    (h : Answers serve recursionLimit file moments config listener) :
    MarkedHealthy b (verdict true (serve config.apiHost config.apiPort) file moments) ↔
      listener.Reached loopback ∧ SaysPort file listener.port := by
  have hprobe : ∀ n, healthOk (some listener) (port file) (moments n) = true ↔
      listener.Reached loopback ∧ port file = listener.port :=
    fun n => healthOk_iff (h.active n) (h.ok n)
  rw [markedHealthy_iff, saysPort_iff, h.bound]
  simp only [verdict, if_true, Option.some.injEq, List.any_eq_true, hprobe, List.mem_range,
    healthAttempts]
  constructor
  · rintro ⟨-, -, h⟩
    exact h
  · intro h
    exact ⟨0, by omega, h⟩

def plainServe : Value → Value → Option Listener
  | .string host, .int p =>
    if h : 0 < p.toNat ∧ p.toNat < 2 ^ 16 then
      some ⟨if host = text "0.0.0.0" then none else some host, p.toNat, h⟩
    else none
  | _, _ => none

def answering : Moment := ⟨true, some (text "\x7b\"ap_running\":true,\"ok\":true\x7d")⟩

def loopbackFile : File := .text (text "\x7b\"api_host\": \"127.0.0.1\", \"api_port\": 9000\x7d")

theorem loopback_marked :
    Answers plainServe 1000 loopbackFile (fun _ => answering)
      ⟨.string loopback, .int 9000⟩ ⟨some loopback, 9000, by decide⟩ ∧
    (MarkedHealthy (Box.blank : Box String)
        (verdict true (plainServe (.string loopback) (.int 9000)) loopbackFile
          fun _ => answering) ↔
      Listener.Reached ⟨some loopback, 9000, by decide⟩ loopback ∧ SaysPort loopbackFile 9000) := by
  have h : Answers plainServe 1000 loopbackFile (fun _ => answering)
      ⟨.string loopback, .int 9000⟩ ⟨some loopback, 9000, by decide⟩ :=
    ⟨rfl, rfl, fun _ => rfl, fun _ => by decide⟩
  exact ⟨h, working_marked_iff .blank h⟩

def onTrial : Box String where
  slots := fun _ => .whole
  current := some "1.1.0"
  previous := some "1.0.0"
  version := some "1.1.0"
  healthy := false
  stamp := none

/-- With no configuration file the API is on the address of the LAN only. -/
theorem default_rolled_back :
    Answers plainServe 1000 .absent (fun _ => answering) .default
      ⟨some (text "10.44.0.1"), 8080, by decide⟩ ∧
    ¬MarkedHealthy onTrial (verdict true
      (plainServe Config.default.apiHost Config.default.apiPort) .absent fun _ => answering) ∧
    (onTrial.step (.boot (verdict true (plainServe Config.default.apiHost Config.default.apiPort)
      .absent fun _ => answering) none)).current = some "1.0.0" := by
  have hverdict : verdict true (plainServe Config.default.apiHost Config.default.apiPort) .absent
      (fun _ => answering) = some false := by decide
  refine ⟨⟨rfl, rfl, fun _ => rfl, fun _ => by decide⟩, ?_, ?_⟩
  · rw [markedHealthy_iff, hverdict]
    decide
  · rw [hverdict]
    decide

end Wifucked.Ota
