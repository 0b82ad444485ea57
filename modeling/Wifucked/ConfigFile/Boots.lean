import Wifucked.ConfigFile.Sections

/-!
# What boots with which configuration file

What the loops do with the numbers of a configuration, and which values that
takes. A file boots where loading it raises nothing and leaves numbers the
loops can compute with.
-/

namespace Wifucked.Settings

open JsonText (Text Value File text oneOf get?)

-- ---------------------------------------------------------------------------
-- Numbers
-- ---------------------------------------------------------------------------

inductive Number where
  | finite (q : ℚ)
  | infinite (negative : Bool)
  | nan
  deriving DecidableEq, Repr

/-- What binary64 makes of a number that is too large or too small for it;
between the two the number is left exact. -/
def Number.round (q : ℚ) : Number :=
  if 2 ^ 1024 - 2 ^ 970 ≤ |q| then .infinite (q < 0)
  else if |q| ≤ 1 / 2 ^ 1075 then .finite 0
  else .finite q

def Number.ofLiteral (literal : Text) : Number :=
  if literal = text "NaN" then .nan
  else if literal = text "Infinity" then .infinite false
  else if literal = text "-Infinity" then .infinite true
  else ((Numerals.float (literal.map Char.ofNat)).map Number.round).getD .nan

/-- Converting it to a float raises no `OverflowError`. -/
def fitsFloat (i : ℤ) : Bool := |i| < 2 ^ 1024 - 2 ^ 970

/-- Not negative, and in the nanoseconds of 64 bits. -/
def sleepable (seconds : ℚ) : Bool := 0 ≤ seconds && seconds * 10 ^ 9 < 2 ^ 63

/-- In the milliseconds of 32 bits. -/
def pollable (seconds : ℚ) : Bool := seconds * 1000 < 2 ^ 31

-- ---------------------------------------------------------------------------
-- What is done with them
-- ---------------------------------------------------------------------------

inductive Use where
  /-- The clock is compared with `now + v`. -/
  | deadline
  /-- The same, and `time.sleep(v)`. -/
  | pause
  /-- `subprocess.run(timeout=v)`, of which a `TimeoutExpired` is handled. -/
  | timeout
  /-- A number is compared with it or added to it. -/
  | bound
  /-- It is written behind an address, as the length of a prefix. -/
  | prefixLength
  deriving DecidableEq, Repr

def Use.accepts : Use → Value → Bool
  | .deadline, .bool _ => true
  | .deadline, .int i => fitsFloat i
  | .deadline, .float _ => true
  | .pause, .bool _ => true
  | .pause, .int i => sleepable i
  | .pause, .float literal =>
    match Number.ofLiteral literal with
    | .finite q => sleepable q
    | _ => false
  | .timeout, .null => true
  | .timeout, .bool _ => true
  | .timeout, .int i => fitsFloat i && pollable i
  | .timeout, .float literal =>
    match Number.ofLiteral literal with
    | .finite q => pollable q
    | .infinite negative => negative
    | .nan => false
  | .bound, .bool _ => true
  | .bound, .int _ => true
  | .bound, .float _ => true
  | .prefixLength, .int i => 0 ≤ i && i ≤ 32
  | .prefixLength, .string s => (List.range 33).any fun n => s = text (toString n)
  | _, _ => false

structure Scalar where
  cls : Class
  name : String
  use : Use
  deriving DecidableEq, Repr

def scalars : List Scalar :=
  [⟨.lanConfig, "prefix", .prefixLength⟩,
    ⟨.loopConfig, "fast_s", .pause⟩,
    ⟨.loopConfig, "medium_s", .deadline⟩,
    ⟨.loopConfig, "slow_s", .deadline⟩,
    ⟨.loopConfig, "wifi_scan_min_interval_s", .deadline⟩,
    ⟨.loopConfig, "probe_budget_s", .deadline⟩,
    ⟨.loopConfig, "probe_timeout_s", .timeout⟩,
    ⟨.thresholds, "activation_deficit_bps", .bound⟩,
    ⟨.thresholds, "activation_dwell_s", .bound⟩,
    ⟨.thresholds, "recovery_margin_bps", .bound⟩,
    ⟨.thresholds, "recovery_dwell_s", .bound⟩,
    ⟨.thresholds, "degraded_rtt_ms", .bound⟩,
    ⟨.thresholds, "degraded_loss_pct", .bound⟩,
    ⟨.thresholds, "liveness_interval_s", .bound⟩,
    ⟨.thresholds, "liveness_bytes", .bound⟩,
    ⟨.thresholds, "min_confidence", .bound⟩]

def Config.scalar (c : Config) (s : Scalar) : Option Value := (c.section s.cls).attr s.name

-- ---------------------------------------------------------------------------
-- Booting
-- ---------------------------------------------------------------------------

def Gives (recursionLimit : ℕ) (file : File) (s : Scalar) (v : Value) : Prop :=
  ∃ t payload, file = .text t ∧ JsonText.loads recursionLimit t = .ok (.object payload) ∧
    given payload s.cls s.name = some v

/-- Loading the file raises nothing, the sections are objects of their own
classes, and what the daemon computes with is accepted: what the file gives, or
the default. -/
def Boots (recursionLimit : ℕ) (file : File) : Prop :=
  ∃ c, load recursionLimit file = .ok c ∧ (∀ cls, (c.section cls).cls = cls) ∧
    ∀ s ∈ scalars, ∃ v, c.scalar s = some v ∧ s.use.accepts v = true ∧
      (Config.default.scalar s = some v ∨ Gives recursionLimit file s v)

structure Usable (payload : List (Text × Value)) : Prop extends Loadable payload where
  accepted : ∀ s ∈ scalars, ∀ v, given payload s.cls s.name = some v → s.use.accepts v = true

/-- There is nothing to be read, or no JSON to be told from it, or a usable object. -/
def Bootable (recursionLimit : ℕ) : File → Prop
  | .absent => True
  | .unreadable => True
  | .undecodable _ => False
  | .text t =>
    match JsonText.loads recursionLimit t with
    | .ok (.object payload) => Usable payload
    | .ok _ => False
    | .error .decodeError => True
    | .error _ => False

theorem default_accepted :
    ∀ s ∈ scalars, ∃ v, (Object.new s.cls).attr s.name = some v ∧ s.use.accepts v = true := by
  have hany : ∀ s ∈ scalars, ((Object.new s.cls).attr s.name).any s.use.accepts = true := by
    decide +kernel
  exact fun s hs => (Option.any_eq_true _ _).mp (hany s hs)

theorem section_default (cls : Class) : Config.default.section cls = .new cls := by
  cases cls <;> rfl

theorem boots_default {recursionLimit : ℕ} {file : File}
    (h : load recursionLimit file = .ok .default) : Boots recursionLimit file := by
  refine ⟨.default, h, fun cls => ?_, fun s hs => ?_⟩
  · rw [section_default]
    rfl
  · obtain ⟨v, hv, haccepts⟩ := default_accepted s hs
    rw [← section_default] at hv
    exact ⟨v, hv, haccepts, .inl hv⟩

theorem boots_payload {recursionLimit : ℕ} {t : Text} {payload : List (Text × Value)}
    (h : JsonText.loads recursionLimit t = .ok (.object payload)) :
    Boots recursionLimit (.text t) ↔ Usable payload := by
  have hload : load recursionLimit (.text t) = ofPayload (.object payload) := by
    simp only [load, h]
  constructor
  · rintro ⟨c, hc, -, hscalars⟩
    rw [hload] at hc
    refine ⟨ofPayload_isOk.mp ⟨c, hc⟩, fun s hs v hv => ?_⟩
    obtain ⟨old, hold, -⟩ := default_accepted s hs
    obtain ⟨w, hw, haccepts, -⟩ := hscalars s hs
    have hsection := attr_section hc hold
    rw [hv, Option.getD_some] at hsection
    obtain rfl : v = w := Option.some.inj (hsection.symm.trans hw)
    exact haccepts
  · rintro ⟨hloadable, haccepted⟩
    obtain ⟨c, hc⟩ := ofPayload_isOk.mpr hloadable
    refine ⟨c, hload.trans hc, cls_section hc, fun s hs => ?_⟩
    obtain ⟨old, hold, haccepts⟩ := default_accepted s hs
    have hsection := attr_section hc hold
    cases hv : given payload s.cls s.name with
    | none =>
      rw [hv, Option.getD_none] at hsection
      exact ⟨old, hsection, haccepts, .inl (by rw [Config.scalar, section_default, hold])⟩
    | some v =>
      rw [hv, Option.getD_some] at hsection
      exact ⟨v, hsection, haccepted s hs v hv, .inr ⟨t, payload, rfl, h, hv⟩⟩

theorem not_boots {recursionLimit : ℕ} {file : File}
    (h : ∀ c, load recursionLimit file ≠ .ok c) : ¬Boots recursionLimit file :=
  fun ⟨c, hc, _⟩ => h c hc

def soon : Text := text "\x7b\"loops\": \x7b\"fast_s\": \"soon\"\x7d\x7d"

end Wifucked.Settings
