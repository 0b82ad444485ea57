import Wifucked.Lib.JsonText
import Wifucked.Lib.Keyed
import Wifucked.Lib.Numerals
import Wifucked.Probe

/-!
# The prober of the appliance

Throughput and saturation are read off the counters of an interface, between
two readings. A connection of mode NORMAL is also pinged, for as long as the
time that a pass may spend on it lasts.
-/

namespace Wifucked

-- ---------------------------------------------------------------------------
-- What ping prints
-- ---------------------------------------------------------------------------

namespace PingText

open Numerals (isSpace)

/-- `[\d.]`. -/
def isFigure (c : Char) : Bool := ('0' ≤ c && c ≤ '9') || c = '.'

/-- `([\d.]+)`, as long as it can be. -/
def figure (t : List Char) : Option (List Char × List Char) :=
  if t.takeWhile isFigure = [] then none else some (t.takeWhile isFigure, t.dropWhile isFigure)

def after (c : Char) : List Char → Option (List Char)
  | [] => none
  | d :: t => if d = c then some t else none

/-- `([\d.]+)% packet loss`. -/
def lossAt (t : List Char) : Option (List Char) :=
  (figure t).bind fun (loss, t) => if "% packet loss".toList.isPrefixOf t then some loss else none

/-- `=\s*([\d.]+)/([\d.]+)/([\d.]+)/([\d.]+)\s*ms`. -/
def rttAt (t : List Char) : Option (List Char × List Char × List Char × List Char) := do
  let t ← after '=' t
  let (low, t) ← figure (t.dropWhile isSpace)
  let (avg, t) ← figure (← after '/' t)
  let (high, t) ← figure (← after '/' t)
  let (mdev, t) ← figure (← after '/' t)
  if "ms".toList.isPrefixOf (t.dropWhile isSpace) then some (low, avg, high, mdev) else none

def search {α : Type} (pattern : List Char → Option α) (t : List Char) : Option α :=
  t.tails.findSome? pattern

end PingText

/-- `ValueError`: a figure that `float` does not take, such as two points. -/
inductive NotANumber where
  | mk
  deriving DecidableEq, Repr

structure PingResult (K : Type) where
  lossPct : K
  /-- None when every request was lost. -/
  rttMs : Option K
  jitterMs : Option K
  deriving DecidableEq

section

variable {K : Type} [Field K]

def figureValue (t : List Char) : Except NotANumber K :=
  match Numerals.float t with
  | none => .error .mk
  | some q => .ok q

/-- `_parse_ping`: nothing where there is no loss line at all. -/
def parsePing (out : List Char) : Except NotANumber (Option (PingResult K)) :=
  match PingText.search PingText.lossAt out with
  | none => .ok none
  | some loss => do
    let lossPct ← figureValue loss
    match PingText.search PingText.rttAt out with
    | none => return some ⟨lossPct, none, none⟩
    | some (low, avg, high, mdev) =>
      let _ : K ← figureValue low
      let avg ← figureValue avg
      let _ : K ← figureValue high
      let mdev ← figureValue mdev
      return some ⟨lossPct, some avg, some mdev⟩

theorem parsePing_eq_none {out : List Char} :
    parsePing (K := K) out = .ok none ↔ PingText.search PingText.lossAt out = none := by
  unfold parsePing
  cases PingText.search PingText.lossAt out with
  | none => simp
  | some loss =>
    refine iff_of_false (fun h => ?_) (by simp)
    obtain ⟨lossPct, -, h⟩ := JsonText.bind_eq_ok.mp h
    rcases hrtt : PingText.search PingText.rttAt out with _ | ⟨low, avg, high, mdev⟩
    · rw [hrtt] at h
      cases h
    · rw [hrtt] at h
      obtain ⟨-, -, h⟩ := JsonText.bind_eq_ok.mp h
      obtain ⟨rttMs, -, h⟩ := JsonText.bind_eq_ok.mp h
      obtain ⟨-, -, h⟩ := JsonText.bind_eq_ok.mp h
      obtain ⟨jitterMs, -, h⟩ := JsonText.bind_eq_ok.mp h
      cases h

end

example :
    parsePing (K := ℚ) ("3 packets transmitted, 3 received, 0% packet loss, time 2003ms\n".toList ++
      "rtt min/avg/max/mdev = 1.5/2.25/4/0.5 ms".toList) =
        .ok (some ⟨0, some (9 / 4), some (1 / 2)⟩) := by
  decide +kernel

-- ---------------------------------------------------------------------------
-- What is read
-- ---------------------------------------------------------------------------

/-- What a reading of an interface leaves for the next one. -/
structure Counted (K : Type) where
  now : K
  rxBytes : Int
  txBytes : Int
  drops : Int

structure PassiveReading (K : Type) extends Counted K where
  backlogBytes : Int

/-- A target's turn: the clock when it is come to, and what the command
printed, where it ran. -/
structure Ping (K : Type) where
  now : K
  out : Option (List Char)

/-- All that one observation reads: the counters, the clock before anything is
pinged, and the targets. -/
structure Look (K : Type) where
  passive : PassiveReading K
  now : K
  ping : String → Ping K

abbrev Readings (K : Type) := Keyed (String × Counted K) Prod.fst

structure LinuxProber (K : Type) where
  last : Readings K
  /-- The lowest round trip ever seen of a connection. -/
  rttFloor : Keyed (String × K) Prod.fst
  activeProbeBudgetS : K
  passDeadline : Option K

def probeTargets : List String := ["1.1.1.1", "8.8.8.8"]

def mayProbeActively {K : Type} (atomic : Atomic K) : Bool := atomic.mode = .normal

variable {K : Type} [Field K] [LinearOrder K]

def throughput [FloorRing K] (elapsed : K) (previous bytes : Int) : Int :=
  trunc (((max 0 (bytes - previous) * 8 : Int) : K) / elapsed)

/-- `PassiveProber.observe`. -/
def observePassively [FloorRing K] (last : Readings K) (atomic : Atomic K)
    (reading : PassiveReading K) : Readings K × Option (Observation K) :=
  match atomic.iface with
  | none => (last, none)
  | some _ =>
    (last.put (atomic.id, reading.toCounted),
      (last.get? atomic.id).bind fun (_, previous) =>
        let elapsed := reading.now - previous.now
        if elapsed ≤ 0 then none
        else some
          { atomicId := atomic.id
            downBps := throughput elapsed previous.rxBytes reading.rxBytes
            upBps := throughput elapsed previous.txBytes reading.txBytes
            rttMs := none
            jitterMs := none
            lossPct := none
            bloatMs := none
            saturated := reading.backlogBytes > 0 || reading.drops > previous.drops })

namespace LinuxProber

def init (activeProbeBudgetS : K) : LinuxProber K := ⟨.empty, .empty, activeProbeBudgetS, none⟩

def beginPass (p : LinuxProber K) (now : K) : LinuxProber K :=
  { p with passDeadline := some (now + p.activeProbeBudgetS) }

def budgetExhausted (p : LinuxProber K) (now : K) : Bool := p.passDeadline.any (· ≤ now)

/-- The targets from one on: the first round trip, or the loss that was last
reported. Only the first target is pinged without a look at the clock. -/
def probeFrom (p : LinuxProber K) (ping : String → Ping K) :
    Bool → Option (PingResult K) → List String → Except NotANumber (Option (PingResult K))
  | _, fallback, [] => .ok fallback
  | first, fallback, target :: targets =>
    if !first && p.budgetExhausted (ping target).now then .ok fallback
    else
      match (ping target).out with
      | none => probeFrom p ping false fallback targets
      | some out =>
        match parsePing out with
        | .error e => .error e
        | .ok none => probeFrom p ping false fallback targets
        | .ok (some parsed) =>
          if parsed.rttMs.isSome then .ok (some parsed)
          else probeFrom p ping false (some parsed) targets

def activeProbe (p : LinuxProber K) (ping : String → Ping K) :
    Except NotANumber (Option (PingResult K)) :=
  p.probeFrom ping true none probeTargets

/-- What pinging adds to an observation: nothing where it is not permitted or
the time of the pass is spent. -/
def probe (p : LinuxProber K) (atomic : Atomic K) (look : Look K) :
    Except NotANumber (Option (PingResult K)) :=
  if mayProbeActively atomic && !p.budgetExhausted look.now then p.activeProbe look.ping
  else .ok none

def foldRttFloor (p : LinuxProber K) (id : String) : Option K → LinuxProber K × Option K
  | none => (p, none)
  | some rttMs =>
    let floor := min (((p.rttFloor.get? id).map (·.2)).getD rttMs) rttMs
    ({ p with rttFloor := p.rttFloor.put (id, floor) }, some (max 0 (rttMs - floor)))

def observe [FloorRing K] (p : LinuxProber K) (atomic : Atomic K) (look : Look K) :
    LinuxProber K × Except NotANumber (Option (Observation K)) :=
  let (last, passive) := observePassively p.last atomic look.passive
  let p := { p with last }
  match passive with
  | none => (p, .ok none)
  | some passive =>
    match p.probe atomic look with
    | .error e => (p, .error e)
    | .ok none => (p, .ok (some passive))
    | .ok (some result) =>
      let (p, bloatMs) := p.foldRttFloor atomic.id result.rttMs
      (p, .ok (some { passive with
        rttMs := result.rttMs
        jitterMs := result.jitterMs
        lossPct := some result.lossPct
        bloatMs }))

end LinuxProber

-- ---------------------------------------------------------------------------
-- What an observation comes to
-- ---------------------------------------------------------------------------

/-- The target reports nothing: the command does not run, or prints no loss line. -/
def Mute (look : Look K) (target : String) : Prop :=
  ∀ out, (look.ping target).out = some out → PingText.search PingText.lossAt out = none

namespace LinuxProber

/-- The interface is there, and was read before, at an earlier time. -/
def Windowed (p : LinuxProber K) (atomic : Atomic K) (look : Look K) : Prop :=
  atomic.iface ≠ none ∧
    ∃ previous, p.last.get? atomic.id = some previous ∧ 0 < look.passive.now - previous.2.now

/-- Pinging is not permitted, comes too late, or brings no report. -/
def Silent (p : LinuxProber K) (atomic : Atomic K) (look : Look K) : Prop :=
  atomic.mode ≠ .normal ∨ p.budgetExhausted look.now = true ∨
    Mute look "1.1.1.1" ∧
      (p.budgetExhausted (look.ping "8.8.8.8").now = true ∨ Mute look "8.8.8.8")

theorem probeFrom_last (p : LinuxProber K) (last : Readings K) (ping : String → Ping K)
    (first : Bool) (fallback : Option (PingResult K)) (targets : List String) :
    probeFrom { p with last } ping first fallback targets =
      p.probeFrom ping first fallback targets := by
  induction targets generalizing first fallback with
  | nil => rfl
  | cons target targets ih =>
    simp only [probeFrom, ih]
    rfl

theorem probe_last (p : LinuxProber K) (last : Readings K) (atomic : Atomic K) (look : Look K) :
    probe { p with last } atomic look = p.probe atomic look := by
  simp only [probe, activeProbe, probeFrom_last]
  rfl

theorem probeFrom_some {p : LinuxProber K} {ping : String → Ping K} {first : Bool}
    {fallback : PingResult K} {targets : List String} :
    p.probeFrom ping first (some fallback) targets ≠ .ok none := by
  induction targets generalizing first fallback with
  | nil => simp [probeFrom]
  | cons target targets ih =>
    unfold probeFrom
    split
    · simp
    · split
      · exact ih
      · split
        · simp
        · exact ih
        · split
          · simp
          · exact ih

theorem probeFrom_eq_none {p : LinuxProber K} {look : Look K} {first : Bool} {target : String}
    {targets : List String} :
    p.probeFrom look.ping first none (target :: targets) = .ok none ↔
      (!first && p.budgetExhausted (look.ping target).now) = true ∨
        Mute look target ∧ p.probeFrom look.ping false none targets = .ok none := by
  rw [probeFrom]
  split
  · rename_i h
    simp [h]
  · rename_i h
    rw [or_iff_right h]
    cases hout : (look.ping target).out with
    | none => simp [Mute, hout]
    | some out =>
      have hmute : Mute look target ↔ parsePing (K := K) out = .ok none := by
        simp [Mute, hout, parsePing_eq_none]
      rw [hmute]
      rcases hparse : parsePing (K := K) out with e | _ | parsed
      · simp [hparse]
      · simp [hparse]
      · simp only [hparse, Except.ok.injEq, reduceCtorEq, false_and, iff_false]
        split
        · simp
        · exact probeFrom_some

theorem probe_eq_none {p : LinuxProber K} {atomic : Atomic K} {look : Look K} :
    p.probe atomic look = .ok none ↔ p.Silent atomic look := by
  unfold probe Silent
  split
  · rename_i h
    simp only [mayProbeActively, Bool.and_eq_true, decide_eq_true_eq, Bool.not_eq_true'] at h
    rw [or_iff_right (not_not.mpr h.1), or_iff_right (by simp [h.2]), activeProbe, probeTargets,
      probeFrom_eq_none, probeFrom_eq_none]
    simp [probeFrom]
  · rename_i h
    refine iff_of_true rfl ?_
    by_cases hmode : atomic.mode = .normal
    · exact .inr (.inl (by simpa [mayProbeActively, hmode] using h))
    · exact .inl hmode

variable [FloorRing K]

theorem isSome_observePassively {p : LinuxProber K} {atomic : Atomic K} {look : Look K} :
    (observePassively p.last atomic look.passive).2.isSome ↔ p.Windowed atomic look := by
  unfold observePassively Windowed
  cases atomic.iface with
  | none => simp
  | some ifname =>
    cases p.last.get? atomic.id with
    | none => simp
    | some previous =>
      simp only [Option.bind_some]
      split
      · rename_i h; simpa using h
      · rename_i h; simpa using not_le.mp h

/-- What an observation comes to, and when. -/
inductive Observed (p : LinuxProber K) (atomic : Atomic K) (look : Look K) :
    Except NotANumber (Option (Observation K)) → Prop where
  | unseen : ¬p.Windowed atomic look → Observed p atomic look (.ok none)
  | raised : p.Windowed atomic look → p.probe atomic look = .error e →
    Observed p atomic look (.error e)
  | silent : p.Windowed atomic look → p.Silent atomic look → o.rttMs = none → o.lossPct = none →
    Observed p atomic look (.ok (some o))
  | heard : p.Windowed atomic look → p.probe atomic look = .ok (some result) →
    o.rttMs = result.rttMs → o.lossPct = some result.lossPct →
    Observed p atomic look (.ok (some o))

theorem observePassively_tells_nothing {last : Readings K} {atomic : Atomic K}
    {reading : PassiveReading K} (h : (observePassively last atomic reading).2 = some o) :
    o.rttMs = none ∧ o.lossPct = none := by
  unfold observePassively at h
  split at h
  · cases h
  · obtain ⟨previous, -, h⟩ := Option.bind_eq_some_iff.mp h
    simp only [Option.ite_none_left_eq_some, Option.some.injEq] at h
    obtain ⟨-, rfl⟩ := h
    exact ⟨rfl, rfl⟩

/-- What of an observation its estimate of capacity comes from. -/
def window (o : Observation K) : Bool × Int × Int := (o.saturated, o.downBps, o.upBps)

theorem window_observe (p : LinuxProber K) (atomic : Atomic K) (look : Look K) :
    (p.observe atomic look).2.toOption.join.map window =
      (p.probe atomic look).toOption.bind fun _ =>
        (observePassively p.last atomic look.passive).2.map window := by
  unfold observe
  rcases observePassively p.last atomic look.passive with ⟨last, _ | passive⟩
  · cases p.probe atomic look <;> rfl
  · simp only [probe_last]
    rcases p.probe atomic look with e | _ | result <;> rfl

/-- A saturated window, of which no ping's figures are unreadable. -/
structure Saturated (p : LinuxProber K) (atomic : Atomic K) (look : Look K)
    (previous : Counted K) : Prop where
  iface : atomic.iface ≠ none
  last : (p.last.get? atomic.id).map (·.2) = some previous
  later : 0 < look.passive.now - previous.now
  full : 0 < look.passive.backlogBytes ∨ previous.drops < look.passive.drops
  read : ∃ result, p.probe atomic look = .ok result

theorem window_saturated_iff {p : LinuxProber K} {atomic : Atomic K} {look : Look K} :
    (p.observe atomic look).2.toOption.join.map window = some (true, down, up) ↔
      ∃ previous, p.Saturated atomic look previous ∧
        let elapsed := look.passive.now - previous.now
        throughput elapsed previous.rxBytes look.passive.rxBytes = down ∧
          throughput elapsed previous.txBytes look.passive.txBytes = up := by
  have hread : (∃ result, (p.probe atomic look).toOption = some result) ↔
      ∃ result, p.probe atomic look = .ok result := by
    cases p.probe atomic look <;> simp [Except.toOption]
  rw [window_observe, Option.bind_eq_some_iff]
  constructor
  · rintro ⟨result, hresult, h⟩
    obtain ⟨passive, hpassive, h⟩ := Option.map_eq_some_iff.mp h
    unfold observePassively at hpassive
    split at hpassive
    · cases hpassive
    · rename_i ifname hiface
      obtain ⟨⟨id, previous⟩, hlast, hpassive⟩ := Option.bind_eq_some_iff.mp hpassive
      simp only [Option.ite_none_left_eq_some, Option.some.injEq, not_le] at hpassive
      obtain ⟨hlater, rfl⟩ := hpassive
      simp only [window, Prod.mk.injEq, Bool.or_eq_true, decide_eq_true_eq] at h
      exact ⟨previous, ⟨by simp [hiface], by simp [hlast], hlater, h.1, hread.mp ⟨result, hresult⟩⟩,
        h.2⟩
  · rintro ⟨previous, h, rfl, rfl⟩
    obtain ⟨result, hresult⟩ := hread.mpr h.read
    obtain ⟨ifname, hiface⟩ := Option.ne_none_iff_exists'.mp h.iface
    obtain ⟨⟨id, previous⟩, hlast, rfl⟩ := Option.map_eq_some_iff.mp h.last
    refine ⟨result, hresult, ?_⟩
    have hfull := h.full
    simp only [observePassively, hiface, hlast, Option.bind_some, if_neg (not_le.mpr h.later),
      Option.map_some, window]
    simpa using hfull

theorem observed_observe (p : LinuxProber K) (atomic : Atomic K) (look : Look K) :
    Observed p atomic look (p.observe atomic look).2 := by
  have hwindow : (observePassively p.last atomic look.passive).2.isSome ↔ p.Windowed atomic look :=
    isSome_observePassively
  unfold observe
  rcases hpassive : observePassively p.last atomic look.passive with ⟨last, _ | passive⟩
  · rw [hpassive] at hwindow
    exact .unseen fun h => by simpa using hwindow.mpr h
  · rw [hpassive] at hwindow
    obtain ⟨hrtt, hloss⟩ := observePassively_tells_nothing (congrArg Prod.snd hpassive)
    have hw : p.Windowed atomic look := hwindow.mp rfl
    simp only [probe_last]
    rcases hresult : p.probe atomic look with e | _ | result
    · exact .raised hw hresult
    · exact .silent hw (probe_eq_none.mp hresult) hrtt hloss
    · exact .heard hw hresult rfl rfl

end LinuxProber

end Wifucked
