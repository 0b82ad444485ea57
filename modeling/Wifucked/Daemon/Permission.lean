import Wifucked.Daemon.Modes
import Wifucked.Daemon.Passes

/-!
# Permission during a pass

A pass goes by the modes that the registry held when it began, and lasts as
long as its pings. The user's calls may come before any of them.
-/

namespace Wifucked

variable {K : Type}

/-- A probe under way: the target it waits for, and those left. -/
structure Pinging (K : Type) where
  atomic : Atomic K
  observation : Observation K
  fallback : Option (PingResult K)
  target : String
  targets : List String

/-- A pass, ping by ping. -/
structure Passing (K : Type) where
  measuring : Measuring K
  pinging : Option (Pinging K)
  /-- Those that a call took permission from, and none gave it back to. -/
  withdrawn : List String
  /-- The calls that came since the pass began, the last one first. -/
  called : List (String × Mode)

inductive Move (K : Type) [Zero K] where
  | sweep (r : Reading K) (seen : Sweep K)
  | begin (r : Reading K)
  /-- The counters of the next connection, and the clock after reading them. -/
  | visit (passive : PassiveReading K) (now : K)
  /-- What a ping printed, and the clock after it. -/
  | answer (out : Option (List Char)) (now : K)
  | setMode (r : Reading K) (id : String) (mode : Mode)

namespace Passing

def idle (s : Passing K) : Bool := s.measuring.rest.isEmpty && s.pinging.isNone

def modeOf (s : Passing K) (id : String) : Option Mode := s.measuring.daemon.registry.modeOf id

def before (m : Measuring K) : Passing K := ⟨{ m with rest := [] }, none, [], []⟩

variable [Field K] [LinearOrder K] [FloorRing K] [HalfPow K]

def conclude (s : Passing K) (atomic : Atomic K) (observation : Observation K) :
    Except NotANumber (Option (PingResult K)) → Passing K
  | .error _ => { s with measuring := { s.measuring with rest := [] } }
  | .ok none =>
    { s with measuring := { s.measuring with
        daemon := s.measuring.daemon.measureOne s.measuring.reading atomic observation } }
  | .ok (some result) =>
    let (prober, bloatMs) := s.measuring.prober.foldRttFloor atomic.id result.rttMs
    { s with measuring := { s.measuring with
        prober
        daemon := s.measuring.daemon.measureOne s.measuring.reading atomic { observation with
          rttMs := result.rttMs
          jitterMs := result.jitterMs
          lossPct := some result.lossPct
          bloatMs } } }

/-- A ping starts at the first of the targets. -/
def ask (s : Passing K) (atomic : Atomic K) (observation : Observation K)
    (fallback : Option (PingResult K)) : List String → Passing K
  | [] => s.conclude atomic observation (.ok fallback)
  | target :: targets =>
    { s with pinging := some ⟨atomic, observation, fallback, target, targets⟩ }

/-- The targets that are left, as long as there is time. -/
def askNext (s : Passing K) (p : Pinging K) (fallback : Option (PingResult K)) (now : K) :
    Passing K :=
  if s.measuring.prober.budgetExhausted now then
    s.conclude p.atomic p.observation (.ok fallback)
  else s.ask p.atomic p.observation fallback p.targets

def visit (s : Passing K) (atomic : Atomic K) (rest : List (Atomic K))
    (passive : PassiveReading K) (now : K) : Passing K :=
  let (last, observed) := observePassively s.measuring.prober.last atomic passive
  let s := { s with measuring := { s.measuring with
    prober := { s.measuring.prober with last }
    rest } }
  match observed with
  | none => s
  | some observation =>
    if mayProbeActively atomic && !s.measuring.prober.budgetExhausted now then
      s.ask atomic observation none probeTargets
    else s.conclude atomic observation (.ok none)

def answer (s : Passing K) (p : Pinging K) (out : Option (List Char)) (now : K) : Passing K :=
  match out with
  | none => s.askNext p p.fallback now
  | some out =>
    match parsePing out with
    | .error e => s.conclude p.atomic p.observation (.error e)
    | .ok none => s.askNext p p.fallback now
    | .ok (some parsed) =>
      if parsed.rttMs.isSome then s.conclude p.atomic p.observation (.ok (some parsed))
      else s.askNext p (some parsed) now

def setMode (s : Passing K) (r : Reading K) (id : String) (mode : Mode) : Passing K :=
  { s with
    measuring := { s.measuring with daemon := s.measuring.daemon.setMode r id mode }
    withdrawn :=
      if (s.modeOf id).isNone then s.withdrawn
      else if mode = .normal then s.withdrawn.filter (· ≠ id)
      else id :: s.withdrawn
    called := (id, mode) :: s.called }

def step (s : Passing K) : Move K → Passing K
  | .sweep r seen =>
    if s.idle then { s with measuring := s.measuring.step (.sweep r seen) } else s
  | .begin r =>
    if s.idle then { s with measuring := s.measuring.step (.begin r), called := [] } else s
  | .visit passive now =>
    match s.pinging, s.measuring.rest with
    | none, atomic :: rest => s.visit atomic rest passive now
    | _, _ => s
  | .answer out now =>
    match s.pinging with
    | none => s
    | some p => { s with pinging := none }.answer p out now
  | .setMode r id mode => s.setMode r id mode

/-- The ping that a move starts. -/
def starts (s : Passing K) : Move K → Option (Pinging K)
  | .visit passive now => if s.pinging.isNone then (s.step (.visit passive now)).pinging else none
  | .answer out now => (s.step (.answer out now)).pinging
  | _ => none

-- ---------------------------------------------------------------------------
-- A look, ping by ping
-- ---------------------------------------------------------------------------

def answers (ping : String → Ping K) : List String → List (Move K)
  | [] => []
  | [target] => [.answer (ping target).out (ping target).now]
  | target :: next :: targets =>
    .answer (ping target).out (ping next).now :: answers ping (next :: targets)

omit [LinearOrder K] [FloorRing K] [HalfPow K] in
theorem answers_cons (ping : String → Ping K) (target : String) (targets : List String) :
    answers ping (target :: targets) =
      .answer (ping target).out (ping (targets.headD target)).now :: answers ping targets := by
  cases targets <;> rfl

theorem exec_idle_answers {s : Passing K} (h : s.pinging = none) (ping : String → Ping K)
    (targets : List String) : Runs.exec step s (answers ping targets) = s := by
  induction targets with
  | nil => rfl
  | cons target targets ih => simpa [answers_cons, step, h] using ih

@[simp] theorem pinging_conclude (s : Passing K) (atomic : Atomic K) (o : Observation K)
    (r : Except NotANumber (Option (PingResult K))) :
    (s.conclude atomic o r).pinging = s.pinging := by
  rcases r with e | _ | result <;> rfl

theorem step_answer_ask {s : Passing K} (h : s.pinging = none) (atomic : Atomic K)
    (o : Observation K) (fallback : Option (PingResult K)) (target : String) (targets : List String)
    (out : Option (List Char)) (now : K) :
    (s.ask atomic o fallback (target :: targets)).step (.answer out now) =
      s.answer ⟨atomic, o, fallback, target, targets⟩ out now := by
  obtain ⟨measuring, pinging, withdrawn, called⟩ := s
  obtain rfl : pinging = none := h
  rfl

theorem exec_askNext {s : Passing K} (h : s.pinging = none) {atomic : Atomic K}
    {o : Observation K} {ping : String → Ping K} {targets : List String}
    (hask : ∀ fallback, Runs.exec step (s.ask atomic o fallback targets) (answers ping targets) =
      s.conclude atomic o (s.measuring.prober.probeFrom ping true fallback targets))
    (target : String) (fallback fallback' : Option (PingResult K)) :
    Runs.exec step (s.askNext ⟨atomic, o, fallback', target, targets⟩ fallback
        (ping (targets.headD target)).now) (answers ping targets) =
      s.conclude atomic o (s.measuring.prober.probeFrom ping false fallback targets) := by
  cases targets with
  | nil => exact ite_self _
  | cons next targets =>
    rw [askNext, LinuxProber.probeFrom, Bool.not_false, Bool.true_and, List.headD_cons]
    split
    · exact exec_idle_answers ((pinging_conclude ..).trans h) ping _
    · exact hask fallback

/-- What the targets answer, one after the other, comes to what the probe comes to. -/
theorem exec_answers {s : Passing K} (h : s.pinging = none) (atomic : Atomic K)
    (o : Observation K) (fallback : Option (PingResult K)) (ping : String → Ping K)
    (targets : List String) :
    Runs.exec step (s.ask atomic o fallback targets) (answers ping targets) =
      s.conclude atomic o (s.measuring.prober.probeFrom ping true fallback targets) := by
  induction targets generalizing fallback with
  | nil => rfl
  | cons target targets ih =>
    have hnext := exec_askNext h ih target
    have hdone (r : Except NotANumber (Option (PingResult K))) :
        Runs.exec step (s.conclude atomic o r) (answers ping targets) = s.conclude atomic o r :=
      exec_idle_answers ((pinging_conclude ..).trans h) ping targets
    rw [answers_cons, Runs.exec_cons, step_answer_ask h, answer.eq_def, LinuxProber.probeFrom]
    cases (ping target).out with
    | none => exact hnext _ _
    | some out =>
      dsimp only
      rcases parsePing (K := K) out with e | _ | parsed
      · exact hdone _
      · exact hnext _ _
      · dsimp only [Bool.not_true, Bool.false_and]
        split
        · exact hdone _
        · exact hnext _ _

theorem exec_visit {s : Passing K} (h : s.pinging = none) (look : Look K) :
    Runs.exec step s (.visit look.passive look.now :: answers look.ping probeTargets) =
      { s with measuring := s.measuring.step (.turn look) } := by
  obtain ⟨⟨daemon, prober, reading, rest⟩, pinging, withdrawn, called⟩ := s
  obtain rfl : pinging = none := h
  rw [Runs.exec_cons]
  cases rest with
  | nil => exact exec_idle_answers rfl _ _
  | cons atomic rest =>
    simp only [step, visit, Measuring.step, LinuxProber.observe]
    rcases observePassively prober.last atomic look.passive with ⟨last, _ | o⟩
    · exact exec_idle_answers rfl _ _
    · dsimp only
      rw [LinuxProber.probe]
      split
      · rw [exec_answers rfl]
        dsimp only
        rw [LinuxProber.activeProbe]
        rcases LinuxProber.probeFrom _ look.ping true none probeTargets with e | _ | result <;> rfl
      · exact exec_idle_answers rfl _ _

-- ---------------------------------------------------------------------------
-- Whose permission is gone
-- ---------------------------------------------------------------------------

def Permitted (s : Passing K) (i : Move K) : Prop := ∀ p ∈ s.starts i, p.atomic.id ∉ s.withdrawn

/-- What a target printed that sends the probe on to the next one. -/
def unhelpful (K : Type) [Field K] (out : Option (List Char)) : Bool :=
  match out with
  | none => true
  | some out =>
    match parsePing (K := K) out with
    | .error _ => false
    | .ok none => true
    | .ok (some parsed) => parsed.rttMs.isNone

/-- The connection whose turn for a ping has come: it was NORMAL when the pass took
it, there is time left, and its counters were read before, or the target before this
one was of no help. -/
def due (s : Passing K) : Move K → Option (Atomic K)
  | .visit passive now =>
    match s.pinging, s.measuring.rest with
    | none, atomic :: _ =>
      if (observePassively s.measuring.prober.last atomic passive).2.isSome ∧
          mayProbeActively atomic ∧ ¬s.measuring.prober.budgetExhausted now then
        some atomic
      else none
    | _, _ => none
  | .answer out now =>
    s.pinging.bind fun p =>
      if p.targets ≠ [] ∧ unhelpful K out ∧ ¬s.measuring.prober.budgetExhausted now then
        some p.atomic
      else none
  | _ => none

/-- Between the beginning of the pass and its turn, no call took a connection away
from NORMAL, or the last one set it back. -/
def Undisturbed (s : Passing K) (i : Move K) : Prop :=
  ∀ a ∈ s.due i, (s.called.lookup a.id).getD .normal = .normal

/-- What the pass has read of the registry and not done with. -/
def carried (s : Passing K) : List (Atomic K) :=
  (s.pinging.map (·.atomic)).toList ++ s.measuring.rest

structure Tracked (s : Passing K) : Prop where
  withdrawn : ∀ id ∈ s.withdrawn, ∃ mode, s.modeOf id = some mode ∧ mode ≠ .normal
  carried : ∀ a ∈ s.carried, a.mode = .normal → (s.modeOf a.id).isSome ∧
    (a.id ∈ s.withdrawn ↔ (s.called.lookup a.id).getD .normal ≠ .normal)
  pinging : ∀ p ∈ s.pinging, p.atomic.mode = .normal

/-- What a look does, so far as permission goes: it takes none, and goes on
with what the pass had, at a connection that may be pinged. -/
structure Looks (s t : Passing K) : Prop where
  withdrawn : t.withdrawn = s.withdrawn
  called : t.called = s.called
  modes : ∀ id, t.modeOf id = s.modeOf id
  rest : ∀ a ∈ t.measuring.rest, a ∈ s.measuring.rest
  pinging : ∀ p ∈ t.pinging, p.atomic ∈ s.carried ∧ p.atomic.mode = .normal

theorem looks_conclude {s : Passing K} {t : Passing K} (h : Looks s t) (atomic : Atomic K)
    (o : Observation K) (r : Except NotANumber (Option (PingResult K))) :
    Looks s (t.conclude atomic o r) where
  withdrawn := by rw [← h.withdrawn]; rcases r with e | _ | result <;> rfl
  called := by rw [← h.called]; rcases r with e | _ | result <;> rfl
  modes id := by
    rw [← h.modes id]
    rcases r with e | _ | result
    · rfl
    · exact Daemon.measureOne_modeOf ..
    · exact Daemon.measureOne_modeOf ..
  rest a ha := by
    rcases r with e | _ | result
    · cases ha
    · exact h.rest a ha
    · exact h.rest a ha
  pinging p hp := h.pinging p (by rwa [pinging_conclude] at hp)

theorem looks_ask {s t : Passing K} (h : Looks s t) {atomic : Atomic K} (ha : atomic ∈ s.carried)
    (hmode : atomic.mode = .normal) (o : Observation K) (fallback : Option (PingResult K))
    (targets : List String) : Looks s (t.ask atomic o fallback targets) := by
  cases targets with
  | nil => exact looks_conclude h _ _ _
  | cons target targets =>
    refine ⟨h.withdrawn, h.called, h.modes, h.rest, fun p hp => ?_⟩
    cases hp
    exact ⟨ha, hmode⟩

theorem looks_visit {s : Passing K} (hs : s.pinging = none) {atomic : Atomic K}
    (hrest : s.measuring.rest = atomic :: rest) (passive : PassiveReading K) (now : K) :
    Looks s (s.visit atomic rest passive now) := by
  have ha : atomic ∈ s.carried := by simp [carried, hrest]
  have hsub : ∀ a ∈ rest, a ∈ s.measuring.rest := by
    rw [hrest]
    exact fun a => List.mem_cons_of_mem _
  unfold visit
  rcases observePassively s.measuring.prober.last atomic passive with ⟨last, _ | o⟩
  · exact ⟨rfl, rfl, fun _ => rfl, hsub, fun p hp => by simp [hs] at hp⟩
  · dsimp only
    have hread : Looks s { s with measuring := { s.measuring with
        prober := { s.measuring.prober with last }
        rest } } := ⟨rfl, rfl, fun _ => rfl, hsub, fun p hp => by simp [hs] at hp⟩
    split
    · rename_i hmay
      exact looks_ask hread ha (by simp [mayProbeActively] at hmay; exact hmay.1) _ _ _
    · exact looks_conclude hread _ _ _

theorem looks_answer {s t : Passing K} (h : Looks s t) {p : Pinging K} (hp : p.atomic ∈ s.carried)
    (hmode : p.atomic.mode = .normal) (out : Option (List Char)) (now : K) :
    Looks s (t.answer p out now) := by
  have hnext (fallback : Option (PingResult K)) : Looks s (t.askNext p fallback now) := by
    unfold askNext
    split
    · exact looks_conclude h _ _ _
    · exact looks_ask h hp hmode _ _ _
  unfold answer
  split
  · exact hnext _
  · split
    · exact looks_conclude h _ _ _
    · exact hnext _
    · split
      · exact looks_conclude h _ _ _
      · exact hnext _

theorem looks_step {s : Passing K} (h : s.Tracked) {i : Move K}
    (hi : (∃ passive now, i = .visit passive now) ∨ ∃ out now, i = .answer out now) :
    Looks s (s.step i) := by
  have hstay : Looks s s := ⟨rfl, rfl, fun _ => rfl, fun _ ha => ha, fun p hp =>
    ⟨by simp [carried, Option.mem_def.mp hp], h.pinging p hp⟩⟩
  rcases hi with ⟨passive, now, rfl⟩ | ⟨out, now, rfl⟩
  · simp only [step]
    split
    · rename_i hs hrest
      exact looks_visit hs hrest passive now
    · exact hstay
  · simp only [step]
    split
    · exact hstay
    · rename_i p hp
      have hdone : Looks s { s with pinging := none } :=
        ⟨rfl, rfl, fun _ => rfl, fun _ ha => ha, fun _ hq => by cases hq⟩
      exact looks_answer hdone (by simp [carried, hp]) (h.pinging p hp) out now

omit [Field K] [LinearOrder K] [FloorRing K] [HalfPow K] in
theorem Tracked.of_looks {s t : Passing K} (h : s.Tracked) (ht : Looks s t) : t.Tracked where
  withdrawn id hid := by
    rw [ht.modes]
    exact h.withdrawn id (ht.withdrawn ▸ hid)
  carried a ha hmode := by
    rw [ht.modes, ht.withdrawn, ht.called]
    refine h.carried a ?_ hmode
    rcases List.mem_append.mp ha with ha | ha
    · obtain ⟨p, hp, rfl⟩ := Option.map_eq_some_iff.mp (Option.mem_toList.mp ha)
      exact (ht.pinging p hp).1
    · exact List.mem_append_right _ (ht.rest a ha)
  pinging p hp := (ht.pinging p hp).2

omit [FloorRing K] [HalfPow K] in
theorem modeOf_setMode (s : Passing K) (r : Reading K) (id j : String) (mode : Mode) :
    (s.setMode r id mode).modeOf j =
      if j = id then (s.modeOf id).map fun _ => mode else s.modeOf j := by
  simp only [setMode, modeOf, Daemon.setMode]
  cases hid : s.measuring.daemon.registry.get? id with
  | none => by_cases hj : j = id <;> simp [Registry.modeOf, hj, hid]
  | some a => rw [Daemon.persist_registry, Registry.modeOf_setMode]

omit [FloorRing K] [HalfPow K] in
theorem mem_withdrawn_setMode {s : Passing K} {r : Reading K} {id j : String} {mode : Mode} :
    j ∈ (s.setMode r id mode).withdrawn ↔
      if j = id ∧ (s.modeOf id).isSome then mode ≠ .normal else j ∈ s.withdrawn := by
  simp only [setMode]
  cases hid : s.modeOf id with
  | none => simp
  | some known =>
    by_cases hmode : mode = .normal
    · by_cases hj : j = id <;> simp [hmode, hj]
    · by_cases hj : j = id <;> simp [hmode, hj]

omit [FloorRing K] [HalfPow K] in
theorem tracked_setMode {s : Passing K} (h : s.Tracked) (r : Reading K) (id : String)
    (mode : Mode) : (s.setMode r id mode).Tracked where
  withdrawn j hj := by
    rw [mem_withdrawn_setMode] at hj
    rw [modeOf_setMode]
    split at hj
    · rename_i hset
      obtain ⟨known, hknown⟩ := Option.isSome_iff_exists.mp hset.2
      exact ⟨mode, by simp [hset.1, hknown], hj⟩
    · rename_i hset
      obtain ⟨known, hknown, hne⟩ := h.withdrawn j hj
      refine ⟨known, ?_, hne⟩
      rw [if_neg fun hj => hset ⟨hj, by simp [← hj, hknown]⟩]
      exact hknown
  carried a ha hmode := by
    obtain ⟨hknown, hiff⟩ := h.carried a ha hmode
    have hcalled : (s.setMode r id mode).called = (id, mode) :: s.called := rfl
    rw [mem_withdrawn_setMode, modeOf_setMode, hcalled, List.lookup_cons]
    by_cases hid : a.id = id
    · rw [hid] at hknown
      simp [hid, hknown]
    · rw [show (a.id == id) = false by simpa using hid]
      simp [hid, hknown, hiff]
  pinging := h.pinging

theorem tracked_step {s : Passing K} (h : s.Tracked) (i : Move K) : (s.step i).Tracked := by
  cases i with
  | sweep r seen =>
    simp only [step]
    split
    · rename_i hidle
      obtain ⟨hrest, hpinging⟩ : s.measuring.rest = [] ∧ s.pinging = none := by
        simpa [idle] using hidle
      refine ⟨fun id hid => ?_, fun a ha => ?_, h.pinging⟩
      · obtain ⟨mode, hmode, hne⟩ := h.withdrawn id hid
        refine ⟨mode, ?_, hne⟩
        simp only [modeOf, Measuring.step, hrest, List.isEmpty_nil, if_true, Daemon.discoverOnce,
          Registry.modeOf_observe]
        rw [show s.measuring.daemon.registry.modeOf id = some mode from hmode]
        rfl
      · simp [carried, Measuring.step, hrest, hpinging] at ha
    · exact h
  | begin r =>
    simp only [step]
    split
    · rename_i hidle
      obtain ⟨-, hpinging⟩ : s.measuring.rest = [] ∧ s.pinging = none := by
        simpa [idle] using hidle
      refine ⟨h.withdrawn, fun a ha hmode => ?_, h.pinging⟩
      simp only [carried, hpinging, Option.map_none, Option.toList_none, List.nil_append] at ha
      have hheld : s.modeOf a.id = some .normal :=
        hmode ▸ Registry.modeOf_of_mem_all (List.mem_of_mem_filter ha)
      refine ⟨Option.isSome_of_eq_some hheld, fun hin => ?_, fun hne => absurd rfl hne⟩
      obtain ⟨mode, hother, hne⟩ := h.withdrawn _ hin
      exact absurd (Option.some.inj (hother.symm.trans hheld)) hne
    · exact h
  | visit passive now => exact h.of_looks (looks_step h (.inl ⟨passive, now, rfl⟩))
  | answer out now => exact h.of_looks (looks_step h (.inr ⟨out, now, rfl⟩))
  | setMode r id mode => exact tracked_setMode h r id mode

theorem pinging_ask (s : Passing K) (atomic : Atomic K) (o : Observation K)
    (fallback : Option (PingResult K)) (targets : List String) (h : s.pinging = none) :
    (s.ask atomic o fallback targets).pinging.map (·.atomic) =
      if targets ≠ [] then some atomic else none := by
  cases targets with
  | nil => simp [ask, h]
  | cons target targets => simp [ask]

theorem pinging_askNext (s : Passing K) (p : Pinging K) (fallback : Option (PingResult K))
    (now : K) (h : s.pinging = none) : (s.askNext p fallback now).pinging.map (·.atomic) =
      if p.targets ≠ [] ∧ ¬s.measuring.prober.budgetExhausted now then some p.atomic else none := by
  unfold askNext
  split
  · rename_i hover
    simp [h, hover]
  · rename_i hover
    rw [pinging_ask _ _ _ _ _ h]
    simp [hover]

theorem pinging_answer (s : Passing K) (p : Pinging K) (out : Option (List Char)) (now : K)
    (h : s.pinging = none) : (s.answer p out now).pinging.map (·.atomic) =
      if p.targets ≠ [] ∧ unhelpful K out ∧ ¬s.measuring.prober.budgetExhausted now then
        some p.atomic
      else none := by
  have hnext (fallback : Option (PingResult K)) := pinging_askNext s p fallback now h
  unfold answer
  cases out with
  | none => simpa [unhelpful] using hnext p.fallback
  | some out =>
    have hparse : unhelpful K (some out) =
        match parsePing (K := K) out with
        | .error _ => false
        | .ok none => true
        | .ok (some parsed) => parsed.rttMs.isNone := rfl
    dsimp only
    simp only [hparse]
    rcases parsePing (K := K) out with e | _ | parsed
    · simp [h]
    · simpa using hnext p.fallback
    · cases hrtt : parsed.rttMs with
      | none => simpa [hrtt] using hnext (some parsed)
      | some rtt => simp [hrtt, h]

/-- A ping is started where its turn has come, and nowhere else. -/
theorem starts_eq (s : Passing K) (i : Move K) : (s.starts i).map (·.atomic) = s.due i := by
  cases i with
  | visit passive now =>
    simp only [starts, step, due]
    cases hp : s.pinging with
    | some p => simp
    | none =>
      simp only [Option.isNone_none, if_true]
      cases s.measuring.rest with
      | nil => simp [hp]
      | cons atomic rest =>
        simp only [visit]
        rcases observePassively s.measuring.prober.last atomic passive with ⟨last, _ | o⟩
        · simp [hp]
        · have hbudget : ({ s.measuring.prober with last } : LinuxProber K).budgetExhausted now =
              s.measuring.prober.budgetExhausted now := rfl
          dsimp only
          rw [hbudget]
          split
          · rename_i hmay
            refine (pinging_ask _ atomic o none probeTargets hp).trans ?_
            rw [if_pos (by simp [probeTargets]), if_pos]
            simpa using hmay
          · rename_i hmay
            rw [pinging_conclude, if_neg]
            · simp [hp]
            · simpa using hmay
  | answer out now =>
    simp only [starts, step, due]
    cases hp : s.pinging with
    | none => simp [hp]
    | some p => exact pinging_answer { s with pinging := none } p out now rfl
  | _ => rfl

omit [HalfPow K] in
/-- What is due a ping was NORMAL when the pass took it, and is not done with. -/
theorem due_carried {s : Passing K} (h : s.Tracked) {i : Move K} (ha : a ∈ s.due i) :
    a ∈ s.carried ∧ a.mode = .normal := by
  cases i with
  | visit passive now =>
    simp only [due] at ha
    split at ha
    · rename_i hrest
      split at ha
      · rename_i hdue
        cases ha
        exact ⟨by simp [carried, hrest], by simpa [mayProbeActively] using hdue.2.1⟩
      · cases ha
    · cases ha
  | answer out now =>
    obtain ⟨p, hp, hdue⟩ := Option.bind_eq_some_iff.mp ha
    split at hdue
    · cases hdue
      exact ⟨by simp [carried, hp], h.pinging p hp⟩
    · cases hdue
  | _ => cases ha

theorem permitted_iff_undisturbed {s : Passing K} (h : s.Tracked) (i : Move K) :
    s.Permitted i ↔ s.Undisturbed i := by
  have hdue : s.Permitted i ↔ ∀ a ∈ s.due i, a.id ∉ s.withdrawn := by
    rw [← starts_eq]
    simp [Permitted]
  rw [hdue]
  refine forall₂_congr fun a ha => ?_
  obtain ⟨hcarried, hmode⟩ := due_carried h ha
  rw [(h.carried a hcarried hmode).2, not_not]

omit [Field K] [LinearOrder K] [FloorRing K] [HalfPow K] in
theorem tracked_before (m : Measuring K) : (before m).Tracked :=
  ⟨by simp [before], by simp [before, carried], by simp [before]⟩

/-- In every run of passes and calls, no ping starts at a connection after a
call took its permission, just where no call disturbs a connection between the
beginning of a pass and its turn. -/
theorem no_ping_withdrawn_iff (m : Measuring K) (is : List (Move K)) :
    Runs.Along step Permitted (before m) is ↔ Runs.Along step Undisturbed (before m) is :=
  Runs.along_iff (fun _ i hs _ => tracked_step hs i) (fun _ i hs => permitted_iff_undisturbed hs i)
    (tracked_before m)

instance (s : Passing K) (i : Move K) : Decidable (s.Permitted i) :=
  inferInstanceAs (Decidable (∀ p ∈ s.starts i, p.atomic.id ∉ s.withdrawn))

instance (s : Passing K) (i : Move K) : Decidable (s.Undisturbed i) :=
  inferInstanceAs (Decidable (∀ a ∈ s.due i, (s.called.lookup a.id).getD .normal = .normal))

/-- The dock is taken out of use after its turn and put back in time for the next
one, both while the pass runs on. -/
theorem no_ping_withdrawn_putBack :
    Runs.Along step Permitted (before (.init hotspot 2 ⟨0, 0⟩))
      [.sweep ⟨0, 0⟩ dockSwept, .begin ⟨0, 0⟩, .visit ⟨⟨0, 0, 0, 0⟩, 0⟩ 0,
        .begin ⟨10, 10⟩, .visit ⟨⟨10, 0, 0, 0⟩, 0⟩ 10, .setMode ⟨10, 10⟩ "usb:dock" .backup,
        .setMode ⟨10, 10⟩ "usb:dock" .normal, .answer none 11,
        .setMode ⟨11, 11⟩ "usb:dock" .unused, .answer none 12, .begin ⟨20, 20⟩,
        .visit ⟨⟨20, 0, 0, 0⟩, 0⟩ 20] :=
  (no_ping_withdrawn_iff _ _).mpr (by decide +kernel)

theorem pinged_after_set_mode :
    ¬Runs.Along step Permitted (before (.init hotspot 2 ⟨0, 0⟩))
      [.sweep ⟨0, 0⟩ dockSwept, .begin ⟨0, 0⟩, .visit ⟨⟨0, 0, 0, 0⟩, 0⟩ 0,
        .begin ⟨10, 10⟩, .setMode ⟨10, 10⟩ "usb:dock" .backup,
        .visit ⟨⟨10, 0, 0, 0⟩, 0⟩ 10] := by
  decide +kernel

end Passing

end Wifucked
