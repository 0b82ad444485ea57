import Wifucked.Lib.Spans
import Wifucked.Probe.Linux

/-!
# The time of a pass

A pass goes from one connection to the next, and at each of them from one
target to the next. The clock moves on while counters are read and while a ping
runs, and is looked at between.
-/

namespace Wifucked

variable {K : Type}

-- ---------------------------------------------------------------------------
-- Pings
-- ---------------------------------------------------------------------------

namespace LinuxProber

variable [Field K]

def conclude : Option (PingResult K) → List (Option (List Char)) →
    Except NotANumber (Option (PingResult K))
  | fallback, [] => .ok fallback
  | fallback, none :: outs => conclude fallback outs
  | fallback, some out :: outs =>
    match parsePing out with
    | .error e => .error e
    | .ok none => conclude fallback outs
    | .ok (some parsed) =>
      if parsed.rttMs.isSome then .ok (some parsed) else conclude (some parsed) outs

/-- Whether what a ping printed ends a probe: a round trip, or no number. -/
def settles (K : Type) [Field K] : Option (List Char) → Bool
  | none => false
  | some out =>
    match parsePing (K := K) out with
    | .error _ => true
    | .ok none => false
    | .ok (some parsed) => parsed.rttMs.isSome

def tried (K : Type) [Field K] (out : String → Option (List Char)) : List String → List String
  | [] => []
  | target :: targets =>
    target :: if settles K (out target) then [] else tried K out targets

theorem conclude_tried_ok_iff (out : String → Option (List Char))
    (fallback : Option (PingResult K)) (targets : List String) :
    (∃ r, conclude fallback ((tried K out targets).map out) = .ok r) ↔
      ∀ u ∈ tried K out targets, ∀ text, out u = some text →
        ∃ r, parsePing (K := K) text = .ok r := by
  induction targets generalizing fallback with
  | nil => simp [tried, conclude]
  | cons target targets ih =>
    rw [tried, List.map_cons, List.forall_mem_cons]
    cases hout : out target with
    | none => simp [settles, conclude, ih]
    | some text =>
      rcases hparse : parsePing (K := K) text with e | _ | parsed
      · simp [settles, conclude, hparse]
      · simp [settles, conclude, hparse, ih]
      · cases hrtt : parsed.rttMs <;> simp [settles, conclude, hparse, hrtt, ih]

theorem tried_prefix (out : String → Option (List Char)) (targets : List String) :
    tried K out targets <+: targets := by
  induction targets with
  | nil => exact List.prefix_rfl
  | cons target targets ih =>
    refine List.cons_prefix_cons.mpr ⟨rfl, ?_⟩
    split
    · exact List.nil_prefix
    · exact ih

variable [LinearOrder K]

/-- The targets, from one on, that `probeFrom` starts a ping at. -/
def started (p : LinuxProber K) (ping : String → Ping K) : Bool → List String → List String
  | _, [] => []
  | first, target :: targets =>
    if !first && p.budgetExhausted (ping target).now then []
    else target :: if settles K (ping target).out then [] else started p ping false targets

theorem probeFrom_eq_conclude (p : LinuxProber K) (ping : String → Ping K) (first : Bool)
    (fallback : Option (PingResult K)) (targets : List String) :
    p.probeFrom ping first fallback targets =
      conclude fallback ((p.started ping first targets).map fun target => (ping target).out) := by
  induction targets generalizing first fallback with
  | nil => rfl
  | cons target targets ih =>
    unfold probeFrom started
    split
    · rfl
    · rw [List.map_cons]
      cases hout : (ping target).out with
      | none => simp [settles, conclude, ih]
      | some out =>
        rcases hparse : parsePing (K := K) out with e | _ | parsed
        · simp [conclude, hparse]
        · simp [settles, conclude, hparse, ih]
        · cases hrtt : parsed.rttMs <;> simp [settles, conclude, hparse, hrtt, ih]

theorem started_eq_tried_or (p : LinuxProber K) (ping : String → Ping K) (first : Bool)
    (targets : List String) :
    p.started ping first targets = tried K (fun u => (ping u).out) targets ∨
      ∃ u, p.budgetExhausted (ping u).now = true ∧ p.started ping first targets ++ [u] <+: targets ∧
        u ∈ tried K (fun u => (ping u).out) targets := by
  induction targets generalizing first with
  | nil => exact .inl rfl
  | cons target targets ih =>
    unfold started tried
    split
    · rename_i hbudget
      exact .inr ⟨target, by simp_all, List.cons_prefix_cons.mpr ⟨rfl, List.nil_prefix⟩,
        List.mem_cons_self⟩
    · split
      · exact .inl rfl
      · rcases ih false with h | ⟨u, hu, hprefix, hmem⟩
        · exact .inl (by rw [h])
        · exact .inr ⟨u, hu, List.cons_prefix_cons.mpr ⟨rfl, hprefix⟩, List.mem_cons_of_mem _ hmem⟩

def pinged [FloorRing K] (p : LinuxProber K) (atomic : Atomic K) (look : Look K) : List String :=
  match (observePassively p.last atomic look.passive).2 with
  | none => []
  | some _ =>
    if mayProbeActively atomic && !p.budgetExhausted look.now then
      p.started look.ping true probeTargets
    else []

theorem started_prefix (p : LinuxProber K) (ping : String → Ping K) (first : Bool)
    (targets : List String) : p.started ping first targets <+: targets := by
  induction targets generalizing first with
  | nil => exact List.prefix_rfl
  | cons target targets ih =>
    unfold started
    split
    · exact List.nil_prefix
    · refine List.cons_prefix_cons.mpr ⟨rfl, ?_⟩
      split
      · exact List.nil_prefix
      · exact ih false

theorem budget_of_mem_started {p : LinuxProber K} {ping : String → Ping K} {first : Bool}
    {targets : List String} (h : target ∈ p.started ping first targets)
    (hfirst : first = true → ∀ u ∈ targets.head?, p.budgetExhausted (ping u).now = false) :
    p.budgetExhausted (ping target).now = false := by
  induction targets generalizing first with
  | nil => cases h
  | cons u targets ih =>
    unfold started at h
    split at h
    · cases h
    · rename_i hbudget
      rcases List.mem_cons.mp h with rfl | h
      · cases first with
        | false => simpa using hbudget
        | true => exact hfirst rfl _ rfl
      · split at h
        · cases h
        · exact ih h (by simp)

theorem mem_pinged [FloorRing K] {p : LinuxProber K} {atomic : Atomic K} {look : Look K}
    (hfirst : ∀ u ∈ probeTargets.head?, (look.ping u).now = look.now)
    (h : target ∈ p.pinged atomic look) :
    atomic.mode = .normal ∧ p.budgetExhausted (look.ping target).now = false := by
  unfold pinged at h
  split at h
  · cases h
  · split at h
    · rename_i hmay
      simp only [mayProbeActively, Bool.and_eq_true, decide_eq_true_eq, Bool.not_eq_true'] at hmay
      refine ⟨hmay.1, budget_of_mem_started h fun _ u hu => ?_⟩
      rw [hfirst u hu]
      exact hmay.2
    · cases h

theorem pinged_prefix [FloorRing K] (p : LinuxProber K) (atomic : Atomic K) (look : Look K) :
    p.pinged atomic look <+: probeTargets := by
  unfold pinged
  split
  · exact List.nil_prefix
  · split
    · exact p.started_prefix look.ping true probeTargets
    · exact List.nil_prefix

end LinuxProber

-- ---------------------------------------------------------------------------
-- Visits
-- ---------------------------------------------------------------------------

/-- How long a ping runs, and what it prints where it comes to its end. -/
structure Try (K : Type) where
  seconds : K
  out : Option (List Char)

/-- What the pass comes upon at a connection, with the seconds that reading the
counters takes, and those before the next visit. -/
structure Visit (K : Type) where
  rxBytes : Int
  txBytes : Int
  drops : Int
  backlogBytes : Int
  reading : K
  ping : String → Try K
  after : K

theorem mem_append_cons_of_concat {α : Type} {l r : List α} {a b : α} (h : b ∈ l ++ [a]) :
    b ∈ l ++ a :: r := by
  rcases List.mem_append.mp h with h | h
  · exact List.mem_append_left _ h
  · exact List.mem_append_right _ (List.mem_singleton.mp h ▸ List.mem_cons_self)

section

variable [Field K]

def Visit.clock (v : Visit K) (t : K) (target : String) : K :=
  t + v.reading + secondsAhead (fun u => (v.ping u).seconds) probeTargets target

theorem Visit.clock_first (v : Visit K) (t : K) :
    ∀ u ∈ probeTargets.head?, v.clock t u = t + v.reading := by
  intro u hu
  cases hu
  simp [clock, probeTargets]

def Visit.look (v : Visit K) (t : K) : Look K where
  passive := ⟨⟨t, v.rxBytes, v.txBytes, v.drops⟩, v.backlogBytes⟩
  now := t + v.reading
  ping := fun target => ⟨v.clock t target, (v.ping target).out⟩

def Visit.tried (v : Visit K) : List String :=
  LinuxProber.tried K (fun u => (v.ping u).out) probeTargets

theorem Visit.tried_prefix (v : Visit K) : v.tried <+: probeTargets :=
  LinuxProber.tried_prefix _ _

def Visit.seconds (v : Visit K) : K :=
  v.reading + (v.tried.map fun u => (v.ping u).seconds).sum + v.after

def Visit.Readable (v : Visit K) : Prop :=
  ∀ u ∈ v.tried, ∀ text, (v.ping u).out = some text → ∃ r, parsePing (K := K) text = .ok r

variable [LinearOrder K]

def Room (budget : K) (id : String) : List (Atomic K × Visit K) → Prop
  | [] => False
  | (atomic, visit) :: agenda =>
    if atomic.id = id then visit.reading < budget
    else visit.Readable ∧ Room (budget - visit.seconds) id agenda

/-- What was read of a connection, at a time before. -/
def ReadBefore (p : LinuxProber K) (id : String) (t : K) : Prop :=
  ∃ previous, p.last.get? id = some previous ∧ previous.2.now < t

omit [Field K] in
theorem ReadBefore.mono {p : LinuxProber K} {id : String} (h : ReadBefore p id s) (hst : s ≤ t) :
    ReadBefore p id t := by
  obtain ⟨previous, hprevious, hlt⟩ := h
  exact ⟨previous, hprevious, hlt.trans_le hst⟩

theorem ReadBefore.windowed [IsStrictOrderedRing K] {p : LinuxProber K}
    (h : ReadBefore p atomic.id t) (hiface : atomic.iface ≠ none) (v : Visit K) :
    p.Windowed atomic (v.look t) := by
  obtain ⟨previous, hprevious, hlt⟩ := h
  exact ⟨hiface, previous, hprevious, sub_pos.mpr hlt⟩

/-- A visit as it was made: the prober before it, and when it began. -/
structure Visited (K : Type) where
  prober : LinuxProber K
  atomic : Atomic K
  visit : Visit K
  start : K

namespace Visited

variable [FloorRing K]

def look (x : Visited K) : Look K := x.visit.look x.start

def pings (x : Visited K) : List String := x.prober.pinged x.atomic x.look

def observe (x : Visited K) : LinuxProber K × Except NotANumber (Option (Observation K)) :=
  x.prober.observe x.atomic x.look

/-- The counters tell of a window, and a ping is permitted, but comes too late. -/
structure Skipped (x : Visited K) : Prop where
  permitted : mayProbeActively x.atomic = true
  windowed : x.prober.Windowed x.atomic x.look
  spent : x.prober.budgetExhausted x.look.now = true

def stop (x : Visited K) : K :=
  x.start + x.visit.reading + (x.pings.map fun u => (x.visit.ping u).seconds).sum + x.visit.after

def spans (x : Visited K) : List (Span K) :=
  x.pings.map fun target => ⟨x.visit.clock x.start target, (x.visit.ping target).seconds⟩

end Visited

/-- Time passes, and no ping runs past its timeout. -/
structure Visit.Timed (timeout : K) (v : Visit K) : Prop where
  reading : 0 ≤ v.reading
  after : 0 ≤ v.after
  ping : ∀ target, 0 ≤ (v.ping target).seconds
  within : ∀ target, (v.ping target).seconds ≤ timeout

theorem Visit.Timed.sum_nonneg [IsStrictOrderedRing K] {v : Visit K} (h : v.Timed timeout)
    (targets : List String) : 0 ≤ (targets.map fun u => (v.ping u).seconds).sum :=
  List.sum_nonneg fun s hs => by
    obtain ⟨u, -, rfl⟩ := List.mem_map.mp hs
    exact h.ping u

theorem pos_of_room [IsStrictOrderedRing K] {budget : K} (h : ∀ v ∈ agenda, v.2.Timed timeout)
    {id : String} (hr : Room budget id agenda) : 0 < budget := by
  induction agenda generalizing budget with
  | nil => cases hr
  | cons v agenda ih =>
    obtain ⟨hv, h⟩ := List.forall_mem_cons.mp h
    unfold Room at hr
    split at hr
    · exact hv.reading.trans_lt hr
    · have hrest := ih h hr.2
      have := hv.sum_nonneg v.2.tried
      have := hv.reading
      have := hv.after
      rw [Visit.seconds] at hrest
      linarith

namespace Visited

variable [FloorRing K] {x : Visited K}

theorem mem_spans (hs : s ∈ x.spans) : x.atomic.mode = .normal ∧
    x.prober.budgetExhausted s.start = false ∧
      ∃ target ∈ x.pings, s = ⟨x.visit.clock x.start target, (x.visit.ping target).seconds⟩ := by
  obtain ⟨target, htarget, rfl⟩ := List.mem_map.mp hs
  obtain ⟨hmode, hbudget⟩ := LinuxProber.mem_pinged (x.visit.clock_first x.start) htarget
  exact ⟨hmode, hbudget, target, htarget, rfl⟩

theorem clock_eq (htarget : target ∈ x.pings) : x.visit.clock x.start target =
    x.start + x.visit.reading +
      secondsAhead (fun u => (x.visit.ping u).seconds) x.pings target := by
  rw [Visit.clock, secondsAhead_of_prefix (LinuxProber.pinged_prefix ..) htarget]
  rfl

theorem pings_ne_nil_iff {x : Visited K} (hnormal : x.atomic.mode = .normal)
    (hw : x.prober.Windowed x.atomic x.look) :
    x.pings ≠ [] ↔ x.prober.budgetExhausted x.look.now = false := by
  obtain ⟨o, ho⟩ := Option.isSome_iff_exists.mp (LinuxProber.isSome_observePassively.mpr hw)
  rw [pings, LinuxProber.pinged, ho]
  cases hbudget : x.prober.budgetExhausted x.look.now <;>
    simp [mayProbeActively, hnormal, probeTargets, LinuxProber.started]

theorem pings_eq {x : Visited K} (hnormal : x.atomic.mode = .normal)
    (hw : x.prober.Windowed x.atomic x.look)
    (hbudget : x.prober.budgetExhausted x.look.now = false) :
    x.pings = x.prober.started x.look.ping true probeTargets := by
  obtain ⟨o, ho⟩ := Option.isSome_iff_exists.mp (LinuxProber.isSome_observePassively.mpr hw)
  rw [pings, LinuxProber.pinged, ho]
  simp [mayProbeActively, hnormal, hbudget]

theorem observe_ok_iff {x : Visited K} (hnormal : x.atomic.mode = .normal)
    (hw : x.prober.Windowed x.atomic x.look)
    (hbudget : x.prober.budgetExhausted x.look.now = false) (hpings : x.pings = x.visit.tried) :
    (∃ o, x.observe.2 = .ok o) ↔ x.visit.Readable := by
  obtain ⟨o, ho⟩ := Option.isSome_iff_exists.mp (LinuxProber.isSome_observePassively.mpr hw)
  have hprobe : x.prober.probe x.atomic x.look =
      LinuxProber.conclude none (x.visit.tried.map fun u => (x.visit.ping u).out) := by
    rw [LinuxProber.probe, LinuxProber.activeProbe, LinuxProber.probeFrom_eq_conclude,
      ← pings_eq hnormal hw hbudget, hpings]
    simp [mayProbeActively, hnormal, hbudget]
    rfl
  rw [Visit.Readable, Visit.tried, ← LinuxProber.conclude_tried_ok_iff, ← Visit.tried, ← hprobe]
  unfold observe LinuxProber.observe
  rcases hpassive : observePassively x.prober.last x.atomic x.look.passive with ⟨last, _ | passive⟩
  · rw [hpassive] at ho
    cases ho
  · simp only [LinuxProber.probe_last]
    rcases x.prober.probe x.atomic x.look with e | _ | result <;> simp

variable [IsStrictOrderedRing K]

theorem start_le_of_mem_spans (h : x.visit.Timed timeout) (hs : s ∈ x.spans) :
    x.start ≤ s.start := by
  obtain ⟨-, -, target, -, rfl⟩ := mem_spans hs
  have := secondsAhead_nonneg (l := probeTargets) (a := target) h.ping
  have := h.reading
  simp only [Visit.clock]
  linarith

theorem stop_le_of_mem_spans (h : x.visit.Timed timeout) (hs : s ∈ x.spans) :
    s.stop ≤ x.stop := by
  obtain ⟨-, -, target, htarget, rfl⟩ := mem_spans hs
  have := secondsAhead_add_le h.ping htarget
  have := h.after
  simp only [Span.stop, stop, clock_eq htarget]
  linarith

theorem start_le_stop (h : x.visit.Timed timeout) : x.start ≤ x.stop := by
  have := h.sum_nonneg x.pings
  have := h.reading
  have := h.after
  rw [stop]
  linarith

theorem sequential_spans (h : x.visit.Timed timeout) : Span.Sequential x.spans := by
  have hn : x.pings.Nodup := (by decide : probeTargets.Nodup).sublist
    (LinuxProber.pinged_prefix ..).sublist
  refine List.pairwise_map.mpr ((pairwise_secondsAhead h.ping hn).imp_of_mem fun hu hv huv => ?_)
  simp only [Span.stop, clock_eq hu, clock_eq hv]
  linarith

end Visited

variable [FloorRing K]

def visits (p : LinuxProber K) (t : K) : List (Atomic K × Visit K) → List (Visited K)
  | [] => []
  | (atomic, visit) :: agenda =>
    let x : Visited K := ⟨p, atomic, visit, t⟩
    x ::
      match x.observe.2 with
      | .error _ => []
      | .ok _ => visits x.observe.1 x.stop agenda

theorem visits_of_ok {p : LinuxProber K} {v : Atomic K × Visit K}
    (h : (Visited.mk p v.1 v.2 t).observe.2 = .ok o) (agenda : List (Atomic K × Visit K)) :
    visits p t (v :: agenda) = ⟨p, v.1, v.2, t⟩ ::
      visits (Visited.mk p v.1 v.2 t).observe.1 (Visited.mk p v.1 v.2 t).stop agenda := by
  simp only [visits, h]

def afterVisits (p : LinuxProber K) (t : K) : List (Atomic K × Visit K) → LinuxProber K
  | [] => p
  | (atomic, visit) :: agenda =>
    let x : Visited K := ⟨p, atomic, visit, t⟩
    match x.observe.2 with
    | .error _ => x.observe.1
    | .ok _ => afterVisits x.observe.1 x.stop agenda

/-- `Daemon._measure`, as far as the prober goes. -/
def pass (p : LinuxProber K) (now : K) (agenda : List (Atomic K × Visit K)) : List (Visited K) :=
  visits (p.beginPass now) now agenda

def afterPass (p : LinuxProber K) (now : K) (agenda : List (Atomic K × Visit K)) : LinuxProber K :=
  afterVisits (p.beginPass now) now agenda

theorem observe_fixes (p : LinuxProber K) (atomic : Atomic K) (look : Look K) :
    (p.observe atomic look).1.passDeadline = p.passDeadline ∧
      (p.observe atomic look).1.activeProbeBudgetS = p.activeProbeBudgetS := by
  unfold LinuxProber.observe
  rcases observePassively p.last atomic look.passive with ⟨last, _ | passive⟩
  · exact ⟨rfl, rfl⟩
  · dsimp only
    split
    · exact ⟨rfl, rfl⟩
    · exact ⟨rfl, rfl⟩
    · rename_i result _
      cases hrtt : result.rttMs <;> exact ⟨rfl, rfl⟩

theorem last_observe (p : LinuxProber K) (atomic : Atomic K) (look : Look K) :
    (p.observe atomic look).1.last = (observePassively p.last atomic look.passive).1 := by
  unfold LinuxProber.observe
  rcases observePassively p.last atomic look.passive with ⟨last, _ | passive⟩
  · rfl
  · dsimp only
    split
    · rfl
    · rfl
    · rename_i result _
      cases hrtt : result.rttMs <;> rfl

theorem readBefore_observe_self (p : LinuxProber K) (hiface : atomic.iface ≠ none)
    (h : look.passive.now < t) : ReadBefore (p.observe atomic look).1 atomic.id t := by
  obtain ⟨ifname, hiface⟩ := Option.ne_none_iff_exists'.mp hiface
  unfold ReadBefore
  rw [last_observe, observePassively, hiface]
  exact ⟨_, Keyed.get?_put_self _ _, h⟩

theorem ReadBefore.observe {p : LinuxProber K} {id : String} (h : ReadBefore p id t)
    (hnow : atomic.id = id → look.passive.now < t) :
    ReadBefore (p.observe atomic look).1 id t := by
  unfold ReadBefore
  rw [last_observe, observePassively]
  cases hiface : atomic.iface with
  | none => exact h
  | some ifname =>
    simp only [Keyed.get?_put]
    by_cases hid : atomic.id = id
    · rw [if_pos hid]
      exact ⟨_, rfl, hnow hid⟩
    · rw [if_neg hid]
      exact h

theorem ReadBefore.afterVisits {p : LinuxProber K} {id : String} (h : ReadBefore p id later)
    (hlater : ∀ x ∈ visits p t agenda, x.start < later) :
    ReadBefore (afterVisits p t agenda) id later := by
  induction agenda generalizing p t with
  | nil => exact h
  | cons v agenda ih =>
    unfold visits at hlater
    obtain ⟨hv, hlater⟩ := List.forall_mem_cons.mp hlater
    have hread : ReadBefore (p.observe v.1 (v.2.look t)).1 id later := h.observe fun _ => hv
    unfold Wifucked.afterVisits
    dsimp only at hlater ⊢
    split
    · exact hread
    · rename_i o ho
      rw [ho] at hlater
      exact ih hread hlater

theorem budget_afterVisits (p : LinuxProber K) (t : K) (agenda : List (Atomic K × Visit K)) :
    (afterVisits p t agenda).activeProbeBudgetS = p.activeProbeBudgetS := by
  induction agenda generalizing p t with
  | nil => rfl
  | cons v agenda ih =>
    have hfix := (observe_fixes p v.1 (v.2.look t)).2
    unfold afterVisits
    dsimp only
    split
    · exact hfix
    · exact (ih _ _).trans hfix

theorem read_of_mem_visits {p : LinuxProber K} (hiface : ∀ v ∈ agenda, v.1.iface ≠ none)
    (hlater : ∀ x ∈ visits p t agenda, x.start < later) (hx : x ∈ visits p t agenda) :
    ∃ ahead rest, agenda = ahead ++ (x.atomic, x.visit) :: rest ∧
      ∀ v ∈ ahead ++ [(x.atomic, x.visit)], ReadBefore (afterVisits p t agenda) v.1.id later := by
  induction agenda generalizing p t with
  | nil => cases hx
  | cons v agenda ih =>
    obtain ⟨hv, hiface⟩ := List.forall_mem_cons.mp hiface
    unfold visits at hlater hx
    obtain ⟨hstart, hlater⟩ := List.forall_mem_cons.mp hlater
    have hread : ReadBefore (p.observe v.1 (v.2.look t)).1 v.1.id later :=
      readBefore_observe_self p hv hstart
    have hhead : ReadBefore (afterVisits p t (v :: agenda)) v.1.id later := by
      unfold afterVisits
      dsimp only at hlater ⊢
      split
      · exact hread
      · rename_i o ho
        rw [ho] at hlater
        exact hread.afterVisits hlater
    rcases List.mem_cons.mp hx with rfl | hx
    · exact ⟨[], agenda, rfl, by simpa using hhead⟩
    · split at hx
      · cases hx
      · rename_i o ho
        rw [ho] at hlater
        obtain ⟨ahead, rest, rfl, hmem⟩ := ih hiface hlater hx
        refine ⟨v :: ahead, rest, rfl, ?_⟩
        rw [List.cons_append, List.forall_mem_cons]
        refine ⟨hhead, fun w hw => ?_⟩
        simp only [afterVisits, ho]
        exact hmem w hw

variable [IsStrictOrderedRing K]

theorem mem_visits {p : LinuxProber K} (h : ∀ v ∈ agenda, v.2.Timed timeout)
    (hx : x ∈ visits p t agenda) : (x.atomic, x.visit) ∈ agenda ∧ t ≤ x.start ∧
      x.prober.passDeadline = p.passDeadline := by
  induction agenda generalizing p t with
  | nil => cases hx
  | cons v agenda ih =>
    obtain ⟨hv, h⟩ := List.forall_mem_cons.mp h
    rcases List.mem_cons.mp hx with rfl | hx
    · exact ⟨List.mem_cons_self, le_rfl, rfl⟩
    · have hfix := observe_fixes p v.1 (v.2.look t)
      split at hx
      · cases hx
      · obtain ⟨hmem, hstart, hdeadline⟩ := ih h hx
        exact ⟨List.mem_cons_of_mem _ hmem,
          (Visited.start_le_stop (x := ⟨p, v.1, v.2, t⟩) hv).trans hstart, hdeadline.trans hfix.1⟩

theorem sequential_visits {p : LinuxProber K} (h : ∀ v ∈ agenda, v.2.Timed timeout) :
    Span.Sequential ((visits p t agenda).flatMap Visited.spans) := by
  induction agenda generalizing p t with
  | nil => exact .nil
  | cons v agenda ih =>
    obtain ⟨hv, h⟩ := List.forall_mem_cons.mp h
    simp only [visits, List.flatMap_cons]
    refine List.pairwise_append.mpr ⟨Visited.sequential_spans hv, ?_, fun a ha b hb => ?_⟩
    · split
      · exact .nil
      · exact ih h
    · have hstop := Visited.stop_le_of_mem_spans hv ha
      split at hb
      · cases hb
      · obtain ⟨y, hy, hb⟩ := List.mem_flatMap.mp hb
        obtain ⟨hmem, hstart, -⟩ := mem_visits h hy
        exact hstop.trans (hstart.trans (Visited.start_le_of_mem_spans (h _ hmem) hb))

/-- However many the connections and whatever the pings come to, none starts
once the time of the pass is up, together they take no longer than that and the
last of them, and none goes where the mode is not NORMAL. -/
theorem pings_within_budget {p : LinuxProber K} (now : K) {timeout : K}
    {agenda : List (Atomic K × Visit K)} (h : ∀ v ∈ agenda, v.2.Timed timeout) :
    let spans := (pass p now agenda).flatMap Visited.spans
    (∀ s ∈ spans, s.start < now + p.activeProbeBudgetS) ∧
      (spans.map (·.seconds)).sum ≤ max 0 (p.activeProbeBudgetS + timeout) ∧
        ∀ x ∈ pass p now agenda, x.atomic.mode ≠ .normal → x.pings = [] := by
  intro spans
  have hspans : ∀ s ∈ spans, now ≤ s.start ∧ s.start < now + p.activeProbeBudgetS ∧
      s.seconds ≤ timeout := by
    intro s hs
    obtain ⟨x, hx, hs⟩ := List.mem_flatMap.mp hs
    obtain ⟨hmem, hstart, hdeadline⟩ := mem_visits h hx
    obtain ⟨-, hbudget, target, -, rfl⟩ := Visited.mem_spans hs
    refine ⟨hstart.trans (Visited.start_le_of_mem_spans (h _ hmem) hs), ?_,
      (h _ hmem).within target⟩
    simpa [LinuxProber.budgetExhausted, hdeadline, LinuxProber.beginPass] using hbudget
  refine ⟨fun s hs => (hspans s hs).2.1, ?_, fun x hx hmode => ?_⟩
  · rcases le_total 0 (p.activeProbeBudgetS + timeout) with hroom | hroom
    · calc (spans.map (·.seconds)).sum
          ≤ now + p.activeProbeBudgetS - now + timeout :=
            Span.sum_seconds_le (sequential_visits h) (fun s hs => (hspans s hs).1)
              (fun s hs => (hspans s hs).2.1.le) (fun s hs => (hspans s hs).2.2) (by linarith)
        _ = p.activeProbeBudgetS + timeout := by rw [add_sub_cancel_left]
        _ ≤ max 0 (p.activeProbeBudgetS + timeout) := le_max_right _ _
    · -- A span would take longer than there is.
      have hnone : ∀ x ∈ spans.map (·.seconds), x ≤ 0 := by
        intro x hx
        obtain ⟨s, hs, rfl⟩ := List.mem_map.mp hx
        obtain ⟨hfrom, hstart, hwithin⟩ := hspans s hs
        linarith
      have hsum := List.sum_le_card_nsmul _ 0 hnone
      rw [smul_zero] at hsum
      exact le_max_of_le_left hsum
  · refine List.eq_nil_iff_forall_not_mem.mpr fun target htarget => hmode ?_
    exact (LinuxProber.mem_pinged (x.visit.clock_first x.start) htarget).1

-- ---------------------------------------------------------------------------
-- Two passes
-- ---------------------------------------------------------------------------

/-- A visit that is over in time was not cut short, nor is one that would be
over in time. -/
theorem Visited.pings_eq_tried {x : Visited K} (h : x.visit.Timed timeout)
    (hnormal : x.atomic.mode = .normal) (hw : x.prober.Windowed x.atomic x.look)
    (hd : x.prober.passDeadline = some d) (htime : x.stop < d ∨ x.start + x.visit.seconds < d) :
    x.prober.budgetExhausted x.look.now = false ∧ x.pings = x.visit.tried := by
  have hexhausted (t : K) : x.prober.budgetExhausted t = true ↔ d ≤ t := by
    simp [LinuxProber.budgetExhausted, hd]
  have hafter := h.after
  have hbudget : x.prober.budgetExhausted x.look.now = false := by
    refine Bool.eq_false_iff.mpr fun hlate => ?_
    have hlate : d ≤ x.start + x.visit.reading := (hexhausted _).mp hlate
    rcases htime with htime | htime
    · have := h.sum_nonneg x.pings
      rw [stop] at htime
      linarith
    · have := h.sum_nonneg x.visit.tried
      rw [Visit.seconds] at htime
      linarith
  have hpings := pings_eq hnormal hw hbudget
  refine ⟨hbudget, ?_⟩
  rw [hpings]
  refine (x.prober.started_eq_tried_or _ _ _).resolve_right ?_
  rintro ⟨u, hlate, hprefix, htried⟩
  have hlate : d ≤ x.visit.clock x.start u := (hexhausted _).mp hlate
  rw [← hpings] at hprefix
  rcases htime with htime | htime
  · have hu : u ∉ x.pings := by
      have hn : (x.pings ++ [u]).Nodup := (by decide : probeTargets.Nodup).sublist hprefix.sublist
      exact fun hmem => (List.nodup_append.mp hn).2.2 u hmem u (by simp) rfl
    rw [Visit.clock, secondsAhead_of_prefix hprefix (by simp), secondsAhead_append_self hu] at hlate
    rw [stop] at htime
    linarith
  · have htried : u ∈ x.visit.tried := htried
    have hahead := secondsAhead_add_le h.ping htried
    have := h.ping u
    rw [Visit.clock, secondsAhead_of_prefix x.visit.tried_prefix htried] at hlate
    rw [Visit.seconds] at htime
    linarith

def Reached (p : LinuxProber K) (t : K) (agenda : List (Atomic K × Visit K)) (id : String) : Prop :=
  ∃ y ∈ visits p t agenda, y.atomic.id = id ∧ y.pings ≠ []

theorem reached_first_iff {p : LinuxProber K} {here : Atomic K × Visit K}
    {rest : List (Atomic K × Visit K)} (hd : p.passDeadline = some d)
    (htimed : ∀ v ∈ rest, v.2.Timed timeout)
    (hnormal : here.1.mode = .normal) (hiface : here.1.iface ≠ none)
    (hread : ReadBefore p here.1.id t) (hfresh : here.1.id ∉ rest.map (·.1.id)) :
    Reached p t (here :: rest) here.1.id ↔ here.2.reading < d - t := by
  set x : Visited K := ⟨p, here.1, here.2, t⟩ with hx
  have hpings : x.pings ≠ [] ↔ here.2.reading < d - t := by
    rw [Visited.pings_ne_nil_iff hnormal (hread.windowed hiface here.2)]
    simp [hx, LinuxProber.budgetExhausted, hd, Visited.look, Visit.look, lt_sub_iff_add_lt']
  rw [← hpings]
  constructor
  · rintro ⟨y, hy, hid, hne⟩
    rcases List.mem_cons.mp hy with rfl | hy
    · exact hne
    · split at hy
      · cases hy
      · exact absurd (List.mem_map.mpr ⟨_, (mem_visits htimed hy).1, hid⟩) hfresh
  · exact fun hne => ⟨x, List.mem_cons_self, rfl, hne⟩

omit [IsStrictOrderedRing K] in
theorem reached_behind_iff {p : LinuxProber K} {v : Atomic K × Visit K}
    {rest : List (Atomic K × Visit K)} {id : String} (hne : v.1.id ≠ id) :
    let x : Visited K := ⟨p, v.1, v.2, t⟩
    Reached p t (v :: rest) id ↔
      (∃ o, x.observe.2 = .ok o) ∧ Reached x.observe.1 x.stop rest id := by
  intro x
  constructor
  · rintro ⟨y, hy, hid, hpings⟩
    rcases List.mem_cons.mp hy with rfl | hy
    · exact absurd hid hne
    · split at hy
      · cases hy
      · exact ⟨⟨_, ‹_›⟩, y, hy, hid, hpings⟩
  · rintro ⟨⟨o, ho⟩, y, hy, hid, hpings⟩
    refine ⟨y, ?_, hid, hpings⟩
    rw [visits_of_ok ho]
    exact List.mem_cons_of_mem _ hy

/-- A connection is pinged just where there is room for it after those ahead. -/
theorem reached_iff {p : LinuxProber K} {ahead rest : List (Atomic K × Visit K)}
    {here : Atomic K × Visit K} (hd : p.passDeadline = some d)
    (htimed : ∀ v ∈ ahead ++ here :: rest, v.2.Timed timeout)
    (hnormal : ∀ v ∈ ahead ++ [here], v.1.mode = .normal ∧ v.1.iface ≠ none)
    (hread : ∀ v ∈ ahead ++ [here], ReadBefore p v.1.id t)
    (hn : ((ahead ++ here :: rest).map (·.1.id)).Nodup) :
    Reached p t (ahead ++ here :: rest) here.1.id ↔
      Room (d - t) here.1.id (ahead ++ here :: rest) := by
  induction ahead generalizing p t with
  | nil =>
    simp only [List.nil_append, List.mem_singleton, forall_eq] at *
    rw [Room, if_pos rfl]
    exact reached_first_iff hd (List.forall_mem_cons.mp htimed).2 hnormal.1 hnormal.2 hread
      (List.nodup_cons.mp hn).1
  | cons v ahead ih =>
    rw [List.cons_append] at htimed hnormal hread hn ⊢
    obtain ⟨hv, htimed⟩ := List.forall_mem_cons.mp htimed
    obtain ⟨⟨hmode, hiface⟩, hnormal⟩ := List.forall_mem_cons.mp hnormal
    obtain ⟨hvread, hread⟩ := List.forall_mem_cons.mp hread
    obtain ⟨hfresh, hn⟩ := List.nodup_cons.mp hn
    have hne (w) (hw : w ∈ ahead ++ [here]) : v.1.id ≠ w.1.id := fun h =>
      hfresh (List.mem_map.mpr ⟨w, mem_append_cons_of_concat hw, h.symm⟩)
    set x : Visited K := ⟨p, v.1, v.2, t⟩
    have hw : x.prober.Windowed x.atomic x.look := hvread.windowed hiface v.2
    have hdeadline : x.prober.passDeadline = some d := hd
    have hstop : t ≤ x.stop := x.start_le_stop hv
    have hstill (w) (hw : w ∈ ahead ++ [here]) : ReadBefore x.observe.1 w.1.id x.stop :=
      ((hread w hw).mono hstop).observe fun h => absurd h (hne w hw)
    have hrest : Reached x.observe.1 x.stop (ahead ++ here :: rest) here.1.id ↔
        Room (d - x.stop) here.1.id (ahead ++ here :: rest) :=
      ih ((observe_fixes ..).1.trans hd) htimed hnormal hstill hn
    have hseconds (h : x.pings = x.visit.tried) : d - x.stop = d - t - v.2.seconds := by
      rw [Visited.stop, h, Visit.seconds]
      ring
    have hbehind : Reached p t (v :: (ahead ++ here :: rest)) here.1.id ↔
        (∃ o, x.observe.2 = .ok o) ∧ Reached x.observe.1 x.stop (ahead ++ here :: rest) here.1.id :=
      reached_behind_iff (hne here (by simp))
    rw [Room, if_neg (hne here (by simp)), hbehind, hrest]
    constructor
    · rintro ⟨hok, hroom⟩
      have hintime := pos_of_room htimed hroom
      obtain ⟨hbudget, htried⟩ :=
        Visited.pings_eq_tried hv hmode hw hdeadline (.inl (by linarith))
      refine ⟨(Visited.observe_ok_iff hmode hw hbudget htried).mp hok, ?_⟩
      rw [← hseconds htried]
      exact hroom
    · rintro ⟨hreadable, hroom⟩
      have hintime := pos_of_room htimed hroom
      obtain ⟨hbudget, htried⟩ := Visited.pings_eq_tried hv hmode hw hdeadline
        (.inr (show t + v.2.seconds < d by linarith))
      refine ⟨(Visited.observe_ok_iff hmode hw hbudget htried).mpr hreadable, ?_⟩
      rwa [hseconds htried]

structure SameSweep (agenda again : List (Atomic K × Visit K)) : Prop where
  same : again.map (·.1.id) = agenda.map (·.1.id)
  nodup : (agenda.map (·.1.id)).Nodup
  iface : ∀ v ∈ agenda, v.1.iface ≠ none
  normal : ∀ v ∈ again, v.1.mode = .normal ∧ v.1.iface ≠ none

/-- What one pass skips the next one pings, just where the connections ahead of
it leave it time there. -/
theorem skipped_pinged_next_iff {p : LinuxProber K} {timeout : K}
    {agenda again : List (Atomic K × Visit K)} (hsame : SameSweep agenda again)
    (hfirst : ∀ v ∈ agenda, v.2.Timed timeout) (hsecond : ∀ v ∈ again, v.2.Timed timeout)
    (hlater : ∀ x ∈ pass p now agenda, x.stop < later) :
    (∀ x ∈ pass p now agenda, x.Skipped → ∃ y ∈ pass (afterPass p now agenda) later again,
        y.atomic.id = x.atomic.id ∧ y.pings ≠ []) ↔
      ∀ x ∈ pass p now agenda, x.Skipped → Room p.activeProbeBudgetS x.atomic.id again := by
  refine forall₂_congr fun x hx => imp_congr_right fun _ => ?_
  have hstart : ∀ y ∈ pass p now agenda, y.start < later := fun y hy =>
    (y.start_le_stop (hfirst _ (mem_visits hfirst hy).1)).trans_lt (hlater y hy)
  obtain ⟨ahead, rest, rfl, hread⟩ := read_of_mem_visits hsame.iface hstart hx
  have hids := hsame.same
  rw [List.map_append, List.map_cons] at hids
  obtain ⟨ahead', tail, rfl, hahead, htail⟩ := List.map_eq_append_iff.mp hids
  obtain ⟨here, rest', rfl, hhere, -⟩ := List.map_eq_cons_iff.mp htail
  have hread (w) (hw : w ∈ ahead' ++ [here]) : ReadBefore
      ((afterPass p now (ahead ++ (x.atomic, x.visit) :: rest)).beginPass later) w.1.id later := by
    have hids : (ahead' ++ [here]).map (·.1.id) =
        (ahead ++ [(x.atomic, x.visit)]).map (·.1.id) := by
      simp [hahead, hhere]
    obtain ⟨v, hv, hid⟩ := List.mem_map.mp (hids ▸ List.mem_map.mpr ⟨w, hw, rfl⟩)
    rw [← hid]
    exact hread v hv
  have hreached := reached_iff rfl hsecond
    (fun w hw => hsame.normal w (mem_append_cons_of_concat hw)) hread (hsame.same ▸ hsame.nodup)
  rw [hhere, add_sub_cancel_left, afterPass, budget_afterVisits] at hreached
  exact hreached

end

-- ---------------------------------------------------------------------------
-- Two cables
-- ---------------------------------------------------------------------------

def cable (id : String) : Atomic ℚ where
  id := id
  kind := .usbEthernet
  label := id
  mode := .normal
  health := .good
  role := .wan
  capacity := .unmeasured
  quality := .unmeasured
  cost := .zero
  ifname := some id
  present := true
  firstSeen := some 0
  lastSeen := some 0
  everConnected := true
  attributes := []

/-- Counters that stand still, and pings that take a time and print nothing. -/
def silentPings (seconds : ℚ) : Visit ℚ := ⟨0, 0, 0, 0, 0, fun _ => ⟨seconds, none⟩, 0⟩

def cables (seconds : ℚ) : List (Atomic ℚ × Visit ℚ) :=
  [(cable "eth1", silentPings seconds), (cable "eth2", silentPings seconds)]

def cabledProber : LinuxProber ℚ := afterPass (.init 2) 0 (cables 3)

def cabledPass : List (Visited ℚ) := pass cabledProber 10 (cables 3)

theorem timed_cables (h : 0 ≤ seconds ∧ seconds ≤ 4) : ∀ v ∈ cables seconds, v.2.Timed 4 := by
  simp only [cables, List.forall_mem_cons, List.not_mem_nil, IsEmpty.forall_iff, implies_true,
    and_true]
  exact ⟨⟨le_rfl, le_rfl, fun _ => h.1, fun _ => h.2⟩, ⟨le_rfl, le_rfl, fun _ => h.1, fun _ => h.2⟩⟩

theorem sameSweep_cables (s t : ℚ) : SameSweep (cables s) (cables t) where
  same := rfl
  nodup := show ["eth1", "eth2"].Nodup by decide
  iface := by simp [cables, cable, Atomic.iface]
  normal := by simp [cables, cable, Atomic.iface]

theorem skipped_second_cable : ∃ x ∈ cabledPass, x.Skipped ∧ x.atomic.id = "eth2" := by
  refine ⟨cabledPass.get ⟨1, by decide +kernel⟩, List.get_mem _ _, ⟨?_, ?_, ?_⟩, ?_⟩
  · decide +kernel
  · exact LinuxProber.isSome_observePassively.mp (by decide +kernel)
  · decide +kernel
  · decide +kernel

theorem skipped_cable_skipped_again : SameSweep (cables 3) (cables 3) ∧
    (∀ v ∈ cables 3, v.2.Timed 4) ∧ (∀ x ∈ cabledPass, x.stop < 20) ∧
      ¬∀ x ∈ cabledPass, x.Skipped →
        ∃ y ∈ pass (afterPass cabledProber 10 (cables 3)) 20 (cables 3),
          y.atomic.id = x.atomic.id ∧ y.pings ≠ [] := by
  refine ⟨sameSweep_cables 3 3, timed_cables (by norm_num), by decide +kernel, fun h => ?_⟩
  obtain ⟨x, hx, hskipped, hid⟩ := skipped_second_cable
  obtain ⟨y, hy, hyid, hpings⟩ := h x hx hskipped
  have hnone : ∀ y ∈ pass (afterPass cabledProber 10 (cables 3)) 20 (cables 3),
      y.atomic.id = "eth2" → y.pings = [] := by decide +kernel
  exact hpings (hnone y hy (hyid.trans hid))

theorem quicker_pings_reach_second_cable :
    ∃ y ∈ pass (afterPass cabledProber 10 (cables 3)) 20 (cables (1 / 2)),
      y.atomic.id = "eth2" ∧ y.pings ≠ [] := by
  obtain ⟨x, hx, hskipped, hid⟩ := skipped_second_cable
  rw [← hid]
  refine (skipped_pinged_next_iff (sameSweep_cables 3 (1 / 2)) (timed_cables (by norm_num))
    (timed_cables (by norm_num)) (by decide +kernel)).mpr (fun x hx _ => ?_) x hx hskipped
  have hids : ∀ x ∈ cabledPass, x.atomic.id = "eth1" ∨ x.atomic.id = "eth2" := by decide +kernel
  have hreadable : (silentPings (1 / 2)).Readable := fun u _ text h => nomatch h
  rcases hids x hx with h | h
  · rw [h, cables, Room, if_pos (by decide)]
    decide +kernel
  · rw [h, cables, Room, if_neg (by decide), Room, if_pos (by decide)]
    exact ⟨hreadable, by decide +kernel⟩

theorem cabled_pings_within_budget :
    ((cabledPass.flatMap Visited.spans).map (·.seconds)).sum ≤ max 0 ((2 : ℚ) + 4) :=
  (pings_within_budget 10 (timed_cables (by norm_num))).2.1

end Wifucked
