import Wifucked.Probe.Linux
import Wifucked.Daemon.Measured

/-!
# Measuring passes

A pass takes the connections that are present when it begins, and looks at one
after the other, with the time of its beginning. Whatever else the daemon does
may happen between two looks, but for a sweep: that is done by the same loop.
-/

namespace Wifucked

variable {K : Type}

/-- A sweep of discovery, which knows nothing of what is remembered. -/
abbrev Sweep (K : Type) [Zero K] := { seen : List (Atomic K) // ∀ a ∈ seen, a.Fresh }

def dockSwept : Sweep ℚ := ⟨[dock true], by simpa using (⟨rfl, rfl, rfl, rfl⟩ : (dock true).Fresh)⟩

structure Measuring (K : Type) where
  daemon : Daemon K
  prober : LinuxProber K
  /-- The clock when the pass began. -/
  reading : Reading K
  /-- What the pass has still to look at. -/
  rest : List (Atomic K)

inductive Doing (K : Type) [Zero K] where
  | begin (r : Reading K)
  | turn (look : Look K)
  | sweep (r : Reading K) (seen : Sweep K)
  | act (e : Event K)
  | restart (r : Reading K)

def Event.plain (e : Event K) : Bool :=
  match e.action with
  | .discover _ | .measure .. | .restart => false
  | _ => true

namespace Measuring

/-- What the pass has still to look at is in the registry, with the capacity
and the interface it had at the beginning. -/
structure InPass (s : Measuring K) : Prop where
  nodup : (s.rest.map (·.id)).Nodup
  held : ∀ a ∈ s.rest, (s.daemon.registry.get? a.id).map (fun b => (b.capacity, b.ifname)) =
    some (a.capacity, a.ifname)

theorem InPass.tail {s : Measuring K} {rest : List (Atomic K)} (h : s.InPass)
    (hs : s.rest = atomic :: rest) :
    (rest.map (·.id)).Nodup ∧ (∀ a ∈ rest, atomic.id ≠ a.id) ∧ ∀ a ∈ rest,
      (s.daemon.registry.get? a.id).map (fun b => (b.capacity, b.ifname)) =
        some (a.capacity, a.ifname) := by
  have hnodup := h.nodup
  rw [hs, List.map_cons, List.nodup_cons] at hnodup
  refine ⟨hnodup.2, fun a ha he => hnodup.1 (he ▸ List.mem_map_of_mem ha), fun a ha => ?_⟩
  exact h.held a (by rw [hs]; exact List.mem_cons_of_mem _ ha)

variable [Field K] [LinearOrder K]

def init (config : Config K) (activeProbeBudgetS : K) (r : Reading K) : Measuring K :=
  ⟨.init config none r, .init activeProbeBudgetS, r, []⟩

theorem inPass_init (config : Config K) (activeProbeBudgetS : K) (r : Reading K) :
    (init config activeProbeBudgetS r).InPass := ⟨.nil, by simp [init]⟩

variable [FloorRing K] [HalfPow K]

def step (s : Measuring K) : Doing K → Measuring K
  | .begin r =>
    { s with
      prober := s.prober.beginPass r.now
      reading := r
      rest := s.daemon.registry.present }
  | .turn look =>
    match s.rest with
    | [] => s
    | atomic :: rest =>
      let (prober, observed) := s.prober.observe atomic look
      match observed with
      -- What is raised leaves the loop over the connections.
      | .error _ => { s with prober, rest := [] }
      | .ok none => { s with prober, rest }
      | .ok (some observation) =>
        { s with prober, rest, daemon := s.daemon.measureOne s.reading atomic observation }
  | .sweep r seen =>
    if s.rest.isEmpty then { s with daemon := s.daemon.discoverOnce r seen.1 } else s
  | .act e => if e.plain then { s with daemon := s.daemon.step e } else s
  | .restart r =>
    ⟨s.daemon.restart r, .init s.prober.activeProbeBudgetS, r, []⟩

def looked (s : Measuring K) (look : Look K) : Option (Atomic K × Observation K) :=
  s.rest.head?.bind fun atomic =>
    (s.prober.observe atomic look).2.toOption.join.map fun observation => (atomic, observation)

omit [HalfPow K] in
theorem looked_eq_some {s : Measuring K} {look : Look K} : s.looked look = some (atomic, o) ↔
    s.rest.head? = some atomic ∧ (s.prober.observe atomic look).2.toOption.join = some o := by
  unfold looked
  constructor
  · intro h
    obtain ⟨a, ha, h⟩ := Option.bind_eq_some_iff.mp h
    obtain ⟨o', ho, hpair⟩ := Option.map_eq_some_iff.mp h
    obtain ⟨rfl, rfl⟩ := Prod.mk.inj hpair
    exact ⟨ha, ho⟩
  · rintro ⟨ha, ho⟩
    rw [ha, Option.bind_some, ho, Option.map_some]

def event (s : Measuring K) : Doing K → Option (Event K)
  | .begin _ => none
  | .turn look => (s.looked look).map fun (atomic, observation) =>
      ⟨s.reading, .measure atomic observation⟩
  | .sweep r seen => if s.rest.isEmpty then some ⟨r, .discover seen.1⟩ else none
  | .act e => if e.plain then some e else none
  | .restart r => some ⟨r, .restart⟩

/-- A step is an action of the daemon, or leaves it as it is. -/
theorem daemon_step (s : Measuring K) (e : Doing K) :
    (s.step e).daemon = (s.event e).elim s.daemon s.daemon.step := by
  cases e with
  | begin r => rfl
  | turn look =>
    simp only [step, event, looked]
    cases s.rest with
    | nil => rfl
    | cons atomic rest =>
      simp only [List.head?_cons, Option.bind_some]
      rcases s.prober.observe atomic look with ⟨prober, _ | _ | observation⟩ <;> rfl
  | sweep r seen =>
    simp only [step, event]
    split <;> rfl
  | act e =>
    simp only [step, event]
    split <;> rfl
  | restart r => rfl

theorem daemon_turn {s : Measuring K} {look : Look K} (h : s.looked look = some (atomic, o)) :
    (s.step (.turn look)).daemon = s.daemon.measureOne s.reading atomic o := by
  rw [daemon_step, event, h]
  rfl

theorem daemon_turn_none {s : Measuring K} {look : Look K} (h : s.looked look = none) :
    (s.step (.turn look)).daemon = s.daemon := by
  rw [daemon_step, event, h]
  rfl

theorem map_get?_plain {d : Daemon K} {e : Event K} (h : e.plain = true) (id : String) :
    ((d.step e).registry.get? id).map (fun b => (b.capacity, b.ifname)) =
      (d.registry.get? id).map (fun b => (b.capacity, b.ifname)) := by
  obtain ⟨r, action⟩ := e
  refine Daemon.map_get?_step ?_ ?_ (fun f hf a => ?_) id
  · rintro seen rfl
    cases h
  · rintro rfl
    cases h
  · cases action with
    | discover seen => cases h
    | measure atomic observation => cases h
    | restart => cases h
    | applyOutcome => obtain ⟨role, mode, rfl⟩ := hf; rfl
    | spend atomic => obtain ⟨cost, rfl⟩ := hf; rfl
    | setMode id mode => obtain rfl := hf; rfl
    | _ => cases hf

-- ---------------------------------------------------------------------------
-- During a pass
-- ---------------------------------------------------------------------------

theorem inPass_step {s : Measuring K} (h : s.InPass) (e : Doing K) : (s.step e).InPass := by
  cases e with
  | begin r =>
    refine ⟨s.daemon.registry.nodup_all.sublist (List.filter_sublist.map _), fun a ha => ?_⟩
    have hget : s.daemon.registry.get? a.id = some a :=
      Registry.mem_all.mp (List.mem_of_mem_filter ha)
    simp only [step, hget, Option.map_some]
  | turn look =>
    cases hs : s.rest with
    | nil =>
      have hstep : s.step (.turn look) = s := by simp only [step, hs]
      rwa [hstep]
    | cons atomic rest =>
      obtain ⟨hnodup, hne, hheld⟩ := h.tail hs
      simp only [step, hs]
      rcases s.prober.observe atomic look with ⟨prober, _ | _ | observation⟩
      · exact ⟨.nil, by simp⟩
      · exact ⟨hnodup, hheld⟩
      · refine ⟨hnodup, fun a ha => ?_⟩
        rw [Daemon.get?_measureOne, if_neg (hne a ha).symm]
        exact hheld a ha
  | sweep r seen =>
    simp only [step]
    split
    · rename_i hdone
      have hrest : s.rest = [] := List.isEmpty_iff.mp hdone
      constructor <;> simp [hrest]
    · exact h
  | act e =>
    simp only [step]
    split
    · rename_i hplain
      exact ⟨h.nodup, fun a ha => (map_get?_plain hplain a.id).trans (h.held a ha)⟩
    · exact h
  | restart r => exact ⟨.nil, by simp [step]⟩

end Measuring

end Wifucked
