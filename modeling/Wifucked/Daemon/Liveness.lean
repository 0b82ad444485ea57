import Mathlib.Order.Monotone.Defs
import Wifucked.Atomics.Merging
import Wifucked.Daemon.Egress
import Wifucked.Daemon.Measured

/-!
# The liveness budget

Passes of the scheduler with each reading of the clock that the budget goes by,
and the user's calls in between. A charge is booked with the reading that found
it due and the later one that is kept of it.
-/

namespace Wifucked

variable {K : Type}

-- ---------------------------------------------------------------------------
-- What is on the books of a registry
-- ---------------------------------------------------------------------------

namespace Registry

def livenessOf (reg : Registry K) (id : String) : Int :=
  ((reg.get? id).map (·.cost.livenessBytes)).getD 0

theorem livenessOf_modify (reg : Registry K) (j id : String) {f : Atomic K → Atomic K}
    (hid : ∀ a, (f a).id = a.id) (hf : ∀ a, (f a).cost = a.cost) :
    livenessOf (Keyed.modify reg j f) id = reg.livenessOf id := by
  have hg : ∀ a, (f a).cost.livenessBytes = a.cost.livenessBytes := fun a => by rw [hf a]
  exact congrArg (Option.getD · 0) (Keyed.map_get?_modify reg j id hid hg)

theorem livenessOf_merge (reg : Registry K) (now : K) {fresh : Atomic K}
    (hf : fresh.cost.livenessBytes = 0) (id : String) :
    (merge now reg fresh).livenessOf id = reg.livenessOf id := by
  by_cases hid : fresh.id = id
  · subst hid
    cases hk : reg.get? fresh.id with
    | none => simp [livenessOf, merge, hk, hf]
    | some known => simp [livenessOf, merge, hk, Keyed.key_of_get? hk]
  · rw [livenessOf, get?_merge reg now fresh hid, livenessOf]

theorem livenessOf_observe (reg : Registry K) (now : K) {seen : List (Atomic K)}
    (hf : ∀ a ∈ seen, a.cost.livenessBytes = 0) (id : String) :
    (reg.observe now seen).livenessOf id = reg.livenessOf id := by
  have hmerged : livenessOf (seen.foldl (merge now) reg) id = reg.livenessOf id := by
    induction seen generalizing reg with
    | nil => rfl
    | cons fresh seen ih =>
      obtain ⟨hfresh, hf⟩ := List.forall_mem_cons.mp hf
      exact (ih _ hf).trans (livenessOf_merge reg now hfresh id)
  have hcost : ∀ a : Atomic K,
      (disappear (seen.map (·.id)) a).cost.livenessBytes = a.cost.livenessBytes := by
    intro a
    rw [(carried_disappear _ a).cost]
  rw [← hmerged, livenessOf, observe, Keyed.get?_map, Option.map_map, livenessOf]
  simp only [Function.comp_def, hcost]

theorem get?_addCost_of_ne (reg : Registry K) {j id : String} (h : id ≠ j)
    (consumed liveness : Int) : (reg.addCost j consumed liveness).get? id = reg.get? id := by
  rw [addCost, Keyed.get?_modify, if_neg h]
  exact fun _ => rfl

theorem livenessOf_addCost {reg : Registry K} {id : String} (h : reg.get? id = some a)
    (bytes : Int) : (reg.addCost id 0 bytes).livenessOf id = reg.livenessOf id + bytes := by
  rw [livenessOf, addCost, Keyed.get?_modify, if_pos rfl, h, livenessOf, h]
  · rfl
  · exact fun _ => rfl

end Registry

-- ---------------------------------------------------------------------------
-- The allocator's books
-- ---------------------------------------------------------------------------

namespace Allocator

variable [Field K] [LinearOrder K]

theorem due_iff {a : Allocator K} {now : K} {atomic : Atomic K} :
    a.dueForLiveness now atomic = true ↔
      atomic.mode = .backup ∧ atomic.present = true ∧ a.h.state ≠ .active ∧
        ∃ last, a.h.lastLiveness.get? atomic.id = some (atomic.id, last) ∧
          a.t.livenessIntervalS ≤ now - last := by
  unfold dueForLiveness
  cases hl : a.h.lastLiveness.get? atomic.id with
  | none => simp
  | some p =>
    obtain ⟨j, last⟩ := p
    obtain rfl : j = atomic.id := Keyed.key_of_get? hl
    simp [and_assoc]

omit [Field K] [LinearOrder K] in
theorem get?_startLiveness (now : K) (l : Keyed (String × K) Prod.fst) (b : Atomic K)
    (id : String) : (startLiveness now l b).get? id =
      (l.get? id).or (if b.id = id then some (id, now) else none) := by
  unfold startLiveness
  cases hl : l.get? b.id with
  | none =>
    by_cases hid : b.id = id
    · subst hid
      simp [hl]
    · simp [Keyed.get?_put, hid]
  | some p =>
    by_cases hid : b.id = id
    · subst hid
      simp [hl]
    · simp [hid]

omit [Field K] [LinearOrder K] in
theorem get?_baseline (now : K) (l : Keyed (String × K) Prod.fst) (bs : List (Atomic K))
    (id : String) : Keyed.get? (bs.foldl (startLiveness now) l) id =
      (l.get? id).or (if id ∈ bs.map (·.id) then some (id, now) else none) := by
  induction bs generalizing l with
  | nil => simp
  | cons b bs ih =>
    rw [List.foldl_cons, ih, get?_startLiveness]
    by_cases hid : b.id = id
    · cases l.get? id <;> simp [hid]
    · simp [hid, Ne.symm hid]

theorem stepHysteresis_lastLiveness (t : Thresholds K) (h : Hysteresis K) (now : K)
    (deficit normalCapacity criticalDemand : Int) (backups : List (Atomic K)) :
    (stepHysteresis t h now deficit normalCapacity criticalDemand backups).lastLiveness =
      h.lastLiveness := by
  have henter : ∀ (h : Hysteresis K) state, (enter h state now).lastLiveness = h.lastLiveness := by
    intro h state
    unfold enter
    split <;> rfl
  unfold stepHysteresis
  cases h.state with
  | idle =>
    simp only
    split
    · exact henter h _
    · rfl
  | arming =>
    simp only
    split
    · exact henter h _
    · split
      · exact henter h _
      · rfl
  | active =>
    simp only
    split
    · exact henter h _
    · split
      · exact henter h _
      · rfl
  | releasing =>
    simp only
    split
    · exact henter h _
    · split
      · exact henter h _
      · rfl

variable [HalfPow K]

theorem get?_decide (a : Allocator K) (i : DecideInput K) (id : String) :
    (a.decide i).h.lastLiveness.get? id = (a.h.lastLiveness.get? id).or
      (if id ∈ (backupsOf i.atomics).map (·.id) then some (id, i.now) else none) := by
  have hkept : (a.decide i).h.lastLiveness = (a.baseline i).lastLiveness :=
    stepHysteresis_lastLiveness ..
  rw [hkept]
  exact get?_baseline i.now _ _ id

end Allocator

-- ---------------------------------------------------------------------------
-- The scheduler, reading by reading
-- ---------------------------------------------------------------------------

structure Charge (K : Type) where
  id : String
  due : K
  marked : K
  state : BackupState
  atomic : Option (Atomic K)

/-- The backup was present and at rest. -/
def Charge.Permitted (c : Charge K) : Prop :=
  c.state ≠ .active ∧ ∃ a, c.atomic = some a ∧ a.mode = .backup ∧ a.present = true

structure Metered (K : Type) where
  daemon : Daemon K
  next : Daemon.Next K
  /-- How often the clock was read. -/
  reads : ℕ
  /-- The last one first. -/
  charges : List (Charge K)
  /-- The first decision that saw the connection as a present backup. -/
  since : String → Option K

inductive Beat (K : Type) where
  | tick (w : World K)
  | setMode (id : String) (mode : Mode)

namespace Metered

def chargesOf (s : Metered K) (id : String) : List (Charge K) := s.charges.filter (·.id = id)

variable [Field K] [LinearOrder K]

def start (config : Config K) (file : Option (StateFile K)) (clock : ℕ → Reading K) :
    Metered K where
  daemon := .init config file (clock 0)
  next := ⟨0, 0, 0⟩
  reads := 1
  charges := []
  since := fun _ => none

def spendOn (clock : ℕ → Reading K) (s : Metered K) (atomic : Atomic K) : Metered K :=
  let due := (clock s.reads).now
  let marked := (clock (s.reads + 1)).now
  if s.daemon.allocator.dueForLiveness due atomic then
    { s with
      daemon :=
        { s.daemon with
          allocator := s.daemon.allocator.markLivenessProbed marked atomic
          registry :=
            s.daemon.registry.addCost atomic.id 0 s.daemon.config.thresholds.livenessBytes }
      reads := s.reads + 2
      charges := ⟨atomic.id, due, marked, s.daemon.allocator.h.state,
        s.daemon.registry.get? atomic.id⟩ :: s.charges }
  else { s with reads := s.reads + 1 }

def spendLivenessBudget (clock : ℕ → Reading K) (s : Metered K) : Metered K :=
  s.daemon.registry.backups.foldl (spendOn clock) s

variable [FloorRing K] [HalfPow K]

def decide (clock : ℕ → Reading K) (s : Metered K) (demand : Demand) : Metered K :=
  { s with
    daemon := s.daemon.decide (clock s.reads) demand
    reads := s.reads + 1
    since := fun id => (s.since id).or
      (if id ∈ (Allocator.backupsOf s.daemon.registry.all).map (·.id) then
        some (clock s.reads).now else none) }

/-- What comes before the decision goes by readings of its own. -/
def survey (clock : ℕ → Reading K) (s : Metered K) (w : World K) : Metered K :=
  { s with
    daemon := ((s.daemon.discoverOnce (clock s.reads) w.discovered).classifyLanOutPorts
      (clock (s.reads + 1)) w.pipelines).measure (clock (s.reads + 2)) w.prober
    reads := s.reads + 3 }

def mediumLoop (clock : ℕ → Reading K) (s : Metered K) (w : World K) : Metered K :=
  ((s.survey clock w).decide clock w.demand).spendLivenessBudget clock

def tick (clock : ℕ → Reading K) (loops : Daemon.Loops K) (s : Metered K) (w : World K) :
    Metered K :=
  let now := (clock s.reads).now
  let next := s.next
  let s := { s with
    reads := s.reads + 1
    next :=
      { medium := if next.medium ≤ now then now + loops.mediumS else next.medium
        fast := if next.fast ≤ now then now + loops.fastS else next.fast
        slow := if next.slow ≤ now then now + loops.slowS else next.slow } }
  let s := if next.medium ≤ now then s.mediumLoop clock w else s
  let s := if next.fast ≤ now then { s with daemon := s.daemon.fastLoop w.tunnel } else s
  if next.slow ≤ now then
    { s with daemon := s.daemon.persist (clock s.reads), reads := s.reads + 1 }
  else s

def step (clock : ℕ → Reading K) (loops : Daemon.Loops K) (s : Metered K) : Beat K → Metered K
  | .tick w => s.tick clock loops w
  | .setMode id mode =>
    { s with daemon := s.daemon.setMode (clock s.reads) id mode, reads := s.reads + 1 }

end Metered

-- ---------------------------------------------------------------------------
-- What leaves the books alone
-- ---------------------------------------------------------------------------

def World.Unspent (w : World K) : Prop := ∀ a ∈ w.discovered, a.cost.livenessBytes = 0

/-- The same configuration, the same decisions and the same bytes spent. -/
structure Undisturbed (d d' : Daemon K) : Prop where
  config : d'.config = d.config
  allocator : d'.allocator = d.allocator
  liveness : ∀ id, d'.registry.livenessOf id = d.registry.livenessOf id

theorem Undisturbed.refl (d : Daemon K) : Undisturbed d d := ⟨rfl, rfl, fun _ => rfl⟩

theorem Undisturbed.trans {a b c : Daemon K} (h : Undisturbed a b) (h' : Undisturbed b c) :
    Undisturbed a c where
  config := h'.config.trans h.config
  allocator := h'.allocator.trans h.allocator
  liveness id := (h'.liveness id).trans (h.liveness id)

namespace Daemon

variable [Field K] [LinearOrder K]

theorem undisturbed_persist (d : Daemon K) (r : Reading K) : Undisturbed d (d.persist r) := by
  unfold persist
  split <;> exact ⟨rfl, rfl, fun _ => rfl⟩

theorem undisturbed_setMode (d : Daemon K) (r : Reading K) (id : String) (mode : Mode) :
    Undisturbed d (d.setMode r id mode) := by
  unfold setMode
  split
  · exact .refl d
  · refine .trans ?_ (undisturbed_persist _ r)
    exact ⟨rfl, rfl, fun j => Registry.livenessOf_modify _ id j (fun _ => rfl) (fun _ => rfl)⟩

theorem undisturbed_applyOutcome (d : Daemon K) (r : Reading K) :
    Undisturbed d (d.applyOutcome r) := by
  unfold applyOutcome
  split
  · exact .refl d
  · unfold setRoleAndMode
    split
    · exact ⟨rfl, rfl, fun _ => rfl⟩
    · refine .trans ?_ (undisturbed_persist _ r)
      exact ⟨rfl, rfl, fun j => Registry.livenessOf_modify _ _ j (fun _ => rfl) (fun _ => rfl)⟩

theorem undisturbed_classifyLanOutPorts (d : Daemon K) (r : Reading K)
    (pipelines : String → Option PipelineEnd) :
    Undisturbed d (d.classifyLanOutPorts r pipelines) := by
  have happly : ∀ n, ∀ d : Daemon K, Undisturbed d (d.applyOutcomes r n) := by
    intro n
    induction n with
    | zero => exact .refl
    | succ n ih => exact fun d => (undisturbed_applyOutcome d r).trans (ih _)
  obtain ⟨hregistry, -, hconfig, -, hallocator⟩ := considerPorts_frame d pipelines
  have hconsider : Undisturbed d (d.considerPorts pipelines) :=
    ⟨hconfig, hallocator, fun id => by rw [hregistry]⟩
  exact hconsider.trans (happly _ _)

theorem undisturbed_fastLoop (d : Daemon K) (env : TunnelEnv) : Undisturbed d (d.fastLoop env) := by
  obtain ⟨hregistry, -, hconfig, -, hallocator⟩ := fastLoop_frame d env
  exact ⟨hconfig, hallocator, fun id => by rw [hregistry]⟩

variable [FloorRing K] [HalfPow K]

theorem undisturbed_measureOne (d : Daemon K) (r : Reading K) (atomic : Atomic K)
    (observation : Observation K) : Undisturbed d (d.measureOne r atomic observation) := by
  have hcost : ∀ f, Rewrites ⟨r, .measure atomic observation⟩ f →
      ∀ a : Atomic K, (f a).cost.livenessBytes = a.cost.livenessBytes := by
    rintro f (⟨capacity, rfl⟩ | ⟨quality, rfl⟩ | ⟨health, rfl⟩) a
    · rfl
    · rfl
    · dsimp only
      split <;> rfl
  have hkept : ∀ id,
      ((d.step ⟨r, .measure atomic observation⟩).registry.get? id).map (·.cost.livenessBytes) =
        (d.registry.get? id).map (·.cost.livenessBytes) :=
    map_get?_step (fun _ => nofun) nofun hcost
  exact ⟨rfl, rfl, fun id => congrArg (Option.getD · 0) (hkept id)⟩

theorem undisturbed_measure (d : Daemon K) (r : Reading K)
    (prober : Atomic K → Option (Observation K)) : Undisturbed d (d.measure r prober) := by
  unfold measure
  generalize d.registry.present = atomics
  induction atomics generalizing d with
  | nil => exact .refl d
  | cons a atomics ih =>
    rw [List.foldl_cons]
    cases prober a with
    | none => exact ih d
    | some o => exact (undisturbed_measureOne d r a o).trans (ih _)

end Daemon

namespace Metered

variable [Field K] [LinearOrder K] [FloorRing K] [HalfPow K]

theorem undisturbed_survey (clock : ℕ → Reading K) (s : Metered K) {w : World K}
    (hw : w.Unspent) : Undisturbed s.daemon (s.survey clock w).daemon := by
  have hdiscover : Undisturbed s.daemon (s.daemon.discoverOnce (clock s.reads) w.discovered) :=
    ⟨rfl, rfl, fun id => Registry.livenessOf_observe _ _ hw id⟩
  exact (hdiscover.trans (Daemon.undisturbed_classifyLanOutPorts ..)).trans
    (Daemon.undisturbed_measure ..)

-- ---------------------------------------------------------------------------
-- The books of one connection
-- ---------------------------------------------------------------------------

/-- What the books of one connection say, from `spent` bytes at the start of the
process on: the charges so far fit between the first decision that saw it as a
present backup and the reading that is kept of the last one. -/
structure Booked (clock : ℕ → Reading K) (config : Config K) (id : String) (spent : Int)
    (s : Metered K) : Prop where
  same : s.daemon.config = config
  thresholds : s.daemon.allocator.t = config.thresholds
  unseen : s.since id = none →
    s.daemon.allocator.h.lastLiveness.get? id = none ∧ s.chargesOf id = []
  seen : ∀ t, s.since id = some t → ∃ i < s.reads,
    s.daemon.allocator.h.lastLiveness.get? id = some (id, (clock i).now) ∧
      t + (s.chargesOf id).length * config.thresholds.livenessIntervalS ≤ (clock i).now ∧
      ∀ c ∈ s.chargesOf id, c.marked ≤ (clock i).now
  spaced : (s.chargesOf id).Pairwise fun later earlier =>
    earlier.marked + config.thresholds.livenessIntervalS ≤ later.due
  permitted : ∀ c ∈ s.chargesOf id, c.Permitted
  bytes : s.daemon.registry.livenessOf id =
    spent + (s.chargesOf id).length * config.thresholds.livenessBytes

variable {clock : ℕ → Reading K} {config : Config K} {id : String} {spent : Int} {s t : Metered K}

omit [FloorRing K] [HalfPow K] in
theorem Booked.of_undisturbed (h : Booked clock config id spent s)
    (hd : Undisturbed s.daemon t.daemon) (hreads : s.reads ≤ t.reads)
    (hcharges : t.charges = s.charges) (hsince : t.since = s.since) :
    Booked clock config id spent t := by
  have hof : t.chargesOf id = s.chargesOf id := by rw [chargesOf, hcharges, chargesOf]
  refine ⟨hd.config.trans h.same, hd.allocator ▸ h.thresholds, ?_, ?_, hof ▸ h.spaced,
    hof ▸ h.permitted, ?_⟩
  · rw [hsince, hd.allocator, hof]
    exact h.unseen
  · intro u hu
    rw [hsince] at hu
    obtain ⟨i, hi, hlast⟩ := h.seen u hu
    rw [hd.allocator, hof]
    exact ⟨i, hi.trans_le hreads, hlast⟩
  · rw [hd.liveness, hof]
    exact h.bytes

theorem booked_decide (h : Booked clock config id spent s) (demand : Demand) :
    Booked clock config id spent (s.decide clock demand) := by
  have hget := s.daemon.allocator.get?_decide
    ⟨(clock s.reads).now, s.daemon.registry.all, demand⟩ id
  have hof : (s.decide clock demand).chargesOf id = s.chargesOf id := rfl
  refine ⟨h.same, h.thresholds, ?_, ?_, h.spaced, h.permitted, h.bytes⟩
  · intro hnone
    obtain ⟨hbefore, hif⟩ := Option.or_eq_none_iff.mp hnone
    obtain ⟨hlast, hcharges⟩ := h.unseen hbefore
    refine ⟨hget.trans ?_, hcharges⟩
    rw [hlast, Option.none_or]
    split at hif
    · cases hif
    · rename_i hmem
      exact if_neg hmem
  · intro u hu
    cases hs : s.since id with
    | some v =>
      obtain rfl : v = u := by simpa [decide, hs] using hu
      obtain ⟨i, hi, hlast, hrest⟩ := h.seen v hs
      refine ⟨i, hi.trans (Nat.lt_succ_self _), hget.trans ?_, hrest⟩
      rw [hlast, Option.some_or]
    | none =>
      obtain ⟨hlast, hcharges⟩ := h.unseen hs
      simp only [decide, hs, Option.none_or] at hu
      split at hu
      · rename_i hmem
        obtain rfl := Option.some.inj hu
        refine ⟨s.reads, Nat.lt_succ_self _, hget.trans ?_, ?_⟩
        · rw [hlast, Option.none_or]
          exact if_pos hmem
        · rw [hof, hcharges]
          simp
      · cases hu

section

omit [FloorRing K] [HalfPow K]

theorem spendOn_due {a : Atomic K}
    (hdue : s.daemon.allocator.dueForLiveness (clock s.reads).now a = true) :
    s.spendOn clock a =
      { s with
        daemon :=
          { s.daemon with
            allocator := s.daemon.allocator.markLivenessProbed (clock (s.reads + 1)).now a
            registry := s.daemon.registry.addCost a.id 0 s.daemon.config.thresholds.livenessBytes }
        reads := s.reads + 2
        charges := ⟨a.id, (clock s.reads).now, (clock (s.reads + 1)).now,
          s.daemon.allocator.h.state, s.daemon.registry.get? a.id⟩ :: s.charges } :=
  if_pos hdue

theorem spendOn_idle {a : Atomic K}
    (hdue : s.daemon.allocator.dueForLiveness (clock s.reads).now a = false) :
    s.spendOn clock a = { s with reads := s.reads + 1 } :=
  if_neg (by simp [hdue])

theorem get?_spendOn (clock : ℕ → Reading K) (s : Metered K) {a : Atomic K} {j : String}
    (h : j ≠ a.id) : (s.spendOn clock a).daemon.registry.get? j = s.daemon.registry.get? j := by
  cases hdue : s.daemon.allocator.dueForLiveness (clock s.reads).now a with
  | false => rw [spendOn_idle hdue]
  | true =>
    rw [spendOn_due hdue]
    exact Registry.get?_addCost_of_ne _ h _ _

theorem booked_other (h : Booked clock config id spent s) {a : Atomic K} (ha : a.id ≠ id)
    (hdue : s.daemon.allocator.dueForLiveness (clock s.reads).now a = true) :
    Booked clock config id spent (s.spendOn clock a) := by
  have hof : (s.spendOn clock a).chargesOf id = s.chargesOf id := by
    rw [spendOn_due hdue]
    simp [chargesOf, ha]
  have hlast : (s.spendOn clock a).daemon.allocator.h.lastLiveness.get? id =
      s.daemon.allocator.h.lastLiveness.get? id := by
    rw [spendOn_due hdue]
    exact (Keyed.get?_put ..).trans (if_neg ha)
  have hbytes : (s.spendOn clock a).daemon.registry.livenessOf id =
      s.daemon.registry.livenessOf id := by
    rw [Registry.livenessOf, get?_spendOn clock s (Ne.symm ha), Registry.livenessOf]
  have hsince : (s.spendOn clock a).since = s.since := by rw [spendOn_due hdue]
  have hreads : s.reads ≤ (s.spendOn clock a).reads := by
    rw [spendOn_due hdue]
    exact Nat.le_add_right ..
  refine ⟨?_, ?_, ?_, ?_, hof ▸ h.spaced, hof ▸ h.permitted, ?_⟩
  · rw [spendOn_due hdue]
    exact h.same
  · rw [spendOn_due hdue]
    exact h.thresholds
  · rw [hsince, hlast, hof]
    exact h.unseen
  · intro u hu
    rw [hsince] at hu
    obtain ⟨i, hi, hrest⟩ := h.seen u hu
    rw [hlast, hof]
    exact ⟨i, hi.trans_le hreads, hrest⟩
  · rw [hbytes, hof]
    exact h.bytes

variable [IsStrictOrderedRing K]

theorem booked_charge (hclock : Monotone fun i => (clock i).now)
    (h : Booked clock config a.id spent s) (ha : s.daemon.registry.get? a.id = some a)
    (hdue : s.daemon.allocator.dueForLiveness (clock s.reads).now a = true) :
    Booked clock config a.id spent (s.spendOn clock a) := by
  obtain ⟨hmode, hpresent, hstate, last, hlast, hinterval⟩ := Allocator.due_iff.mp hdue
  rw [h.thresholds] at hinterval
  have hof : (s.spendOn clock a).chargesOf a.id =
      ⟨a.id, (clock s.reads).now, (clock (s.reads + 1)).now, s.daemon.allocator.h.state,
        s.daemon.registry.get? a.id⟩ :: s.chargesOf a.id := by
    rw [spendOn_due hdue]
    simp [chargesOf]
  have hmarked : (clock s.reads).now ≤ (clock (s.reads + 1)).now := hclock (Nat.le_succ _)
  -- The clock of the connection was started, and its last reading is what the charge waited for.
  obtain ⟨u, hu⟩ : ∃ u, s.since a.id = some u := by
    cases hs : s.since a.id with
    | some u => exact ⟨u, rfl⟩
    | none =>
      rw [(h.unseen hs).1] at hlast
      cases hlast
  obtain ⟨i, hlt, hi, hbudget, hmarks⟩ := h.seen u hu
  obtain rfl : (clock i).now = last := by
    rw [hi] at hlast
    exact congrArg Prod.snd (Option.some.inj hlast)
  refine ⟨?_, ?_, ?_, ?_, ?_, ?_, ?_⟩
  · rw [spendOn_due hdue]
    exact h.same
  · rw [spendOn_due hdue]
    exact h.thresholds
  · intro hnone
    rw [spendOn_due hdue] at hnone
    exact absurd (hu.symm.trans hnone) (by simp)
  · intro v hv
    rw [spendOn_due hdue] at hv
    obtain rfl : u = v := Option.some.inj (hu.symm.trans hv)
    rw [hof]
    refine ⟨s.reads + 1, ?_, ?_, ?_, ?_⟩
    · rw [spendOn_due hdue]
      exact Nat.lt_succ_self _
    · rw [spendOn_due hdue]
      exact (Keyed.get?_put ..).trans (if_pos rfl)
    · rw [List.length_cons, Nat.cast_succ]
      linarith
    · intro c hc
      rcases List.mem_cons.mp hc with rfl | hc
      · exact le_refl _
      · exact (hmarks c hc).trans (hclock (hlt.le.trans (Nat.le_succ _)))
  · rw [hof, List.pairwise_cons]
    refine ⟨?_, h.spaced⟩
    intro c hc
    have hc := hmarks c hc
    simp only
    linarith
  · rw [hof]
    intro c hc
    rcases List.mem_cons.mp hc with rfl | hc
    · exact ⟨hstate, a, ha, hmode, hpresent⟩
    · exact h.permitted c hc
  · rw [hof, List.length_cons, spendOn_due hdue]
    simp only
    rw [Registry.livenessOf_addCost ha, h.bytes, h.same]
    push_cast
    ring

theorem booked_spendOn (hclock : Monotone fun i => (clock i).now)
    (h : Booked clock config id spent s) {a : Atomic K}
    (ha : s.daemon.registry.get? a.id = some a) :
    Booked clock config id spent (s.spendOn clock a) := by
  cases hdue : s.daemon.allocator.dueForLiveness (clock s.reads).now a with
  | false =>
    rw [spendOn_idle hdue]
    exact h.of_undisturbed (.refl _) (Nat.le_succ _) rfl rfl
  | true =>
    by_cases hid : a.id = id
    · subst hid
      exact booked_charge hclock h ha hdue
    · exact booked_other h hid hdue

theorem booked_spendLivenessBudget (hclock : Monotone fun i => (clock i).now)
    (h : Booked clock config id spent s) :
    Booked clock config id spent (s.spendLivenessBudget clock) := by
  have hheld : ∀ a ∈ s.daemon.registry.backups, s.daemon.registry.get? a.id = some a :=
    fun a ha => Registry.mem_all.mp (List.mem_of_mem_filter ha)
  have hids : (s.daemon.registry.backups.map (·.id)).Nodup :=
    s.daemon.registry.nodup_all.sublist (List.filter_sublist.map _)
  unfold spendLivenessBudget
  generalize s.daemon.registry.backups = backups at hheld hids
  induction backups generalizing s with
  | nil => exact h
  | cons a backups ih =>
    obtain ⟨ha, hheld⟩ := List.forall_mem_cons.mp hheld
    obtain ⟨hnot, hids⟩ := List.nodup_cons.mp hids
    refine ih (booked_spendOn hclock h ha) ?_ hids
    intro b hb
    have hne : b.id ≠ a.id := fun h => hnot (List.mem_map.mpr ⟨b, hb, h⟩)
    exact (get?_spendOn clock s hne).trans (hheld b hb)

end

variable [IsStrictOrderedRing K]

-- ---------------------------------------------------------------------------
-- Runs
-- ---------------------------------------------------------------------------

theorem booked_mediumLoop (hclock : Monotone fun i => (clock i).now)
    (h : Booked clock config id spent s) {w : World K} (hw : w.Unspent) :
    Booked clock config id spent (s.mediumLoop clock w) := by
  have hsurvey : Booked clock config id spent (s.survey clock w) :=
    h.of_undisturbed (undisturbed_survey clock s hw) (Nat.le_add_right _ 3) rfl rfl
  exact booked_spendLivenessBudget hclock (booked_decide hsurvey w.demand)

theorem booked_tick (hclock : Monotone fun i => (clock i).now) (loops : Daemon.Loops K)
    (h : Booked clock config id spent s) {w : World K} (hw : w.Unspent) :
    Booked clock config id spent (s.tick clock loops w) := by
  unfold tick
  extract_lets now next s₁ s₂ s₃
  have h₁ : Booked clock config id spent s₁ :=
    h.of_undisturbed (.refl _) (Nat.le_succ _) rfl rfl
  have h₂ : Booked clock config id spent s₂ := by
    simp only [s₂]
    split
    · exact booked_mediumLoop hclock h₁ hw
    · exact h₁
  have h₃ : Booked clock config id spent s₃ := by
    simp only [s₃]
    split
    · exact h₂.of_undisturbed (Daemon.undisturbed_fastLoop ..) (le_refl _) rfl rfl
    · exact h₂
  split
  · exact h₃.of_undisturbed (Daemon.undisturbed_persist ..) (Nat.le_succ _) rfl rfl
  · exact h₃

-- ---------------------------------------------------------------------------
-- A clock that stands still
-- ---------------------------------------------------------------------------

section

omit [IsStrictOrderedRing K]

variable {r : Reading K}

omit [FloorRing K] [HalfPow K] in
theorem daemon_spendLivenessBudget (hclock : ∀ i, clock i = r) (s : Metered K) :
    (s.spendLivenessBudget clock).daemon = s.daemon.spendLivenessBudget r := by
  have hone : ∀ (s : Metered K) a, (s.spendOn clock a).daemon = Daemon.spendOn r s.daemon a := by
    intro s a
    simp only [spendOn, Daemon.spendOn, hclock]
    split <;> rfl
  unfold spendLivenessBudget Daemon.spendLivenessBudget
  generalize s.daemon.registry.backups = backups
  induction backups generalizing s with
  | nil => rfl
  | cons a backups ih => rw [List.foldl_cons, List.foldl_cons, ih, hone]

/-- Where the clock stands still for a pass, the pass is that of the daemon. -/
theorem daemon_tick (hclock : ∀ i, clock i = r) (loops : Daemon.Loops K) (s : Metered K)
    (w : World K) :
    (s.tick clock loops w).daemon = (Daemon.tick loops s.next s.daemon r w).2 := by
  have hmedium : ∀ s : Metered K, (s.mediumLoop clock w).daemon = s.daemon.mediumLoop r w := by
    intro s
    rw [mediumLoop, daemon_spendLivenessBudget hclock]
    simp only [decide, survey, hclock, Daemon.mediumLoop]
  simp only [tick, Daemon.tick, hclock]
  split <;> split <;> split <;> simp [hmedium]

end

end Metered

def Beat.Unspent : Beat K → Prop
  | .tick w => w.Unspent
  | .setMode .. => True

namespace Metered

variable [Field K] [LinearOrder K] [FloorRing K] [HalfPow K] [IsStrictOrderedRing K]
variable {clock : ℕ → Reading K} {config : Config K} {id : String} {spent : Int} {s : Metered K}

theorem booked_step (hclock : Monotone fun i => (clock i).now) (loops : Daemon.Loops K)
    (h : Booked clock config id spent s) {b : Beat K} (hb : b.Unspent) :
    Booked clock config id spent (s.step clock loops b) := by
  cases b with
  | tick w => exact booked_tick hclock loops h hb
  | setMode j mode =>
    exact h.of_undisturbed (Daemon.undisturbed_setMode ..) (Nat.le_succ _) rfl rfl

omit [FloorRing K] [HalfPow K] [IsStrictOrderedRing K] in
theorem booked_start (config : Config K) (file : Option (StateFile K)) (clock : ℕ → Reading K)
    (id : String) : Booked clock config id
      ((start config file clock).daemon.registry.livenessOf id) (start config file clock) where
  same := rfl
  thresholds := rfl
  unseen _ := ⟨rfl, rfl⟩
  seen t ht := by cases ht
  spaced := .nil
  permitted c hc := by cases hc
  bytes := by simp [chargesOf, start]

/-- How many charges were made since a process started, when, and what they cost. -/
structure Budgeted (clock : ℕ → Reading K) (config : Config K) (id : String)
    (start s : Metered K) : Prop where
  bytes : s.daemon.registry.livenessOf id = start.daemon.registry.livenessOf id +
    (s.chargesOf id).length * config.thresholds.livenessBytes
  unseen : s.since id = none → s.chargesOf id = []
  count : ∀ t now, s.since id = some t → (∀ i < s.reads, (clock i).now ≤ now) →
    (s.chargesOf id).length * config.thresholds.livenessIntervalS ≤ now - t
  budget : 0 < config.thresholds.livenessIntervalS → 0 ≤ config.thresholds.livenessBytes →
    ∀ t now, s.since id = some t → (∀ i < s.reads, (clock i).now ≤ now) →
      s.daemon.registry.livenessOf id - start.daemon.registry.livenessOf id ≤
        config.thresholds.livenessBytes * ⌊(now - t) / config.thresholds.livenessIntervalS⌋
  apart : (s.chargesOf id).Pairwise fun later earlier =>
    earlier.marked + config.thresholds.livenessIntervalS ≤ later.due
  permitted : ∀ c ∈ s.chargesOf id, c.Permitted

omit [HalfPow K] in
theorem Booked.budgeted {start : Metered K}
    (h : Booked clock config id (start.daemon.registry.livenessOf id) s) :
    Budgeted clock config id start s := by
  have hcount : ∀ t now, s.since id = some t → (∀ i < s.reads, (clock i).now ≤ now) →
      (s.chargesOf id).length * config.thresholds.livenessIntervalS ≤ now - t := by
    intro t now ht hnow
    obtain ⟨i, hi, -, hfits, -⟩ := h.seen t ht
    have hlast := hnow i hi
    linarith
  refine ⟨h.bytes, fun hs => (h.unseen hs).2, hcount, ?_, h.spaced, h.permitted⟩
  intro hinterval hbytes t now ht hnow
  have hfloor : ((s.chargesOf id).length : ℤ) ≤
      ⌊(now - t) / config.thresholds.livenessIntervalS⌋ := by
    rw [Int.le_floor, le_div_iff₀ hinterval]
    exact_mod_cast hcount t now ht hnow
  rw [h.bytes, add_sub_cancel_left, mul_comm]
  exact mul_le_mul_of_nonneg_left hfloor hbytes

/-- Whatever passes and calls a process has seen, the charges keep to the budget. -/
theorem liveness_budget (config : Config K) (file : Option (StateFile K))
    (loops : Daemon.Loops K) (clock : ℕ → Reading K) (hclock : Monotone fun i => (clock i).now)
    (beats : List (Beat K)) (hbeats : ∀ b ∈ beats, b.Unspent) (id : String) :
    Budgeted clock config id (start config file clock)
      (Runs.exec (step clock loops) (start config file clock) beats) := by
  refine Booked.budgeted ?_
  refine Runs.exec_keeps (P := Booked clock config id _) ?_ (booked_start config file clock id)
  intro s b hb h
  exact booked_step hclock loops h (hbeats b hb)

-- ---------------------------------------------------------------------------
-- A phone at rest
-- ---------------------------------------------------------------------------

def quiet : World ℚ where
  discovered := [dock true, phone]
  pipelines := fun _ => none
  prober := fun _ => none
  demand := fun _ => none
  tunnel := wired

def quarterly : ℕ → Reading ℚ := fun i => ⟨900 * i, 900 * i⟩

def minutely : Daemon.Loops ℚ := ⟨60, 60, 60⟩

def resting : List (Beat ℚ) :=
  [.tick quiet, .setMode "wifi:phone" .backup, .tick quiet, .tick quiet]

theorem resting_unspent : ∀ b ∈ resting, b.Unspent := by
  have hquiet : quiet.Unspent := by
    intro a ha
    rcases List.mem_pair.mp ha with rfl | rfl <;> rfl
  intro b hb
  simp only [resting, List.mem_cons, List.not_mem_nil, or_false] at hb
  rcases hb with rfl | rfl | rfl | rfl
  · exact hquiet
  · trivial
  · exact hquiet
  · exact hquiet

theorem quarterly_monotone : Monotone fun i => (quarterly i).now := by
  intro i j h
  have hcast : (i : ℚ) ≤ j := Nat.cast_le.mpr h
  simp only [quarterly]
  linarith

def rested (config : Config ℚ) : Metered ℚ :=
  Runs.exec (step quarterly minutely) (start config none quarterly) resting

/-- Two charges, the second an interval and more after the first. -/
theorem liveness_budget_rested :
    Budgeted quarterly hotspot "wifi:phone" (start hotspot none quarterly) (rested hotspot) ∧
      (rested hotspot).since "wifi:phone" = some 10800 ∧
      (rested hotspot).daemon.registry.livenessOf "wifi:phone" = 600 :=
  ⟨liveness_budget hotspot none minutely quarterly quarterly_monotone resting resting_unspent
    "wifi:phone", by decide +kernel, by decide +kernel⟩

def eager : Config ℚ :=
  { hotspot with thresholds := { Thresholds.defaults ℚ with livenessIntervalS := -1 } }

/-- The interval is taken from the configuration as it is: a negative one bounds nothing. -/
theorem negative_interval_unbounded :
    ¬ ∀ (config : Config ℚ) (beats : List (Beat ℚ)), (∀ b ∈ beats, b.Unspent) →
      let s := Runs.exec (step quarterly minutely) (start config none quarterly) beats
      ∀ t now, s.since "wifi:phone" = some t → (∀ i < s.reads, (quarterly i).now ≤ now) →
        s.daemon.registry.livenessOf "wifi:phone" -
            (start config none quarterly).daemon.registry.livenessOf "wifi:phone" ≤
          config.thresholds.livenessBytes *
            ⌊(now - t) / config.thresholds.livenessIntervalS⌋ := by
  intro h
  have hsince : (rested eager).since "wifi:phone" = some 10800 := by decide +kernel
  have hreads : ∀ i < (rested eager).reads, (quarterly i).now ≤ 20700 := by
    have hlast : (rested eager).reads = 24 := by decide +kernel
    intro i hi
    rw [hlast] at hi
    have hmono := quarterly_monotone (Nat.le_of_lt_succ hi)
    have h23 : (quarterly 23).now = 20700 := by norm_num [quarterly]
    exact hmono.trans h23.le
  have hle := h eager resting resting_unspent 10800 20700 hsince hreads
  revert hle
  decide +kernel

end Metered

end Wifucked
