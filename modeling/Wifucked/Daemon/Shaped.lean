import Wifucked.Daemon.Passes
import Wifucked.Enforce.Fixpoint

/-!
# Shapers that let something through

A shaper is set to slightly less than what was measured, one way and the
other. A window in which nothing went one way teaches a rate of nothing.
-/

namespace Wifucked

variable {K : Type}

theorem scaled_pos {rate : Int} : 0 < (rate * 95).tdiv 100 ↔ 2 ≤ rate := by
  have hsign : Int.sign 100 = 1 := rfl
  rw [Int.tdiv_eq_ediv, hsign]
  split <;> omega

section

variable [Field K] [LinearOrder K] [FloorRing K] [HalfPow K]

def foldWeight (capacity : Capacity K) (now : K) : K :=
  if 0.5 < decayConfidence capacity now then 0.4 else 0.7

/-- What was known and the rates of a saturated window come to two bit/s at
least, both ways. -/
def TeachesBothWays (capacity : Capacity K) (downBps upBps : Int) (now : K) : Prop :=
  let weight := foldWeight capacity now
  (2 : ℤ) ≤ capacity.downBps * (1 - weight) + downBps * weight ∧
    (2 : ℤ) ≤ capacity.upBps * (1 - weight) + upBps * weight

/-- Whatever is known of a capacity leaves something to shape it to. -/
def Shapeable (capacity : Capacity K) : Prop :=
  capacity.known = true → 2 ≤ capacity.downBps ∧ 2 ≤ capacity.upBps

theorem shapeable_idle {c : Capacity K} {o : Observation K} (hc : Shapeable c)
    (h : o.saturated = false) (now : K) : Shapeable (fold c o now) := by
  simp only [fold, h, Bool.false_eq_true, if_false]
  intro hknown
  refine hc ?_
  simp only [Capacity.known, decayConfidence, decide_eq_true_eq] at hknown ⊢
  split at hknown
  · exact absurd hknown (lt_irrefl 0)
  · split at hknown
    · assumption
    · exact absurd hknown (lt_irrefl 0)

variable [IsStrictOrderedRing K]

omit [HalfPow K] in
theorem two_le_trunc {x : K} : 2 ≤ trunc x ↔ (2 : ℤ) ≤ x := by
  unfold trunc
  split
  · exact Int.le_floor
  · rename_i h
    have hneg : x < 0 := not_le.mp h
    have hceil : ⌈x⌉ ≤ 0 := Int.ceil_le.mpr (by simpa using hneg.le)
    have htwo : (0 : K) < (2 : ℤ) := Int.cast_pos.mpr two_pos
    exact iff_of_false (by omega) fun h2 => absurd (htwo.trans_le h2) hneg.not_gt

theorem fold_rates {c : Capacity K} {o : Observation K} {now : K} (h : o.saturated = true) :
    2 ≤ (fold c o now).downBps ∧ 2 ≤ (fold c o now).upBps ↔
      TeachesBothWays c o.downBps o.upBps now := by
  simp only [fold, h, if_true, ewma, two_le_trunc]
  rfl

theorem known_fold (hpow : ∀ x : K, 0 ≤ halfPow x) {c : Capacity K} {o : Observation K} {now : K}
    (h : o.saturated = true) : (fold c o now).known = true := by
  have hdecayed : 0 ≤ decayConfidence c now := by
    unfold decayConfidence
    split
    · exact le_rfl
    · split
      · rename_i hknown
        exact mul_nonneg (le_of_lt (by simpa [Capacity.known] using hknown)) (hpow _)
      · exact le_rfl
  simp only [fold, h, if_true, Capacity.known, decide_eq_true_eq]
  exact lt_min one_pos (add_pos_of_nonneg_of_pos hdecayed (by norm_num))

def ShapeableStored (e : StoredAtomic K) : Prop :=
  0 < e.capacity.confidence → 2 ≤ e.capacity.downBps ∧ 2 ≤ e.capacity.upBps

omit [FloorRing K] [HalfPow K] [IsStrictOrderedRing K] in
theorem durable_shapeable :
    Durable (fun a : Atomic K => Shapeable a.capacity) ShapeableStored where
  seen _ h _ _ _ _ _ _ _ := h
  quality _ h _ := h
  cost _ h _ := h
  stored _ h _ hknown := h (decide_eq_true hknown)
  restored _ h _ _ _ hknown := h (of_decide_eq_true hknown)

end

-- ---------------------------------------------------------------------------
-- What is rendered
-- ---------------------------------------------------------------------------

section

variable [Field K] [LinearOrder K] {byId : Registry K} {id : String}

theorem shapingForAtomic_pos (h : byId.All fun a => Shapeable a.capacity)
    (hs : shapingForAtomic byId id = some s) : 0 < s.downBps ∧ 0 < s.upBps := by
  unfold shapingForAtomic at hs
  split at hs
  · cases hs
  · rename_i a ha
    split at hs
    · rename_i hknown
      obtain ⟨ifname, -, rfl⟩ := Option.map_eq_some_iff.mp hs
      obtain ⟨hdown, hup⟩ := h.of_get? ha hknown
      exact ⟨scaled_pos.mpr hdown, scaled_pos.mpr hup⟩
    · cases hs

theorem shapeable_of_pos {a : Atomic K} (ha : byId.get? id = some a) (hiface : a.iface ≠ none)
    (h : ∀ s, shapingForAtomic byId id = some s → 0 < s.downBps ∧ 0 < s.upBps) :
    Shapeable a.capacity := by
  intro hknown
  obtain ⟨ifname, hiface⟩ := Option.ne_none_iff_exists'.mp hiface
  obtain ⟨hdown, hup⟩ := h _ (by simp only [shapingForAtomic, ha, hknown, hiface]; rfl)
  exact ⟨scaled_pos.mp hdown, scaled_pos.mp hup⟩

end

namespace Measuring

section

variable [Field K] [LinearOrder K]

/-- Whatever is rendered shapes to something, both ways, and each shaper that
is set is reported again, not as unlimited. -/
def Positive (s : Measuring K) : Prop :=
  ∀ allocation profiles tunnelIfname desired,
    render allocation s.daemon.registry profiles tunnelIfname = .ok desired →
      (∀ sh ∈ desired.shaping, 0 < sh.downBps ∧ 0 < sh.upBps) ∧
      ∀ (e : LinuxEnforcer) dev bps diffserv,
        Command.replaceCake dev bps diffserv ∈ e.apply desired →
          0 < bps ∧ ∀ (t : Tools) (k : Kernel), t.Faithful → ∃ rate,
            t.cakeReport (k.exec (.replaceCake dev bps diffserv)) dev = some (rate, diffserv) ∧
              close rate bps = true

theorem positive_of_all {s : Measuring K}
    (h : s.daemon.registry.All fun a => Shapeable a.capacity) : s.Positive := by
  intro allocation profiles tunnelIfname desired hrender
  have hpos : ∀ sh ∈ desired.shaping, 0 < sh.downBps ∧ 0 < sh.upBps := by
    intro sh hsh
    obtain ⟨-, -, -, hshaping⟩ := render_eq_ok hrender
    obtain ⟨share, -, hs⟩ := (hshaping sh).mp hsh
    exact shapingForAtomic_pos h hs
  refine ⟨hpos, fun e dev bps diffserv hmem => ?_⟩
  obtain ⟨hdev, hbps⟩ : dev ≠ "" ∧ 0 < bps := by
    obtain ⟨sh, hsh, ⟨rfl, rfl, -⟩ | ⟨rfl, rfl, -⟩⟩ := replaceCake_mem_apply.mp hmem
    · exact ⟨ifname_ne_empty_of_render hrender hsh, (hpos sh hsh).2⟩
    · exact ⟨ifbForIfname_ne_empty _, (hpos sh hsh).1⟩
  refine ⟨hbps, fun t k ht => cakeReport_of_cakesOn ht hdev hbps ?_⟩
  exact Kernel.cakesOn_run k (List.mem_singleton_self _) (by simp)

theorem Positive.of_shaping {s : Measuring K} {id : String} (h : s.Positive)
    (hs : shapingForAtomic s.daemon.registry id = some sh) : 0 < sh.downBps ∧ 0 < sh.upBps := by
  let allocation : Allocation := ⟨none, false, [⟨id, "best-effort", 0⟩], []⟩
  obtain ⟨desired, hrender⟩ :
      ∃ desired, render allocation s.daemon.registry [] "wg0" = .ok desired :=
    render_ok (by simp [allocation])
  obtain ⟨-, -, -, hshaping⟩ := render_eq_ok hrender
  exact (h allocation [] "wg0" desired hrender).1 sh
    ((hshaping sh).mpr ⟨_, List.mem_singleton_self _, hs⟩)

theorem Positive.shapeable {s : Measuring K} {id : String} (h : s.Positive)
    (ha : s.daemon.registry.get? id = some a) (hiface : a.iface ≠ none) : Shapeable a.capacity :=
  shapeable_of_pos ha hiface fun _ => h.of_shaping

end

variable [Field K] [LinearOrder K] [FloorRing K] [HalfPow K]

/-- Each saturated window of a run teaches a rate both ways. -/
def BothWays (s : Measuring K) : Doing K → Prop
  | .turn look => ∀ atomic, s.rest.head? = some atomic → ∀ previous,
      s.prober.Saturated atomic look previous →
        let elapsed := look.passive.now - previous.now
        TeachesBothWays atomic.capacity (throughput elapsed previous.rxBytes look.passive.rxBytes)
          (throughput elapsed previous.txBytes look.passive.txBytes) s.reading.now
  | _ => True

/-- All that is known can be shaped, the state file included. -/
structure ShapesAll (s : Measuring K) : Prop where
  pass : s.InPass
  keeps : s.daemon.Keeps (fun a => Shapeable a.capacity) ShapeableStored

omit [HalfPow K] in
theorem saturated_of_looked {s : Measuring K} {look : Look K}
    (h : s.looked look = some (atomic, o)) (hsat : o.saturated = true) :
    ∃ previous, s.prober.Saturated atomic look previous ∧
      let elapsed := look.passive.now - previous.now
      throughput elapsed previous.rxBytes look.passive.rxBytes = o.downBps ∧
        throughput elapsed previous.txBytes look.passive.txBytes = o.upBps := by
  refine LinuxProber.window_saturated_iff.mp ?_
  rw [(looked_eq_some.mp h).2, ← hsat]
  rfl

variable [IsStrictOrderedRing K]

theorem bothWays_turn {s : Measuring K} {look : Look K} : s.BothWays (.turn look) ↔
    ∀ atomic o, s.looked look = some (atomic, o) → o.saturated = true →
      2 ≤ (fold atomic.capacity o s.reading.now).downBps ∧
        2 ≤ (fold atomic.capacity o s.reading.now).upBps := by
  constructor
  · intro h atomic o hlooked hsat
    obtain ⟨previous, hprevious, hdown, hup⟩ := saturated_of_looked hlooked hsat
    rw [fold_rates hsat, ← hdown, ← hup]
    exact h atomic (looked_eq_some.mp hlooked).1 previous hprevious
  · intro h atomic hatomic previous hprevious
    obtain ⟨o, ho, hwindow⟩ := Option.map_eq_some_iff.mp
      (LinuxProber.window_saturated_iff.mpr ⟨previous, hprevious, rfl, rfl⟩)
    obtain ⟨hsat, hrates⟩ := Prod.mk.inj hwindow
    obtain ⟨hdown, hup⟩ := Prod.mk.inj hrates
    have hteaches := (fold_rates hsat).mp (h atomic o (looked_eq_some.mpr ⟨hatomic, ho⟩) hsat)
    rwa [hdown, hup] at hteaches

theorem respects_shapeable {s : Measuring K} (h : s.ShapesAll) {e : Doing K} (he : s.BothWays e)
    {a : Event K} (ha : s.event e = some a) :
    s.daemon.Respects (fun b => Shapeable b.capacity) a := by
  cases e with
  | begin r => cases ha
  | turn look =>
    obtain ⟨⟨atomic, o⟩, hlooked, rfl⟩ := Option.map_eq_some_iff.mp ha
    intro b hb
    by_cases hsat : o.saturated = true
    · exact fun _ => bothWays_turn.mp he atomic o hlooked hsat
    · have hmem : atomic ∈ s.rest := List.mem_of_mem_head? (looked_eq_some.mp hlooked).1
      have hheld := h.pass.held atomic hmem
      rw [hb, Option.map_some, Option.some.injEq, Prod.mk.injEq] at hheld
      have hshapeable := h.keeps.registry.of_get? hb
      rw [hheld.1] at hshapeable
      exact shapeable_idle hshapeable (Bool.eq_false_iff.mpr hsat) s.reading.now
  | sweep r seen =>
    simp only [event, Option.ite_none_right_eq_some, Option.some.injEq] at ha
    obtain ⟨-, rfl⟩ := ha
    intro b hb _ hknown
    rw [show (b.discovered r.now).capacity = .unmeasured from (seen.2 b hb).capacity] at hknown
    simp [Capacity.known, Capacity.unmeasured] at hknown
  | act e =>
    simp only [event, Option.ite_none_right_eq_some, Option.some.injEq] at ha
    obtain ⟨hplain, rfl⟩ := ha
    obtain ⟨r, action⟩ := e
    cases action with
    | discover seen => cases hplain
    | measure atomic o => cases hplain
    | applyOutcome => exact fun o _ b hb => (h.keeps.registry.of_get? hb : Shapeable b.capacity)
    | setMode id mode => exact fun b hb => (h.keeps.registry.of_get? hb : Shapeable b.capacity)
    | _ => trivial
  | restart r =>
    obtain rfl := Option.some.inj ha
    trivial

theorem shapesAll_step {s : Measuring K} (h : s.ShapesAll) {e : Doing K} (he : s.BothWays e) :
    (s.step e).ShapesAll := by
  refine ⟨inPass_step h.pass e, ?_⟩
  rw [daemon_step]
  cases ha : s.event e with
  | none => exact h.keeps
  | some a => exact Daemon.keeps_step durable_shapeable h.keeps (respects_shapeable h he ha)

theorem bothWays_of_positive (hpow : ∀ x : K, 0 ≤ halfPow x) {s : Measuring K} (h : s.InPass)
    {e : Doing K} (hp : (s.step e).Positive) : s.BothWays e := by
  cases e with
  | turn look =>
    refine bothWays_turn.mpr fun atomic o hlooked hsat => ?_
    have hmem : atomic ∈ s.rest := List.mem_of_mem_head? (looked_eq_some.mp hlooked).1
    obtain ⟨a, ha, hpair⟩ := Option.map_eq_some_iff.mp (h.held atomic hmem)
    have hifname : a.ifname = atomic.ifname := (Prod.mk.inj hpair).2
    have hget := Daemon.get?_measureOne s.daemon s.reading atomic o atomic.id
    rw [if_pos rfl, ha, Option.map_some, ← daemon_turn hlooked] at hget
    obtain ⟨previous, hprevious, -⟩ := saturated_of_looked hlooked hsat
    have hiface : a.iface ≠ none := by
      rw [Atomic.iface, hifname]
      exact hprevious.iface
    exact hp.shapeable hget hiface (known_fold hpow hsat)
  | _ => trivial

/-- In a run of passes every rate that is rendered is positive, whatever is
decided, exactly where each saturated window teaches a rate both ways. -/
theorem positive_iff (hpow : ∀ x : K, 0 ≤ halfPow x) (config : Config K) (activeProbeBudgetS : K)
    (r : Reading K) (es : List (Doing K)) :
    (∀ pre, pre <+: es → (Runs.exec step (init config activeProbeBudgetS r) pre).Positive) ↔
      Runs.Along step BothWays (init config activeProbeBudgetS r) es := by
  have hinit : (init config activeProbeBudgetS r).ShapesAll :=
    ⟨inPass_init config activeProbeBudgetS r,
      Daemon.keeps_init durable_shapeable config (by simp) r⟩
  exact Runs.holds_iff_along (fun _ _ h he => shapesAll_step h he)
    (fun _ h => positive_of_all h.keeps.registry)
    (fun _ _ h hp => bothWays_of_positive hpow h.pass hp) hinit

-- ---------------------------------------------------------------------------
-- Two windows with a queue
-- ---------------------------------------------------------------------------

theorem halfPow_rat_nonneg (x : ℚ) : 0 ≤ halfPow x := by
  have hhalf : (0 : ℚ) ≤ 1 / 2 := by norm_num
  exact zpow_nonneg hhalf ⌊x⌋

def counters (now : ℚ) (rxBytes txBytes backlogBytes : Int) : Look ℚ where
  passive := ⟨⟨now, rxBytes, txBytes, 0⟩, backlogBytes⟩
  now := now
  ping := fun _ => ⟨now, none⟩

def transfer (txBytes : Int) : List (Doing ℚ) :=
  [.sweep ⟨0, 0⟩ dockSwept, .begin ⟨30, 30⟩, .turn (counters 30 0 0 0), .begin ⟨60, 60⟩,
    .turn (counters 60 37500000 txBytes 1500)]

theorem bothWays_of_looked {s : Measuring ℚ} {look : Look ℚ}
    (h : (s.looked look).all (fun (atomic, o) => !o.saturated ||
      (2 ≤ (fold atomic.capacity o s.reading.now).downBps &&
        2 ≤ (fold atomic.capacity o s.reading.now).upBps)) = true) : s.BothWays (.turn look) := by
  refine bothWays_turn.mpr fun atomic o hlooked hsat => ?_
  rw [hlooked] at h
  simpa [hsat] using h

theorem positive_transfer :
    (Runs.exec step (init hotspot 2 ⟨0, 0⟩) (transfer 7500000)).Positive :=
  (positive_iff halfPow_rat_nonneg hotspot 2 ⟨0, 0⟩ (transfer 7500000)).mpr
    ⟨trivial, trivial, bothWays_of_looked (by decide +kernel), trivial,
      bothWays_of_looked (by decide +kernel), trivial⟩ _ List.prefix_rfl

/-- Where nothing went up, the shaper for what goes up is set to nothing, and
is reported as unlimited. -/
theorem not_positive_transfer :
    let s := Runs.exec step (init hotspot 2 ⟨0, 0⟩) (transfer 0)
    shapingForAtomic s.daemon.registry "usb:dock" = some ⟨"eth1", 6650000, 0, "diffserv4"⟩ ∧
      ¬s.Positive ∧
      let k := (leftover []).exec (.replaceCake "eth1" 0 "diffserv4")
      iproute2.cakeReport k "eth1" = none := by
  intro s
  have hshaping : shapingForAtomic s.daemon.registry "usb:dock" =
      some ⟨"eth1", 6650000, 0, "diffserv4"⟩ := by decide +kernel
  refine ⟨hshaping, fun h => ?_, by decide +kernel⟩
  exact lt_irrefl (0 : ℤ) (h.of_shaping hshaping).2

end Measuring

end Wifucked
