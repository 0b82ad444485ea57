import Wifucked.Daemon.Down
import Wifucked.Daemon.Passes

/-!
# Health without news

A look that comes to a throughput and to no round trip or loss says nothing of
the thresholds, and is taken for one within them.
-/

namespace Wifucked

variable {K : Type}

def Improves (before after : Health) : Prop :=
  after = .good ∧ before ≠ .good ∨ after = .degraded ∧ (before = .down ∨ before = .absent)

def Observation.Tells (o : Observation K) : Prop := o.rttMs ≠ none ∨ o.lossPct ≠ none

namespace Daemon

def healthOn (d : Daemon K) (id : String) : Option Health := (d.registry.get? id).map (·.health)

section

variable [LinearOrder K]

def Within (t : Thresholds K) (o : Observation K) : Prop :=
  (∀ rttMs, o.rttMs = some rttMs → rttMs ≤ t.degradedRttMs) ∧
    ∀ lossPct, o.lossPct = some lossPct → lossPct ≤ t.degradedLossPct

theorem healthOf_eq_good {t : Thresholds K} {o : Observation K} :
    healthOf t o = .good ↔ Within t o := by
  unfold healthOf Within
  cases o.rttMs <;> cases o.lossPct <;> simp [ite_eq_iff, and_comm]

end

variable [Field K] [LinearOrder K] [FloorRing K] [HalfPow K]

theorem healthOn_measureOne (d : Daemon K) (r : Reading K) (atomic : Atomic K)
    (o : Observation K) (id : String) : (d.measureOne r atomic o).healthOn id =
      if id = atomic.id then (d.healthOn id).map fun _ => healthOf d.config.thresholds o
      else d.healthOn id := by
  simp only [healthOn, get?_measureOne]
  split
  · rw [Option.map_map, Option.map_map]
    rfl
  · rfl

end Daemon

-- ---------------------------------------------------------------------------
-- A look of a pass
-- ---------------------------------------------------------------------------

def PingResult.Beyond [LinearOrder K] (t : Thresholds K) (result : PingResult K) : Prop :=
  (∃ rttMs, result.rttMs = some rttMs ∧ t.degradedRttMs < rttMs) ∨
    t.degradedLossPct < result.lossPct

theorem within_iff_not_beyond [LinearOrder K] {t : Thresholds K} {o : Observation K}
    {result : PingResult K} (hrtt : o.rttMs = result.rttMs)
    (hloss : o.lossPct = some result.lossPct) : Daemon.Within t o ↔ ¬result.Beyond t := by
  simp [Daemon.Within, PingResult.Beyond, hrtt, hloss]

namespace Measuring

open Daemon (Within healthOf)

variable [Field K] [LinearOrder K] [FloorRing K] [HalfPow K]

/-- A look betters the health of a connection only where it tells something of
it, and that is within the thresholds. -/
def NoNews (s : Measuring K) : Doing K → Prop
  | .turn look => ∀ id before after, s.daemon.healthOn id = some before →
      (s.step (.turn look)).daemon.healthOn id = some after → Improves before after →
      ∃ atomic o, s.looked look = some (atomic, o) ∧ atomic.id = id ∧ o.Tells ∧
        Within s.daemon.config.thresholds o
  | _ => True

/-- A look that brings no news is at a connection that is well already, and one
over the thresholds is at none that is down or away. -/
def Earned (s : Measuring K) : Doing K → Prop
  | .turn look => ∀ atomic, s.rest.head? = some atomic → s.prober.Windowed atomic look →
      ∀ health, s.daemon.healthOn atomic.id = some health →
        (s.prober.Silent atomic look → health = .good) ∧
        ∀ result, s.prober.probe atomic look = .ok (some result) →
          result.Beyond s.daemon.config.thresholds → health ≠ .down ∧ health ≠ .absent
  | _ => True

variable {s : Measuring K} {look : Look K}

theorem not_improves_self (health : Health) : ¬Improves health health := by
  rintro (⟨h, hne⟩ | ⟨h, hd | ha⟩)
  · exact hne h
  · rw [h] at hd; cases hd
  · rw [h] at ha; cases ha

theorem noNews_of_none (h : s.looked look = none) : s.NoNews (.turn look) := by
  intro id before after hbefore hafter himproves
  rw [daemon_turn_none h, hbefore] at hafter
  obtain rfl := Option.some.inj hafter
  exact absurd himproves (not_improves_self _)

theorem noNews_of_some (h : s.looked look = some (atomic, o)) : s.NoNews (.turn look) ↔
    ∀ health, s.daemon.healthOn atomic.id = some health →
      Improves health (healthOf s.daemon.config.thresholds o) →
        o.Tells ∧ Within s.daemon.config.thresholds o := by
  constructor
  · intro hnews health hhealth himproves
    obtain ⟨atomic', o', hlooked, -, htells⟩ := hnews atomic.id health _ hhealth
      (by rw [daemon_turn h, Daemon.healthOn_measureOne, if_pos rfl, hhealth, Option.map_some])
      himproves
    obtain ⟨-, rfl⟩ : atomic = atomic' ∧ o = o' := by simpa [h] using hlooked
    exact htells
  · intro hnews id before after hbefore hafter himproves
    rw [daemon_turn h, Daemon.healthOn_measureOne, hbefore] at hafter
    split at hafter
    · rename_i hid
      obtain rfl := Option.some.inj hafter
      exact ⟨atomic, o, h, hid.symm, hnews before (hid ▸ hbefore) himproves⟩
    · obtain rfl := Option.some.inj hafter
      exact absurd himproves (not_improves_self _)

theorem noNews_silent (h : s.looked look = some (atomic, o)) (hrtt : o.rttMs = none)
    (hloss : o.lossPct = none) : s.NoNews (.turn look) ↔
      ∀ health, s.daemon.healthOn atomic.id = some health → health = .good := by
  have hwithin : Within s.daemon.config.thresholds o := by simp [Within, hrtt, hloss]
  have htells : ¬o.Tells := by simp [Observation.Tells, hrtt, hloss]
  rw [noNews_of_some h, Daemon.healthOf_eq_good.mpr hwithin]
  refine forall₂_congr fun health _ => ?_
  constructor
  · intro hnews
    by_contra hne
    exact htells (hnews (.inl ⟨rfl, hne⟩)).1
  · rintro rfl himproves
    exact absurd himproves (not_improves_self _)

theorem noNews_heard (h : s.looked look = some (atomic, o)) {result : PingResult K}
    (hrtt : o.rttMs = result.rttMs) (hloss : o.lossPct = some result.lossPct) :
    s.NoNews (.turn look) ↔ ∀ health, s.daemon.healthOn atomic.id = some health →
      result.Beyond s.daemon.config.thresholds → health ≠ .down ∧ health ≠ .absent := by
  have htells : o.Tells := .inr (by simp [hloss])
  have hbeyond := within_iff_not_beyond (t := s.daemon.config.thresholds) hrtt hloss
  rw [noNews_of_some h]
  refine forall₂_congr fun health _ => ?_
  by_cases hwithin : Within s.daemon.config.thresholds o
  · exact iff_of_true (fun _ => ⟨htells, hwithin⟩) fun hb => absurd hb (hbeyond.mp hwithin)
  · have hdegraded : healthOf s.daemon.config.thresholds o = .degraded :=
      (Daemon.healthOf_cases _ o).resolve_left (mt Daemon.healthOf_eq_good.mp hwithin)
    have hb : result.Beyond s.daemon.config.thresholds := not_not.mp (mt hbeyond.mpr hwithin)
    rw [hdegraded]
    simp [Improves, hwithin, hb]

theorem noNews_turn_iff (s : Measuring K) (look : Look K) :
    s.NoNews (.turn look) ↔ s.Earned (.turn look) := by
  cases hs : s.rest with
  | nil => exact iff_of_true (noNews_of_none (by simp [looked, hs])) (by simp [Earned, hs])
  | cons atomic rest =>
    have hlooked : s.looked look =
        (s.prober.observe atomic look).2.toOption.join.map fun o => (atomic, o) := by
      simp only [looked, hs, List.head?_cons, Option.bind_some]
    have hobserved := s.prober.observed_observe atomic look
    simp only [Earned, hs, List.head?_cons, Option.some.injEq, forall_eq']
    generalize (s.prober.observe atomic look).2 = out at hlooked hobserved
    cases hobserved with
    | unseen hn => exact iff_of_true (noNews_of_none hlooked) fun hw => absurd hw hn
    | raised hw hprobe =>
      refine iff_of_true (noNews_of_none hlooked) fun _ health _ => ⟨fun hsilent => ?_, ?_⟩
      · rw [LinuxProber.probe_eq_none.mpr hsilent] at hprobe
        cases hprobe
      · simp [hprobe]
    | silent hw hsilent hrtt hloss =>
      rw [noNews_silent hlooked hrtt hloss, imp_iff_right hw]
      refine forall₂_congr fun health _ => ?_
      simp [hsilent, LinuxProber.probe_eq_none.mpr hsilent]
    | heard hw hprobe hrtt hloss =>
      rw [noNews_heard hlooked hrtt hloss, imp_iff_right hw]
      refine forall₂_congr fun health _ => ?_
      have hsilent : ¬s.prober.Silent atomic look := fun h => by
        rw [LinuxProber.probe_eq_none.mpr h] at hprobe
        cases hprobe
      simp [hsilent, hprobe]

/-- In a run of passes no health is bettered without news exactly where looks
without news are at connections that are well. -/
theorem noNews_iff (config : Config K) (activeProbeBudgetS : K) (r : Reading K)
    (es : List (Doing K)) :
    Runs.Along step NoNews (init config activeProbeBudgetS r) es ↔
      Runs.Along step Earned (init config activeProbeBudgetS r) es := by
  refine Runs.along_congr fun s e => ?_
  cases e with
  | turn look => exact noNews_turn_iff s look
  | _ => exact Iff.rfl

-- ---------------------------------------------------------------------------
-- A slow link that cannot be pinged
-- ---------------------------------------------------------------------------

def glance (now : ℚ) (out : Option String) : Look ℚ where
  passive := ⟨⟨now, 0, 0, 0⟩, 0⟩
  now := now
  ping := fun _ => ⟨now, out.map String.toList⟩

def slowOnce : List (Doing ℚ) :=
  [.sweep ⟨0, 0⟩ dockSwept, .begin ⟨30, 30⟩, .turn (glance 30 none), .begin ⟨60, 60⟩,
    .turn (glance 60 "0% packet loss, rtt min/avg/max/mdev = 500/600/700/20 ms"),
    .begin ⟨90, 90⟩]

/-- When ping does not run any more, the slow link is good. -/
theorem not_noNews_slowOnce :
    let s := Runs.exec step (init hotspot 2 ⟨0, 0⟩) slowOnce
    s.daemon.healthOn "usb:dock" = some .degraded ∧
      (s.step (.turn (glance 90 none))).daemon.healthOn "usb:dock" = some .good ∧
      ¬Runs.Along step NoNews (init hotspot 2 ⟨0, 0⟩)
        (slowOnce ++ [.turn (glance 90 none)]) := by
  intro s
  have hbefore : s.daemon.healthOn "usb:dock" = some .degraded := by decide +kernel
  have hafter : (s.step (.turn (glance 90 none))).daemon.healthOn "usb:dock" = some .good := by
    decide +kernel
  have hsaid : (s.looked (glance 90 none)).map (fun x => (x.2.rttMs, x.2.lossPct)) =
      some (none, none) := by decide +kernel
  refine ⟨hbefore, hafter, fun h => ?_⟩
  obtain ⟨hnews, -⟩ := (Runs.along_append.mp h).2
  obtain ⟨atomic, o, hlooked, -, htells, -⟩ :=
    hnews "usb:dock" .degraded .good hbefore hafter (.inl ⟨rfl, by decide⟩)
  have hlooked : s.looked (glance 90 none) = some (atomic, o) := hlooked
  rw [hlooked] at hsaid
  simp only [Option.map_some, Option.some.injEq, Prod.mk.injEq] at hsaid
  rcases htells with hrtt | hloss
  · exact hrtt hsaid.1
  · exact hloss hsaid.2

end Measuring

end Wifucked
