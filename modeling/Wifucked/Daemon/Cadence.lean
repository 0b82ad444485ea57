import Mathlib.Algebra.Order.Field.Rat
import Mathlib.Tactic.Linarith
import Wifucked.Lib.Runs
import Wifucked.Daemon
import Wifucked.Telemetry

/-!
# When telemetry is flushed

The scheduler has an entry for telemetry, which goes by the time a pass starts
at; the flush has a gate of its own, which goes by the time it is asked at, after
the loops of the pass. A pass says what each loop takes where it is due.
-/

namespace Wifucked

variable {K J : Type} [Field K] [LinearOrder K]

structure Pass (K J : Type) where
  start : K
  medium : K
  fast : K
  slow : K
  /-- What waits in the buffer after the loops. -/
  buffer : Buffer K J
  /-- What a flush waits for the lock, and what it takes then. -/
  waiting : K
  flushing : K
  inserts : Bool
  trims : Bool

structure Cadence (K J : Type) where
  next : Daemon.Next K
  nextTelemetry : K
  telemetry : Telemetry K J
  /-- The end of the last pass. -/
  stop : K
  /-- No flush came of the last pass at which telemetry was due. -/
  refused : Bool

def Daemon.Next.advance (loops : Daemon.Loops K) (next : Daemon.Next K) (now : K) :
    Daemon.Next K where
  medium := if next.medium ≤ now then now + loops.mediumS else next.medium
  fast := if next.fast ≤ now then now + loops.fastS else next.fast
  slow := if next.slow ≤ now then now + loops.slowS else next.slow

def Daemon.Next.spent (next : Daemon.Next K) (p : Pass K J) : K :=
  (if next.medium ≤ p.start then p.medium else 0) + (if next.fast ≤ p.start then p.fast else 0) +
    if next.slow ≤ p.start then p.slow else 0

def Telemetry.due (flushIntervalS : K) (t : Telemetry K J) (now : K) : Bool :=
  flushIntervalS ≤ now - t.lastFlush

namespace Cadence

def start (retain : Retain) (conn : Option (Database K)) (now : K) : Cadence K J where
  next := ⟨0, 0, 0⟩
  nextTelemetry := 0
  telemetry := .init retain conn now
  stop := now
  refused := true

def tick (dumps : J → Option String) (loops : Daemon.Loops K) (flushIntervalS : K)
    (s : Cadence K J) (p : Pass K J) : Cadence K J :=
  let now := p.start
  let later := now + s.next.spent p
  let telemetry := { s.telemetry with buffer := p.buffer }
  let looped := { s with next := s.next.advance loops now, telemetry := telemetry, stop := later }
  if s.nextTelemetry ≤ now then
    if telemetry.due flushIntervalS later then
      { looped with
        nextTelemetry := now + flushIntervalS
        telemetry := (telemetry.flush dumps (later + p.waiting) p.inserts p.trims).1
        stop := later + p.waiting + p.flushing
        refused := false }
    else { looped with nextTelemetry := now + flushIntervalS, refused := true }
  else looped

end Cadence

theorem Daemon.next_tick [FloorRing K] [HalfPow K] (loops : Daemon.Loops K) (next : Daemon.Next K)
    (d : Daemon K) (r : Reading K) (w : World K) :
    (d.tick loops next r w).1 = next.advance loops r.now := rfl

namespace Cadence

variable {dumps : J → Option String} {loops : Daemon.Loops K} {flushIntervalS g : K}
  {s : Cadence K J} {p : Pass K J}

-- ---------------------------------------------------------------------------
-- One pass
-- ---------------------------------------------------------------------------

/-- Time passes within the loops and the flush, if at all. -/
structure Passes (p : Pass K J) : Prop where
  medium : 0 ≤ p.medium
  fast : 0 ≤ p.fast
  slow : 0 ≤ p.slow
  waiting : 0 ≤ p.waiting
  flushing : 0 ≤ p.flushing

theorem Passes.spent [IsStrictOrderedRing K] (h : Passes p) (next : Daemon.Next K) :
    0 ≤ next.spent p := by
  have hmedium : 0 ≤ if next.medium ≤ p.start then p.medium else 0 := by
    split
    · exact h.medium
    · exact le_rfl
  have hfast : 0 ≤ if next.fast ≤ p.start then p.fast else 0 := by
    split
    · exact h.fast
    · exact le_rfl
  have hslow : 0 ≤ if next.slow ≤ p.start then p.slow else 0 := by
    split
    · exact h.slow
    · exact le_rfl
  exact add_nonneg (add_nonneg hmedium hfast) hslow

/-- At the end of a pass the last flush is less than an interval, a gap between
two passes and the pass itself ago. -/
def Recent (flushIntervalS g : K) (s : Cadence K J) (p : Pass K J) : Prop :=
  s.stop - s.telemetry.lastFlush < flushIntervalS + g + (s.stop - p.start)

/-- The flush is refused at the last pass at which telemetry was due, and before
it is due again a pass starts an interval and a gap after the last flush. -/
def Overlooks (flushIntervalS g : K) (s : Cadence K J) (p : Pass K J) : Prop :=
  s.refused = true ∧ p.start < s.nextTelemetry ∧
    s.telemetry.lastFlush + flushIntervalS + g ≤ p.start

instance (flushIntervalS g : K) (s : Cadence K J) (p : Pass K J) :
    Decidable (Recent flushIntervalS g s p) :=
  inferInstanceAs (Decidable (_ < _))

instance (flushIntervalS g : K) (s : Cadence K J) (p : Pass K J) :
    Decidable (Overlooks flushIntervalS g s p) :=
  inferInstanceAs (Decidable (_ ∧ _ ∧ _))

def Settled (flushIntervalS : K) (s : Cadence K J) : Prop :=
  s.refused = false → s.nextTelemetry ≤ s.telemetry.lastFlush + flushIntervalS

theorem tick_cases (dumps : J → Option String) (loops : Daemon.Loops K) (flushIntervalS : K)
    (s : Cadence K J) (p : Pass K J) :
    let next := s.tick dumps loops flushIntervalS p
    let later := p.start + s.next.spent p
    (p.start < s.nextTelemetry ∧ next.nextTelemetry = s.nextTelemetry ∧
        next.telemetry.lastFlush = s.telemetry.lastFlush ∧ next.refused = s.refused) ∨
      (s.nextTelemetry ≤ p.start ∧ later - s.telemetry.lastFlush < flushIntervalS ∧
        next.telemetry.lastFlush = s.telemetry.lastFlush ∧ next.refused = true) ∨
      (s.nextTelemetry ≤ p.start ∧ next.nextTelemetry = p.start + flushIntervalS ∧
        next.telemetry.lastFlush = later + p.waiting ∧ next.refused = false) := by
  intro next later
  by_cases hdue : s.nextTelemetry ≤ p.start
  · refine .inr ?_
    cases hgate : ({ s.telemetry with buffer := p.buffer } : Telemetry K J).due flushIntervalS
        later with
    | false =>
      refine .inl ⟨hdue, ?_, ?_, ?_⟩
      · simpa [Telemetry.due] using hgate
      · simp [next, tick, hdue, hgate, later]
      · simp [next, tick, hdue, hgate, later]
    | true =>
      refine .inr ⟨hdue, ?_, ?_, ?_⟩
      · simp [next, tick, hdue, hgate, later]
      · simp [next, tick, hdue, hgate, later, Telemetry.flush_fields]
      · simp [next, tick, hdue, hgate, later]
  · refine .inl ⟨not_le.mp hdue, ?_, ?_, ?_⟩ <;> simp [next, tick, hdue]

variable [IsStrictOrderedRing K]

theorem settled_tick (hp : Passes p) (h : s.Settled flushIntervalS) :
    (s.tick dumps loops flushIntervalS p).Settled flushIntervalS := by
  have hspent := hp.spent s.next
  have hwaiting := hp.waiting
  intro hrefused
  rcases tick_cases dumps loops flushIntervalS s p with
    ⟨-, hnext, hlast, hsame⟩ | ⟨-, -, -, htrue⟩ | ⟨-, hnext, hlast, -⟩
  · rw [hnext, hlast]
    exact h (hsame ▸ hrefused)
  · rw [htrue] at hrefused
    cases hrefused
  · rw [hnext, hlast]
    linarith

theorem recent_tick_iff (hp : Passes p) (h : s.Settled flushIntervalS)
    (hinterval : 0 < flushIntervalS) (hg : 0 ≤ g) :
    Recent flushIntervalS g (s.tick dumps loops flushIntervalS p) p ↔
      ¬Overlooks flushIntervalS g s p := by
  have hspent := hp.spent s.next
  have hwaiting := hp.waiting
  unfold Recent Overlooks
  rcases tick_cases dumps loops flushIntervalS s p with
    ⟨hearly, -, hlast, -⟩ | ⟨hdue, hgate, hlast, -⟩ | ⟨hdue, -, hlast, -⟩
  · rw [hlast]
    constructor
    · rintro hrecent ⟨-, -, hlong⟩
      linarith
    · intro hnot
      cases hrefused : s.refused with
      | false =>
        have hsettled := h hrefused
        linarith
      | true =>
        have hshort : ¬s.telemetry.lastFlush + flushIntervalS + g ≤ p.start :=
          fun hlong => hnot ⟨hrefused, hearly, hlong⟩
        linarith
  · rw [hlast]
    refine iff_of_true ?_ ?_
    · linarith
    · rintro ⟨-, hearly, -⟩
      exact hearly.not_ge hdue
  · rw [hlast]
    refine iff_of_true ?_ ?_
    · linarith
    · rintro ⟨-, hearly, -⟩
      exact hearly.not_ge hdue

-- ---------------------------------------------------------------------------
-- Runs
-- ---------------------------------------------------------------------------

/-- The last flush is recent after every pass exactly where none overlooks a
flush that the scheduler does not ask for. -/
theorem recent_flush_iff (dumps : J → Option String) (loops : Daemon.Loops K) (retain : Retain)
    (conn : Option (Database K)) (now : K) (hinterval : 0 < flushIntervalS) (hg : 0 ≤ g)
    (passes : List (Pass K J)) (hpasses : ∀ p ∈ passes, Passes p) :
    Runs.Along (tick dumps loops flushIntervalS)
        (fun s p => Recent flushIntervalS g (s.tick dumps loops flushIntervalS p) p)
        (start retain conn now) passes ↔
      Runs.Along (tick dumps loops flushIntervalS) (fun s p => ¬Overlooks flushIntervalS g s p)
        (start retain conn now) passes := by
  have hstart : (start retain conn now : Cadence K J).Settled flushIntervalS := by
    intro hrefused
    cases hrefused
  refine Runs.along_iff_of ?_ ?_ hstart hpasses
  · intro s p hp hs _
    exact settled_tick hp hs
  · intro s p hp hs
    exact recent_tick_iff hp hs hinterval hg

def fastPass (start fast : ℚ) : Pass ℚ Unit where
  start := start
  medium := 0
  fast := fast
  slow := 0
  buffer := .new
  waiting := 0
  flushing := 0
  inserts := true
  trims := true

theorem passes_fastPass (start : ℚ) (h : 0 ≤ fast) : Passes (fastPass start fast) :=
  ⟨le_rfl, h, le_rfl, le_rfl, le_rfl⟩

def slowPasses : List (Pass ℚ Unit) := (List.range 20).map fun k => fastPass (6 * k) 5

def everyLoop : Daemon.Loops ℚ := ⟨1, 10, 300⟩

theorem flushed_while_even :
    Runs.Along (tick (fun _ => some "\x7b\x7d") everyLoop 60)
      (fun s p => Recent 60 6 (s.tick (fun _ => some "\x7b\x7d") everyLoop 60 p) p)
      (start ⟨5000, 20000, 200000⟩ none 0) (slowPasses ++ [fastPass 120 5, fastPass 126 5]) := by
  refine (recent_flush_iff _ everyLoop _ none 0 (by decide) (by decide) _ ?_).mpr ?_
  · intro p hp
    rcases List.mem_append.mp hp with hp | hp
    · obtain ⟨k, -, rfl⟩ := List.mem_map.mp hp
      exact passes_fastPass _ (by decide)
    · rcases List.mem_pair.mp hp with rfl | rfl <;> exact passes_fastPass _ (by decide)
  · decide +kernel

/-- A pass that is a second quicker finds the gate closed. -/
theorem overlooked_after_quick_pass :
    let passes := slowPasses ++ [fastPass 120 4, fastPass 125 5, fastPass 131 5]
    Runs.Along (tick (fun _ => some "\x7b\x7d") everyLoop 60) (fun s p => s.stop ≤ p.start)
        (start ⟨5000, 20000, 200000⟩ none 0) passes ∧
      passes.IsChain (fun p q => q.start - p.start ≤ 6) ∧
      ¬Runs.Along (tick (fun _ => some "\x7b\x7d") everyLoop 60)
        (fun s p => Recent 60 6 (s.tick (fun _ => some "\x7b\x7d") everyLoop 60 p) p)
        (start ⟨5000, 20000, 200000⟩ none 0) passes := by
  decide +kernel

end Cadence

end Wifucked
