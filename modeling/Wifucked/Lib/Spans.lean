import Mathlib.Algebra.BigOperators.Group.List.Basic
import Mathlib.Algebra.Order.BigOperators.Group.List
import Mathlib.Algebra.Order.Ring.Defs
import Mathlib.Tactic.Linarith

/-!
# Spans of time, one after another
-/

structure Span (K : Type u) where
  start : K
  seconds : K
  deriving DecidableEq

namespace Span

variable {K : Type u} [CommRing K] [LinearOrder K] [IsStrictOrderedRing K] {spans : List (Span K)}

def stop (s : Span K) : K := s.start + s.seconds

/-- None starts before those ahead of it are over. -/
def Sequential (spans : List (Span K)) : Prop := spans.Pairwise fun s t => s.stop ≤ t.start

/-- Spans that start before a deadline take no longer together than the time up
to it and the longest of them. -/
theorem sum_seconds_le (h : Sequential spans) (hlo : ∀ s ∈ spans, lo ≤ s.start)
    (hhi : ∀ s ∈ spans, s.start ≤ hi) (hmax : ∀ s ∈ spans, s.seconds ≤ longest)
    (hroom : lo ≤ hi + longest) : (spans.map (·.seconds)).sum ≤ hi - lo + longest := by
  induction spans generalizing lo with
  | nil =>
    rw [List.map_nil, List.sum_nil]
    linarith
  | cons s spans ih =>
    obtain ⟨hs, h⟩ := List.pairwise_cons.mp h
    obtain ⟨hslo, -⟩ := List.forall_mem_cons.mp hlo
    obtain ⟨hshi, hhi⟩ := List.forall_mem_cons.mp hhi
    obtain ⟨hsmax, hmax⟩ := List.forall_mem_cons.mp hmax
    have hstop : s.stop ≤ hi + longest := add_le_add hshi hsmax
    have hrest := ih h hs hhi hmax hstop
    rw [List.map_cons, List.sum_cons]
    rw [stop] at hrest
    linarith

end Span

-- ---------------------------------------------------------------------------
-- One after another
-- ---------------------------------------------------------------------------

section

variable {α : Type v} [DecidableEq α] {K : Type u} [CommRing K]

/-- The seconds that those take which stand ahead of one. -/
def secondsAhead (seconds : α → K) (l : List α) (a : α) : K :=
  ((l.takeWhile (· ≠ a)).map seconds).sum

variable {seconds : α → K} {l : List α} {a : α}

@[simp] theorem secondsAhead_cons_self : secondsAhead seconds (a :: l) a = 0 := by
  simp [secondsAhead]

theorem secondsAhead_cons (h : b ≠ a) :
    secondsAhead seconds (b :: l) a = seconds b + secondsAhead seconds l a := by
  simp [secondsAhead, h]

theorem secondsAhead_of_prefix (h : l <+: m) (ha : a ∈ l) :
    secondsAhead seconds m a = secondsAhead seconds l a := by
  obtain ⟨r, rfl⟩ := h
  induction l with
  | nil => cases ha
  | cons b l ih =>
    rw [List.cons_append]
    by_cases hb : b = a
    · rw [hb, secondsAhead_cons_self, secondsAhead_cons_self]
    · rw [secondsAhead_cons hb, secondsAhead_cons hb,
        ih ((List.mem_cons.mp ha).resolve_left (Ne.symm hb))]

theorem secondsAhead_append_self (h : a ∉ l) :
    secondsAhead seconds (l ++ [a]) a = (l.map seconds).sum := by
  induction l with
  | nil => simp
  | cons b l ih =>
    obtain ⟨hb, h⟩ := not_or.mp (List.mem_cons.not.mp h)
    rw [List.cons_append, secondsAhead_cons (Ne.symm hb), ih h, List.map_cons, List.sum_cons]

variable [LinearOrder K] [IsStrictOrderedRing K]

theorem secondsAhead_nonneg (hs : ∀ a, 0 ≤ seconds a) : 0 ≤ secondsAhead seconds l a :=
  List.sum_nonneg fun s h => by
    obtain ⟨b, -, rfl⟩ := List.mem_map.mp h
    exact hs b

theorem secondsAhead_add_le (hs : ∀ a, 0 ≤ seconds a) (ha : a ∈ l) :
    secondsAhead seconds l a + seconds a ≤ (l.map seconds).sum := by
  induction l with
  | nil => cases ha
  | cons b l ih =>
    rw [List.map_cons, List.sum_cons]
    by_cases hb : b = a
    · have hrest : 0 ≤ (l.map seconds).sum := List.sum_nonneg fun s h => by
        obtain ⟨c, -, rfl⟩ := List.mem_map.mp h
        exact hs c
      rw [hb, secondsAhead_cons_self]
      linarith
    · rw [secondsAhead_cons hb]
      have := ih ((List.mem_cons.mp ha).resolve_left (Ne.symm hb))
      linarith

theorem pairwise_secondsAhead (hs : ∀ a, 0 ≤ seconds a) (hn : l.Nodup) :
    l.Pairwise fun a b => secondsAhead seconds l a + seconds a ≤ secondsAhead seconds l b := by
  induction l with
  | nil => exact .nil
  | cons a l ih =>
    obtain ⟨ha, hn⟩ := List.nodup_cons.mp hn
    have hne : ∀ b ∈ l, a ≠ b := fun b hb hab => ha (hab ▸ hb)
    refine List.pairwise_cons.mpr ⟨fun b hb => ?_, (ih hn).imp_of_mem fun hb hc h => ?_⟩
    · have := secondsAhead_nonneg (l := l) (a := b) hs
      rw [secondsAhead_cons_self, secondsAhead_cons (hne b hb)]
      linarith
    · rw [secondsAhead_cons (hne _ hb), secondsAhead_cons (hne _ hc)]
      linarith

end
