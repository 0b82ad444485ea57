import Mathlib.Logic.Function.Basic
import Wifucked.Lib.Runs

/-!
# Threads over one shared state

Each thread has a state of its own, `own`, and one of them moves at a time, on
the shared state and on its own. A proof about every interleaving needs an
invariant of the shared state and one of each thread that the moves of the
others do not disturb.
-/

structure Threads (τ : Type u) (σ : Type v) (κ : Type w) where
  shared : σ
  own : τ → κ

namespace Threads

variable {τ : Type u} {σ : Type v} {κ : Type w} {ι : Type x} [DecidableEq τ]
variable (move : τ → σ → κ → ι → σ × κ)

def step (s : Threads τ σ κ) (turn : τ × ι) : Threads τ σ κ :=
  { shared := (move turn.1 s.shared (s.own turn.1) turn.2).1
    own := Function.update s.own turn.1 (move turn.1 s.shared (s.own turn.1) turn.2).2 }

@[simp] theorem step_shared (s : Threads τ σ κ) (turn : τ × ι) :
    (step move s turn).shared = (move turn.1 s.shared (s.own turn.1) turn.2).1 := rfl

@[simp] theorem step_own_self (s : Threads τ σ κ) (t : τ) (i : ι) :
    (step move s (t, i)).own t = (move t s.shared (s.own t) i).2 := by
  simp [step]

theorem step_own_of_ne {s : Threads τ σ κ} {t u : τ} (h : u ≠ t) (i : ι) :
    (step move s (t, i)).own u = s.own u := by
  simp [step, h]

/-- The shared state has `I`, and each thread has `J` of it. -/
structure Held (I : σ → Prop) (J : τ → σ → κ → Prop) (s : Threads τ σ κ) : Prop where
  shared : I s.shared
  own : ∀ t, J t s.shared (s.own t)

variable {move} {I : σ → Prop} {J : τ → σ → κ → Prop} {s : Threads τ σ κ}

/-- A move keeps what the thread itself and every other thread rely on. -/
theorem held_step {turn : τ × ι}
    (hown : I (move turn.1 s.shared (s.own turn.1) turn.2).1 ∧
      J turn.1 (move turn.1 s.shared (s.own turn.1) turn.2).1
        (move turn.1 s.shared (s.own turn.1) turn.2).2)
    (hothers : ∀ u, u ≠ turn.1 →
      J u (move turn.1 s.shared (s.own turn.1) turn.2).1 (s.own u)) :
    Held I J (Threads.step move s turn) := by
  obtain ⟨t, i⟩ := turn
  refine ⟨hown.1, ?_⟩
  intro u
  by_cases hu : u = t
  · subst hu
    rw [step_own_self]
    exact hown.2
  · rw [step_own_of_ne move hu]
    exact hothers u hu

theorem Held.exec {turns : List (τ × ι)} (hs : Held I J s)
    (hown : ∀ t s k i, I s → J t s k → I (move t s k i).1 ∧ J t (move t s k i).1 (move t s k i).2)
    (hothers : ∀ t u s k m i, u ≠ t → I s → J t s k → J u s m → J u (move t s k i).1 m) :
    Held I J (Runs.exec (Threads.step move) s turns) := by
  refine Runs.exec_keeps (P := Held I J) ?_ hs
  intro s turn _ hs
  exact held_step (hown _ _ _ _ hs.shared (hs.own _))
    fun u hu => hothers _ u _ _ _ _ hu hs.shared (hs.own _) (hs.own u)

end Threads
