import Mathlib.Algebra.Order.Field.Basic
import Mathlib.Data.List.Pairwise
import Mathlib.Tactic.Linarith
import Mathlib.Tactic.Ring

/-!
# Changes of a sampled on/off signal

A signal is a list of samples in order of time, each with the time it was
taken at and whether the signal was on. `rises` and `falls` are the samples
at which it changes, seen from the value it had before the first sample.
-/

namespace Signal

variable {α : Type u} (on : α → Bool)

def rises : Bool → List α → List α
  | _, [] => []
  | prev, a :: l => if !prev && on a then a :: rises (on a) l else rises (on a) l

def falls : Bool → List α → List α
  | _, [] => []
  | prev, a :: l => if prev && !on a then a :: falls (on a) l else falls (on a) l

/-- The samples at which the signal is not what it was before. -/
def changes : Bool → List α → List α
  | _, [] => []
  | prev, a :: l => if on a = prev then changes (on a) l else a :: changes (on a) l

variable {on}

theorem rises_sublist : (rises on prev l).Sublist l := by
  induction l generalizing prev with
  | nil => exact .slnil
  | cons a l ih =>
    unfold rises
    split
    · exact ih.cons_cons a
    · exact ih.cons a

theorem falls_sublist : (falls on prev l).Sublist l := by
  induction l generalizing prev with
  | nil => exact .slnil
  | cons a l ih =>
    unfold falls
    split
    · exact ih.cons_cons a
    · exact ih.cons a

theorem falls_le_rises (prev : Bool) (l : List α) :
    (falls on prev l).length ≤ (rises on prev l).length + if prev then 1 else 0 := by
  induction l generalizing prev with
  | nil => simp [falls, rises]
  | cons a l ih =>
    have h := ih (on a)
    cases prev <;> cases ha : on a <;> simp only [falls, rises, ha] at h ⊢ <;> simp at h ⊢ <;> omega

section window

variable {K : Type v} [LinearOrder K] {time : α → K} {lo hi : K} {l : List α}

def within (time : α → K) (lo hi : K) (l : List α) : List α :=
  l.filter fun a => lo ≤ time a ∧ time a ≤ hi

theorem within_eq_nil (h : ∀ a ∈ l, hi < time a) : within time lo hi l = [] := by
  refine List.filter_eq_nil_iff.mpr fun a ha => ?_
  have := h a ha
  simp [this]

theorem within_changes_from (hs : l.Pairwise (time · ≤ time ·)) (hlo : ∀ a ∈ l, lo ≤ time a)
    (prev : Bool) :
    within time lo hi (rises on prev l) = rises on prev (within time lo hi l) ∧
      within time lo hi (falls on prev l) = falls on prev (within time lo hi l) := by
  induction l generalizing prev with
  | nil => exact ⟨rfl, rfl⟩
  | cons a l ih =>
    obtain ⟨ha, hs⟩ := List.pairwise_cons.mp hs
    have hla : lo ≤ time a := hlo a List.mem_cons_self
    rcases le_or_gt (time a) hi with hhi | hhi
    · obtain ⟨hr, hf⟩ := ih hs (fun b hb => hlo b (List.mem_cons_of_mem _ hb)) (on a)
      have hw : within time lo hi (a :: l) = a :: within time lo hi l := by
        simp [within, hla, hhi]
      rw [hw]
      constructor
      · simp only [rises]
        split
        · rw [← hr]; simp [within, hla, hhi]
        · exact hr
      · simp only [falls]
        split
        · rw [← hf]; simp [within, hla, hhi]
        · exact hf
    · have hall : ∀ b ∈ a :: l, hi < time b := by
        intro b hb
        rcases List.mem_cons.mp hb with rfl | hb
        · exact hhi
        · exact lt_of_lt_of_le hhi (ha b hb)
      rw [within_eq_nil hall, within_eq_nil fun b hb => hall b (rises_sublist.subset hb),
        within_eq_nil fun b hb => hall b (falls_sublist.subset hb)]
      exact ⟨rfl, rfl⟩

/-- The changes in a window of time are those of the samples in it, seen from
the value the signal had when the window opened. -/
theorem within_changes (hs : l.Pairwise (time · ≤ time ·)) (prev : Bool) :
    ∃ before, within time lo hi (rises on prev l) = rises on before (within time lo hi l) ∧
      within time lo hi (falls on prev l) = falls on before (within time lo hi l) := by
  induction l generalizing prev with
  | nil => exact ⟨prev, rfl, rfl⟩
  | cons a l ih =>
    obtain ⟨ha, hs'⟩ := List.pairwise_cons.mp hs
    rcases le_or_gt lo (time a) with hlo | hlo
    · refine ⟨prev, within_changes_from hs (fun b hb => ?_) prev⟩
      rcases List.mem_cons.mp hb with rfl | hb
      · exact hlo
      · exact hlo.trans (ha b hb)
    · obtain ⟨before, hr, hf⟩ := ih hs' (on a)
      have hout : ¬ lo ≤ time a := not_le.mpr hlo
      refine ⟨before, ?_, ?_⟩
      · simp only [rises]
        split <;> simpa [within, hout] using hr
      · simp only [falls]
        split <;> simpa [within, hout] using hf

theorem falls_within_le (hs : l.Pairwise (time · ≤ time ·)) (prev : Bool) :
    (within time lo hi (falls on prev l)).length ≤
      (within time lo hi (rises on prev l)).length + 1 := by
  obtain ⟨before, hr, hf⟩ :
      ∃ before, within time lo hi (rises on prev l) = rises on before (within time lo hi l) ∧
        within time lo hi (falls on prev l) = falls on before (within time lo hi l) :=
    within_changes hs prev
  rw [hr, hf]
  refine (falls_le_rises before _).trans ?_
  split <;> omega

end window

section spacing

variable {K : Type v} [Field K] [LinearOrder K] [IsStrictOrderedRing K] {time : α → K}
  {lo hi d T : K} {l : List α}

theorem length_mul_le (hd : l.Pairwise (time · + d ≤ time ·)) (hlo : ∀ a ∈ l, lo ≤ time a)
    (hhi : ∀ a ∈ l, time a ≤ hi) (hw : lo ≤ hi + d) : (l.length : K) * d ≤ hi - lo + d := by
  induction l generalizing lo with
  | nil => simp only [List.length_nil, Nat.cast_zero, zero_mul]; linarith
  | cons a l ih =>
    obtain ⟨ha, hd⟩ := List.pairwise_cons.mp hd
    have hla : lo ≤ time a := hlo a List.mem_cons_self
    have hah : time a ≤ hi := hhi a List.mem_cons_self
    have h : (l.length : K) * d ≤ hi - (time a + d) + d :=
      ih hd ha (fun b hb => hhi b (List.mem_cons_of_mem _ hb)) (by linarith)
    push_cast [List.length_cons]
    linarith

/-- At most `T / d + 1` samples at least `d` apart fall in a window of length `T`. -/
theorem length_within_le (hpos : 0 < d) (hT : 0 ≤ T) (hd : l.Pairwise (time · + d ≤ time ·)) :
    ((within time lo (lo + T) l).length : K) ≤ T / d + 1 := by
  have hmem : ∀ a ∈ within time lo (lo + T) l, lo ≤ time a ∧ time a ≤ lo + T := by
    intro a ha
    simpa using (List.mem_filter.mp ha).2
  have h := length_mul_le (hd.sublist List.filter_sublist) (fun a ha => (hmem a ha).1)
    (fun a ha => (hmem a ha).2) (by linarith : lo ≤ lo + T + d)
  calc ((within time lo (lo + T) l).length : K)
      ≤ (T + d) / d := by rw [le_div_iff₀ hpos]; unfold within; linarith
    _ = T / d + 1 := by rw [add_div, div_self hpos.ne']

end spacing

end Signal
