import Mathlib.Algebra.Order.BigOperators.Group.List
import Mathlib.Algebra.Order.Group.MinMax

/-!
# Filling wants in order

Some amount is handed out along a list: each in turn gets what it wants, or
what is left. Nobody gets more than it wants, nothing is held back while
somebody wants more, and nobody is served before those ahead of it.
-/

namespace Filling

variable {ι : Type u} {α : Type v} [AddCommGroup α] [LinearOrder α] (want : ι → α)

/-- What each gets, in the order in which they are served. -/
def fill : α → List ι → List (ι × α)
  | _, [] => []
  | left, i :: is => (i, min (want i) left) :: fill (left - min (want i) left) is

@[simp] theorem fill_cons (left : α) (i : ι) (is : List ι) :
    fill want left (i :: is) =
      (i, min (want i) left) :: fill want (left - min (want i) left) is := rfl

theorem exists_fill_eq (left : α) {is : List ι} (h : is.Nodup) :
    ∃ g : ι → α, fill want left is = is.map fun i => (i, g i) := by
  classical
  induction is generalizing left with
  | nil => exact ⟨fun _ => 0, rfl⟩
  | cons i is ih =>
    obtain ⟨hi, his⟩ := List.nodup_cons.mp h
    obtain ⟨g, hg⟩ := ih (left - min (want i) left) his
    refine ⟨Function.update g i (min (want i) left), ?_⟩
    rw [fill_cons, hg, List.map_cons, Function.update_self]
    congr 1
    refine List.map_congr_left fun j hj => ?_
    rw [Function.update_of_ne (ne_of_mem_of_not_mem hj hi)]

variable {want} {left : α} {is : List ι}

theorem le_want_of_mem_fill (h : x ∈ fill want left is) : x.2 ≤ want x.1 := by
  induction is generalizing left with
  | nil => cases h
  | cons i is ih =>
    rcases List.mem_cons.mp h with rfl | h
    · exact min_le_left _ _
    · exact ih h

variable [IsOrderedAddMonoid α]

theorem nonneg_of_mem_fill (hwant : ∀ i ∈ is, 0 ≤ want i) (hleft : 0 ≤ left)
    (h : x ∈ fill want left is) : 0 ≤ x.2 := by
  induction is generalizing left with
  | nil => cases h
  | cons i is ih =>
    obtain ⟨hi, his⟩ := List.forall_mem_cons.mp hwant
    rcases List.mem_cons.mp h with rfl | h
    · exact le_min hi hleft
    · exact ih his (sub_nonneg.mpr (min_le_right _ _)) h

theorem le_left_of_mem_fill (hwant : ∀ i ∈ is, 0 ≤ want i) (hleft : 0 ≤ left)
    (h : x ∈ fill want left is) : x.2 ≤ left := by
  induction is generalizing left with
  | nil => cases h
  | cons i is ih =>
    obtain ⟨hi, his⟩ := List.forall_mem_cons.mp hwant
    rcases List.mem_cons.mp h with rfl | h
    · exact min_le_right _ _
    · exact (ih his (sub_nonneg.mpr (min_le_right _ _)) h).trans
        (sub_le_self _ (le_min hi hleft))

/-- What is handed out is what is wanted in all, or all there is. -/
theorem sum_fill (hwant : ∀ i ∈ is, 0 ≤ want i) (hleft : 0 ≤ left) :
    ((fill want left is).map Prod.snd).sum = min (is.map want).sum left := by
  induction is generalizing left with
  | nil => simp [fill, hleft]
  | cons i is ih =>
    obtain ⟨hi, his⟩ := List.forall_mem_cons.mp hwant
    have hrest : 0 ≤ (is.map want).sum := List.sum_nonneg (by simpa using his)
    rw [fill_cons, List.map_cons, List.sum_cons, List.map_cons, List.sum_cons,
      ih his (sub_nonneg.mpr (min_le_right _ _))]
    rcases le_total (want i) left with h | h
    · rw [min_eq_left h, ← min_add_add_left, add_sub_cancel]
    · rw [min_eq_right h, sub_self, min_eq_right hrest, add_zero,
        min_eq_right (h.trans (le_add_of_nonneg_right hrest))]

/-- Who gets something is behind those only who got all they wanted. -/
theorem pairwise_fill (hwant : ∀ i ∈ is, 0 ≤ want i) (hleft : 0 ≤ left) :
    (fill want left is).Pairwise fun x y => 0 < y.2 → x.2 = want x.1 := by
  induction is generalizing left with
  | nil => exact .nil
  | cons i is ih =>
    obtain ⟨-, his⟩ := List.forall_mem_cons.mp hwant
    refine List.pairwise_cons.mpr ⟨fun y hy hpos => ?_, ih his (sub_nonneg.mpr (min_le_right _ _))⟩
    -- With the first one short there is nothing left for the others.
    refine min_eq_left (le_of_not_gt fun hshort => ?_)
    rw [min_eq_right hshort.le, sub_self] at hy
    exact hpos.not_ge (le_left_of_mem_fill his le_rfl hy)

end Filling
