import Mathlib.Data.List.Sort
import Mathlib.Data.Int.Order.Basic

/-!
# Rules in the order of their priorities

A list of rules is gone through from the lowest number up, and in the order given
where numbers are equal, to the first rule that has an answer. Which one that is
often needs not be known: all that might be come to the same answer.
-/

namespace Priorities

variable {α : Type u} {β : Type v} {key : α → ℤ} {f : α → Option β} {l : List α}

def firstMatch (key : α → ℤ) (f : α → Option β) (l : List α) : Option β :=
  (l.insertionSort fun a b => key a ≤ key b).findSome? f

theorem findSome?_eq_of_pairwise {l : List α} (hsorted : l.Pairwise fun a b => key a ≤ key b)
    (ha : a ∈ l) (hf : f a = some b)
    (hbefore : ∀ a' ∈ l, key a' ≤ key a → f a' = none ∨ f a' = some b) :
    l.findSome? f = some b := by
  induction l with
  | nil => cases ha
  | cons c l ih =>
    obtain ⟨hc, hsorted⟩ := List.pairwise_cons.mp hsorted
    rw [List.findSome?_cons]
    rcases List.mem_cons.mp ha with rfl | ha
    · rw [hf]
    · rcases hbefore c List.mem_cons_self (hc a ha) with hnone | hsome
      · rw [hnone]
        exact ih hsorted ha fun a' ha' => hbefore a' (List.mem_cons_of_mem c ha')
      · rw [hsome]

theorem firstMatch_eq_some (ha : a ∈ l) (hf : f a = some b)
    (hbefore : ∀ a' ∈ l, key a' ≤ key a → f a' = none ∨ f a' = some b) :
    firstMatch key f l = some b := by
  have hsorted := List.pairwise_insertionSort (fun a b : α => key a ≤ key b) l
  refine findSome?_eq_of_pairwise hsorted ((List.mem_insertionSort _).mpr ha) hf ?_
  exact fun a' ha' => hbefore a' ((List.mem_insertionSort _).mp ha')

theorem firstMatch_eq_none (h : ∀ a ∈ l, f a = none) : firstMatch key f l = none := by
  rw [firstMatch, List.findSome?_eq_none_iff]
  exact fun a ha => h a ((List.mem_insertionSort _).mp ha)

end Priorities
