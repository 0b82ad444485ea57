import Mathlib.Data.List.Sort

/-!
# What a bound leaves of a list

A slice counts a negative bound from the end of the list, a query with a negative
limit has none. Where a sorted list is cut off, its start is that of the list as
it was exactly where the first of it were in order already.
-/

namespace Limits

variable {α : Type u} {β : Type v}

def upTo (l : List α) (n : ℤ) : List α :=
  if n < 0 then l.take (l.length - (-n).toNat) else l.take n.toNat

def onFrom (l : List α) (n : ℤ) : List α :=
  if n < 0 then l.drop (l.length - (-n).toNat) else l.drop n.toNat

def limited (l : List α) (n : ℤ) : List α := if n < 0 then l else l.take n.toNat

theorem upTo_eq_nil_iff (h : n ≤ 0) : upTo l n = [] ↔ n < 0 → (l.length : ℤ) ≤ -n := by
  unfold upTo
  split
  · rw [List.take_eq_nil_iff]
    cases l with
    | nil => simp; omega
    | cons a l => simp only [List.length_cons, reduceCtorEq, or_false]; omega
  · obtain rfl : n = 0 := by omega
    simp

theorem onFrom_eq_nil_iff (h : 0 ≤ n) : onFrom l n = [] ↔ (l.length : ℤ) ≤ n := by
  unfold onFrom
  rw [if_neg (by omega), List.drop_eq_nil_iff]
  omega

theorem onFrom_of_neg (h : n < 0) (l : List α) : onFrom l n = l.drop (l.length - (-n).toNat) :=
  if_pos h

theorem upTo_of_nonneg (h : 0 ≤ n) (l : List α) : upTo l n = l.take n.toNat := if_neg h.not_gt

theorem limited_of_nonneg (h : 0 ≤ n) (l : List α) : limited l n = l.take n.toNat :=
  if_neg h.not_gt

-- ---------------------------------------------------------------------------
-- The start of a sorted list
-- ---------------------------------------------------------------------------

/-- Each of the first ones comes before all that is behind it. -/
def Leads (r : α → α → Prop) : ℕ → List α → Prop
  | 0, _ => True
  | _ + 1, [] => True
  | n + 1, a :: l => (∀ b ∈ l, r a b) ∧ Leads r n l

instance decidableLeads (r : α → α → Prop) [DecidableRel r] : ∀ n l, Decidable (Leads r n l)
  | 0, _ => .isTrue trivial
  | _ + 1, [] => .isTrue trivial
  | n + 1, a :: l =>
    have := decidableLeads r n l
    inferInstanceAs (Decidable ((∀ b ∈ l, r a b) ∧ Leads r n l))

theorem leads_map {r : β → β → Prop} (f : α → β) (n : ℕ) (l : List α) :
    Leads r n (l.map f) ↔ Leads (fun a b => r (f a) (f b)) n l := by
  induction l generalizing n with
  | nil => cases n <;> exact Iff.rfl
  | cons a l ih =>
    cases n with
    | zero => exact Iff.rfl
    | succ n =>
      rw [List.map_cons, Leads, Leads, List.forall_mem_map, ih]

variable {r : α → α → Prop} [DecidableRel r] [IsTrans α r] [Std.Total r]

theorem rel_of_take_insertionSort (h : ((a :: l).insertionSort r).take (n + 1) = a :: rest) :
    ∀ b ∈ l, r a b := by
  have hrefl : r a a := (Std.Total.total (r := r) a a).elim id id
  intro b hb
  have hb := (List.mem_insertionSort r).mpr hb
  have hsorted := List.pairwise_insertionSort r l
  rw [List.insertionSort_cons] at h
  cases hs : l.insertionSort r with
  | nil => rw [hs] at hb; cases hb
  | cons c s =>
    rw [hs] at h hb hsorted
    have hac : r a c := by
      by_contra hac
      rw [List.orderedInsert_cons, if_neg hac, List.take_succ_cons] at h
      obtain ⟨rfl, -⟩ := List.cons.inj h
      exact hac hrefl
    rcases List.mem_cons.mp hb with rfl | hb
    · exact hac
    · exact IsTrans.trans _ _ _ hac ((List.pairwise_cons.mp hsorted).1 b hb)

/-- Sorting leaves the start of a list as it is exactly where it is in order. -/
theorem take_insertionSort_iff (n : ℕ) (l : List α) :
    (l.insertionSort r).take n = l.take n ↔ Leads r n l := by
  induction l generalizing n with
  | nil => cases n <;> simp [Leads]
  | cons a l ih =>
    cases n with
    | zero => simp [Leads]
    | succ n =>
      rw [Leads, ← ih]
      constructor
      · intro h
        have hrel := rel_of_take_insertionSort h
        rw [List.insertionSort_cons_of_forall_rel r hrel] at h
        exact ⟨hrel, (List.cons.inj h).2⟩
      · rintro ⟨hrel, h⟩
        rw [List.insertionSort_cons_of_forall_rel r hrel, List.take_succ_cons, h,
          List.take_succ_cons]

end Limits
