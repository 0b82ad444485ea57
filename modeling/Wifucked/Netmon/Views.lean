import Mathlib.Algebra.Order.Floor.Ring
import Mathlib.Data.Rat.Floor
import Wifucked.Netmon.Buckets
import Wifucked.Netmon.Outages

/-!
# Three views of one history

The summary of a window counts the samples its buckets count, and its drop
events are when the samples were not answered.
-/

namespace Wifucked.Netmon

theorem sum_toNat {α : Type} (p : α → Bool) (l : List α) :
    (l.map fun a => (p a).toNat).sum = l.countP p := by
  induction l with
  | nil => rfl
  | cons a l ih => cases h : p a <;> simp [h, ih, Nat.add_comm]

theorem sum_one {α : Type} (l : List α) : (l.map fun _ => 1).sum = l.length := by
  simp

theorem sum_isSome {K : Type} (rows : List (PingSample K)) :
    (rows.map fun s => s.latencyMs.isSome.toNat).sum = rows.countP fun s => !s.down := by
  rw [← sum_toNat]
  exact congrArg List.sum (List.map_congr_left fun s _ => by simp [PingSample.down])

theorem countP_not_down {K : Type} (rows : List (PingSample K)) :
    (rows.countP fun s => !s.down) = rows.length - rows.countP PingSample.down := by
  have hsplit := List.length_eq_countP_add_countP PingSample.down (l := rows)
  simp only [Bool.not_eq_true, Bool.decide_eq_false] at hsplit
  omega

section

variable {K : Type} [Field K] [LinearOrder K] [FloorRing K]

/-- What the three queries say of one host and one window goes together. -/
structure Agree (table : List (PingSample K)) (hostId : String) (tsFrom tsTo bucketS : K) :
    Prop where
  total : ((queryBuckets table hostId tsFrom tsTo bucketS).map (·.total)).sum =
    (querySummary table hostId tsFrom tsTo).total
  success : ((queryBuckets table hostId tsFrom tsTo bucketS).map (·.success)).sum =
    (querySummary table hostId tsFrom tsTo).success
  fail : ((queryBuckets table hostId tsFrom tsTo bucketS).map (·.fail)).sum =
    (querySummary table hostId tsFrom tsTo).fail
  placed : ∀ s ∈ selected table hostId tsFrom tsTo,
    ∃ b ∈ queryBuckets table hostId tsFrom tsTo bucketS,
      b.bucketStart ≤ s.ts ∧ s.ts < b.bucketStart + bucketS
  counted : ∀ b ∈ queryBuckets table hostId tsFrom tsTo bucketS,
    let inside := (selected table hostId tsFrom tsTo).filter (b.holds bucketS)
    b.total = inside.length ∧ b.success = inside.countP (fun s => !s.down) ∧
      b.fail = inside.countP PingSample.down
  outages : ∃ events, queryDropEvents table hostId tsFrom tsTo = some events ∧
    Outages (selectedInOrder table hostId tsFrom tsTo) events

variable [IsStrictOrderedRing K]

/-- With distinct times and buckets of some width the three views agree. -/
theorem views_agree {table : List (PingSample K)} {hostId : String} (tsFrom tsTo : K) {bucketS : K}
    (hdistinct : Distinct table hostId) (hw : 0 < bucketS) :
    Agree table hostId tsFrom tsTo bucketS where
  total := by
    rw [counts_total.sum_queryBuckets (·.total) fun _ => rfl, sum_one]
    rfl
  success := by
    rw [counts_success.sum_queryBuckets (·.success) fun _ => rfl, sum_isSome, countP_not_down]
    rfl
  fail := by
    rw [counts_fail.sum_queryBuckets (·.fail) fun _ => rfl]
    exact sum_toNat PingSample.down _
  placed := by
    intro s hs
    obtain ⟨b, hb, hholds⟩ := exists_bucket hw hs
    exact ⟨b, hb, by simpa [BucketReport.holds] using hholds⟩
  counted := by
    intro b hb
    refine ⟨?_, ?_, ?_⟩
    · rw [counts_total.of_mem (·.total) (fun _ => rfl) hw hb, sum_one]
    · rw [counts_success.of_mem (·.success) (fun _ => rfl) hw hb, sum_isSome]
    · rw [counts_fail.of_mem (·.fail) (fun _ => rfl) hw hb]
      exact sum_toNat PingSample.down _
  outages := ⟨_, queryDropEvents_eq .., outages_eventsOf (ordered_selectedInOrder hdistinct)⟩

end

def lossy : List (PingSample ℚ) :=
  [⟨"router", 0, some 12⟩, ⟨"router", 1, none⟩, ⟨"router", 2, none⟩, ⟨"router", 3, some 11⟩,
    ⟨"other", 3, none⟩, ⟨"router", 4, none⟩]

theorem views_agree_lossy : Agree lossy "router" 0 10 2 :=
  views_agree 0 10 (by unfold Distinct; decide +kernel) (by norm_num)

end Wifucked.Netmon
