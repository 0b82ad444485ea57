import Mathlib.Algebra.Order.Floor.Ring
import Mathlib.Tactic.Linarith
import Wifucked.Netmon.Storage

/-!
# What the buckets of a window count

A sample is counted in one bucket, the one that begins at its start, and every
bucket counts the samples of its time.
-/

namespace Wifucked.Netmon

variable {K : Type}

section

/-- A count of the samples of a bucket that each sample adds its part to. -/
structure Counts (f : Bucket K → ℕ) (g : Option K → ℕ) : Prop where
  empty : ∀ start, f (.empty start) = 0
  add : ∀ b latency, f (b.add latency) = f b + g latency

theorem counts_total : Counts (K := K) Bucket.total fun _ => 1 :=
  ⟨fun _ => rfl, fun _ latency => by cases latency <;> rfl⟩

theorem counts_success : Counts (K := K) Bucket.success fun latency => latency.isSome.toNat :=
  ⟨fun _ => rfl, fun _ latency => by cases latency <;> rfl⟩

theorem counts_fail : Counts (K := K) Bucket.fail fun latency => latency.isNone.toNat :=
  ⟨fun _ => rfl, fun _ latency => by cases latency <;> rfl⟩

theorem Counts.getD {f : Bucket K → ℕ} {g : Option K → ℕ} (h : Counts f g)
    (b? : Option (Bucket K)) (start : K) : f (b?.getD (.empty start)) = (b?.map f).getD 0 := by
  cases b? with
  | none => exact h.empty start
  | some b => rfl

@[simp] theorem bucketStart_add (b : Bucket K) (latency : Option K) :
    (b.add latency).bucketStart = b.bucketStart := by
  cases latency <;> rfl

theorem bucketStart_getD [DecidableEq K] (buckets : Buckets K) (start : K) :
    ((buckets.get? start).getD (.empty start)).bucketStart = start := by
  cases h : buckets.get? start with
  | none => rfl
  | some b => exact Keyed.key_of_get? h

end

section

variable [Field K] [LinearOrder K] [FloorRing K] {tsFrom bucketS : K} {rows : List (PingSample K)}
  {f : Bucket K → ℕ} {g : Option K → ℕ}

theorem Counts.sum_addRow (h : Counts f g) (buckets : Buckets K) (s : PingSample K) :
    ((addRow tsFrom bucketS buckets s).values.map f).sum =
      (buckets.values.map f).sum + g s.latencyMs := by
  have hput := Keyed.sum_put f buckets
    (((buckets.get? (startOf tsFrom bucketS s.ts)).getD (.empty (startOf tsFrom bucketS s.ts))).add
      s.latencyMs)
  rw [bucketStart_add, bucketStart_getD, h.add, h.getD] at hput
  simp only [addRow]
  omega

theorem Counts.sum_foldl (h : Counts f g) (buckets : Buckets K) :
    ((rows.foldl (addRow tsFrom bucketS) buckets).values.map f).sum =
      (buckets.values.map f).sum + (rows.map fun s => g s.latencyMs).sum := by
  induction rows generalizing buckets with
  | nil => simp
  | cons s rows ih =>
    rw [List.foldl_cons, ih, h.sum_addRow, List.map_cons, List.sum_cons, Nat.add_assoc]

theorem get?_addRow (buckets : Buckets K) (s : PingSample K) (start : K) :
    (addRow tsFrom bucketS buckets s).get? start =
      if startOf tsFrom bucketS s.ts = start then
        some (((buckets.get? start).getD (.empty start)).add s.latencyMs)
      else buckets.get? start := by
  simp only [addRow]
  rw [Keyed.get?_put, bucketStart_add, bucketStart_getD]
  split
  · rename_i hstart
    rw [hstart]
  · rfl

theorem Counts.get?_foldl (h : Counts f g) (buckets : Buckets K) (start : K) :
    (((rows.foldl (addRow tsFrom bucketS) buckets).get? start).map f).getD 0 =
      ((buckets.get? start).map f).getD 0 +
        ((rows.filter fun s => startOf tsFrom bucketS s.ts = start).map
          fun s => g s.latencyMs).sum := by
  induction rows generalizing buckets with
  | nil => simp
  | cons s rows ih =>
    rw [List.foldl_cons, ih, get?_addRow]
    by_cases hstart : startOf tsFrom bucketS s.ts = start
    · simp [hstart, h.add, h.getD]
      omega
    · simp [hstart]

theorem isSome_get?_foldl (buckets : Buckets K) (start : K) :
    ((rows.foldl (addRow tsFrom bucketS) buckets).get? start).isSome ↔
      (buckets.get? start).isSome ∨ ∃ s ∈ rows, startOf tsFrom bucketS s.ts = start := by
  induction rows generalizing buckets with
  | nil => simp
  | cons s rows ih =>
    rw [List.foldl_cons, ih, get?_addRow]
    by_cases hstart : startOf tsFrom bucketS s.ts = start
    · simp [hstart]
    · simp [hstart]

theorem Counts.get?_bucketsOf (h : Counts f g) (tsFrom bucketS : K) (rows : List (PingSample K))
    (start : K) : (((bucketsOf tsFrom bucketS rows).get? start).map f).getD 0 =
      ((rows.filter fun s => startOf tsFrom bucketS s.ts = start).map
        fun s => g s.latencyMs).sum := by
  rw [bucketsOf, h.get?_foldl]
  exact Nat.zero_add _

theorem isSome_get?_bucketsOf (tsFrom bucketS : K) (rows : List (PingSample K)) (start : K) :
    ((bucketsOf tsFrom bucketS rows).get? start).isSome ↔
      ∃ s ∈ rows, startOf tsFrom bucketS s.ts = start := by
  rw [bucketsOf, isSome_get?_foldl]
  simp

variable {table : List (PingSample K)} {hostId : String} {tsTo : K}

theorem perm_queryBuckets (table : List (PingSample K)) (hostId : String)
    (tsFrom tsTo bucketS : K) : (queryBuckets table hostId tsFrom tsTo bucketS).Perm
      ((bucketsOf tsFrom bucketS (selectedInOrder table hostId tsFrom tsTo)).values.map
        Bucket.report) :=
  (List.perm_insertionSort _ _).map _

theorem exists_of_mem_queryBuckets {b : BucketReport K}
    (h : b ∈ queryBuckets table hostId tsFrom tsTo bucketS) :
    ∃ c, (bucketsOf tsFrom bucketS (selectedInOrder table hostId tsFrom tsTo)).get?
        b.bucketStart = some c ∧ c.report = b := by
  obtain ⟨c, hc, rfl⟩ := List.mem_map.mp ((perm_queryBuckets ..).mem_iff.mp h)
  exact ⟨c, Keyed.mem_values.mp hc, rfl⟩

theorem Counts.sum_queryBuckets (h : Counts f g) (F : BucketReport K → ℕ)
    (hF : ∀ b, F b.report = f b) :
    ((queryBuckets table hostId tsFrom tsTo bucketS).map F).sum =
      ((selected table hostId tsFrom tsTo).map fun s => g s.latencyMs).sum := by
  have hreport : F ∘ Bucket.report = f := funext hF
  rw [((perm_queryBuckets ..).map F).sum_eq, List.map_map, hreport, bucketsOf, h.sum_foldl,
    ((perm_selectedInOrder ..).map _).sum_eq]
  exact Nat.zero_add _

def BucketReport.holds (bucketS : K) (b : BucketReport K) (s : PingSample K) : Bool :=
  b.bucketStart ≤ s.ts && s.ts < b.bucketStart + bucketS

variable [IsStrictOrderedRing K]

theorem startOf_le (hw : 0 < bucketS) (ts : K) : startOf tsFrom bucketS ts ≤ ts := by
  have hfloor := (le_div_iff₀ hw).mp (Int.floor_le ((ts - tsFrom) / bucketS))
  rw [startOf]
  linarith

theorem lt_startOf_add (hw : 0 < bucketS) (ts : K) : ts < startOf tsFrom bucketS ts + bucketS := by
  have hfloor := (div_lt_iff₀ hw).mp (Int.lt_floor_add_one ((ts - tsFrom) / bucketS))
  rw [startOf]
  linarith

theorem startOf_eq_iff (hw : 0 < bucketS) {ts other : K} :
    startOf tsFrom bucketS ts = startOf tsFrom bucketS other ↔
      startOf tsFrom bucketS other ≤ ts ∧ ts < startOf tsFrom bucketS other + bucketS := by
  constructor
  · intro h
    exact ⟨h ▸ startOf_le hw ts, h ▸ lt_startOf_add hw ts⟩
  · rintro ⟨hlo, hhi⟩
    rw [startOf] at hlo hhi
    have hfloor : ⌊(ts - tsFrom) / bucketS⌋ = ⌊(other - tsFrom) / bucketS⌋ := by
      rw [Int.floor_eq_iff, le_div_iff₀ hw, div_lt_iff₀ hw]
      constructor <;> linarith
    rw [startOf, startOf, hfloor]

theorem holds_iff (hw : 0 < bucketS) {b : BucketReport K} {s other : PingSample K}
    (hb : startOf tsFrom bucketS other.ts = b.bucketStart) :
    b.holds bucketS s = true ↔ startOf tsFrom bucketS s.ts = b.bucketStart := by
  rw [← hb, startOf_eq_iff hw, BucketReport.holds, ← hb, Bool.and_eq_true, decide_eq_true_eq,
    decide_eq_true_eq]

theorem Counts.of_mem (h : Counts f g) (F : BucketReport K → ℕ) (hF : ∀ b, F b.report = f b)
    (hw : 0 < bucketS)
    {b : BucketReport K} (hb : b ∈ queryBuckets table hostId tsFrom tsTo bucketS) :
    F b = (((selected table hostId tsFrom tsTo).filter (b.holds bucketS)).map
      fun s => g s.latencyMs).sum := by
  obtain ⟨c, hc, rfl⟩ := exists_of_mem_queryBuckets hb
  obtain ⟨other, -, hother⟩ := (isSome_get?_bucketsOf ..).mp (Option.isSome_of_eq_some hc)
  have hcount := h.get?_bucketsOf tsFrom bucketS (selectedInOrder table hostId tsFrom tsTo)
    c.report.bucketStart
  rw [hc, Option.map_some, Option.getD_some] at hcount
  have hholds (s : PingSample K) : c.report.holds bucketS s =
      decide (startOf tsFrom bucketS s.ts = c.report.bucketStart) := by
    rw [Bool.eq_iff_iff, holds_iff hw hother, decide_eq_true_iff]
  rw [hF, hcount, List.filter_congr fun s _ => hholds s]
  exact (((perm_selectedInOrder ..).filter _).map _).sum_eq

/-- Every row is of the time of a bucket. -/
theorem exists_bucket (hw : 0 < bucketS) {s : PingSample K}
    (hs : s ∈ selected table hostId tsFrom tsTo) :
    ∃ b ∈ queryBuckets table hostId tsFrom tsTo bucketS, b.holds bucketS s = true := by
  have hrow := (perm_selectedInOrder ..).mem_iff.mpr hs
  obtain ⟨c, hc⟩ := Option.isSome_iff_exists.mp
    ((isSome_get?_bucketsOf tsFrom bucketS _ _).mpr ⟨s, hrow, rfl⟩)
  have hstart : startOf tsFrom bucketS s.ts = c.report.bucketStart := (Keyed.key_of_get? hc).symm
  refine ⟨c.report, (perm_queryBuckets ..).mem_iff.mpr (List.mem_map_of_mem ?_),
    (holds_iff hw hstart).mpr hstart⟩
  exact (Keyed.get?_eq_some.mp hc).1

end

end Wifucked.Netmon
