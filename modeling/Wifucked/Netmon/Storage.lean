import Mathlib.Algebra.Order.Floor.Ring
import Mathlib.Data.List.Sort
import Wifucked.Lib.Keyed
import Wifucked.Lib.Stretches

/-!
# The sample history of the network monitor

A table of pings, and three questions about the pings of one host in a window
of time: how many there were in each bucket, when the host was down, and how
many there were in all.
-/

namespace Wifucked.Netmon

-- ---------------------------------------------------------------------------
-- The table
-- ---------------------------------------------------------------------------

structure PingSample (K : Type) where
  hostId : String
  ts : K
  latencyMs : Option K
  deriving DecidableEq, Repr

variable {K : Type}

def PingSample.down (s : PingSample K) : Bool := s.latencyMs.isNone

section

variable [LinearOrder K]

/-- The rows of a host in a window, the bounds among it. -/
def selected (table : List (PingSample K)) (hostId : String) (tsFrom tsTo : K) :
    List (PingSample K) :=
  table.filter fun s => s.hostId = hostId && tsFrom ≤ s.ts && s.ts ≤ tsTo

def NotAfter (s t : PingSample K) : Prop := s.ts ≤ t.ts

instance : DecidableRel (NotAfter (K := K)) := fun s t => inferInstanceAs (Decidable (s.ts ≤ t.ts))

def selectedInOrder (table : List (PingSample K)) (hostId : String) (tsFrom tsTo : K) :
    List (PingSample K) :=
  (selected table hostId tsFrom tsTo).insertionSort NotAfter

theorem perm_selectedInOrder (table : List (PingSample K)) (hostId : String) (tsFrom tsTo : K) :
    (selectedInOrder table hostId tsFrom tsTo).Perm (selected table hostId tsFrom tsTo) :=
  List.perm_insertionSort _ _

end

section

variable [Field K] [LinearOrder K] [FloorRing K]

/-- Python's `round` to places behind the point: a half goes to the even side. -/
def rounded (places : ℕ) (x : K) : K :=
  let scaled := x * 10 ^ places
  let below := ⌊scaled⌋
  let whole :=
    if scaled - below < 0.5 then below
    else if 0.5 < scaled - below then below + 1
    else if below % 2 = 0 then below
    else below + 1
  whole / 10 ^ places

-- ---------------------------------------------------------------------------
-- Buckets
-- ---------------------------------------------------------------------------

structure Bucket (K : Type) where
  bucketStart : K
  total : ℕ
  success : ℕ
  fail : ℕ
  latencies : List K

def Bucket.empty (bucketStart : K) : Bucket K := ⟨bucketStart, 0, 0, 0, []⟩

def Bucket.add (b : Bucket K) (latency : Option K) : Bucket K :=
  match latency with
  | none => { b with total := b.total + 1, fail := b.fail + 1 }
  | some ms =>
    { b with total := b.total + 1, success := b.success + 1, latencies := b.latencies ++ [ms] }

abbrev Buckets (K : Type) := Keyed (Bucket K) Bucket.bucketStart

/-- The start of the bucket a time falls into. -/
def startOf (tsFrom bucketS ts : K) : K := tsFrom + ⌊(ts - tsFrom) / bucketS⌋ * bucketS

/-- One round of the loop of `query_buckets`. -/
def addRow (tsFrom bucketS : K) (buckets : Buckets K) (s : PingSample K) : Buckets K :=
  let start := startOf tsFrom bucketS s.ts
  buckets.put (((buckets.get? start).getD (.empty start)).add s.latencyMs)

def bucketsOf (tsFrom bucketS : K) (rows : List (PingSample K)) : Buckets K :=
  rows.foldl (addRow tsFrom bucketS) .empty

structure BucketReport (K : Type) where
  bucketStart : K
  total : ℕ
  success : ℕ
  fail : ℕ
  avgLatencyMs : Option K
  deriving DecidableEq, Repr

def Bucket.report (b : Bucket K) : BucketReport K where
  bucketStart := b.bucketStart
  total := b.total
  success := b.success
  fail := b.fail
  avgLatencyMs :=
    if b.latencies = [] then none else some (rounded 2 (b.latencies.sum / b.latencies.length))

def queryBuckets (table : List (PingSample K)) (hostId : String) (tsFrom tsTo bucketS : K) :
    List (BucketReport K) :=
  let buckets := bucketsOf tsFrom bucketS (selectedInOrder table hostId tsFrom tsTo)
  (buckets.values.insertionSort fun b c => b.bucketStart ≤ c.bucketStart).map Bucket.report

-- ---------------------------------------------------------------------------
-- Drop events
-- ---------------------------------------------------------------------------

structure DropEvent (K : Type) where
  startedTs : K
  endedTs : Option K
  durationS : K
  ongoing : Bool
  deriving DecidableEq, Repr

/-- What the loop of `query_drop_events` carries along. -/
structure Dropping (K : Type) where
  events : List (DropEvent K)
  startedTs : Option K
  prevTs : Option K

/-- One round of it. A difference with `None` raises, which is `none` here. -/
def dropRow (d : Dropping K) (s : PingSample K) : Option (Dropping K) :=
  match s.down, d.startedTs with
  | true, none => some { d with startedTs := some s.ts, prevTs := some s.ts }
  | false, some started =>
    d.prevTs.map fun prev =>
      { events := d.events ++ [⟨started, some prev, rounded 1 (prev - started), false⟩]
        startedTs := none
        prevTs := some s.ts }
  | _, _ => some { d with prevTs := some s.ts }

/-- A `prev_ts` of zero counts as none. -/
def lastEvent (started : K) (prevTs : Option K) : DropEvent K where
  startedTs := started
  endedTs := prevTs
  durationS :=
    match prevTs with
    | none => 0
    | some prev => if prev = 0 then 0 else rounded 1 (prev - started)
  ongoing := true

def queryDropEvents (table : List (PingSample K)) (hostId : String) (tsFrom tsTo : K) :
    Option (List (DropEvent K)) :=
  ((selectedInOrder table hostId tsFrom tsTo).foldlM dropRow ⟨[], none, none⟩).map fun d =>
    (d.events ++ (d.startedTs.map fun started => lastEvent started d.prevTs).toList).reverse

-- ---------------------------------------------------------------------------
-- The summary
-- ---------------------------------------------------------------------------

structure Summary (K : Type) where
  total : ℕ
  success : ℕ
  fail : ℕ
  uptimePct : Option K
  avgLatencyMs : Option K
  deriving DecidableEq, Repr

def querySummary (table : List (PingSample K)) (hostId : String) (tsFrom tsTo : K) : Summary K :=
  let rows := selected table hostId tsFrom tsTo
  let total := rows.length
  let fail := rows.countP PingSample.down
  let latencies := rows.filterMap (·.latencyMs)
  { total := total
    success := total - fail
    fail := fail
    uptimePct := if total = 0 then none else some (rounded 2 (100 * (total - fail) / total))
    avgLatencyMs :=
      if latencies = [] then none else some (rounded 2 (latencies.sum / latencies.length)) }

end

end Wifucked.Netmon
