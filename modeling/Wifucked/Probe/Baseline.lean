import Wifucked.Lib.Runs
import Wifucked.Atomics.Registry
import Wifucked.Probe.Budget

/-!
# What a window is measured against

Counters belong to an interface, and what was read of them is kept under the
connection. A connection may be away for a while, and come back with another
interface.
-/

namespace Wifucked

variable {K : Type}

/-- A reading of a connection's counters: on which interface, and in which of
its stays. -/
structure CounterRead (K : Type) where
  id : String
  ifname : String
  stay : ℕ
  counted : Counted K

structure Watching (K : Type) where
  registry : Registry K
  last : Readings K
  /-- How many sweeps a connection was away for. -/
  stay : String → ℕ
  /-- All readings, the latest first. -/
  log : List (CounterRead K)

inductive Watch (K : Type) where
  | sweep (now : K) (seen : List (Atomic K))
  | look (id : String) (reading : PassiveReading K)

namespace Watching

def init (registry : Registry K) : Watching K := ⟨registry, .empty, fun _ => 0, []⟩

def there (s : Watching K) (id : String) : Option (Atomic K) :=
  (s.registry.get? id).filter (·.present)

def latest (s : Watching K) (id : String) : Option (CounterRead K) := s.log.find? fun r => r.id = id

variable [Field K] [LinearOrder K] [FloorRing K]

def step (s : Watching K) : Watch K → Watching K
  | .sweep now seen =>
    let registry := s.registry.observe now seen
    { s with
      registry
      stay := fun id =>
        if (registry.get? id).any (·.present) then s.stay id else s.stay id + 1 }
  | .look id reading =>
    match s.there id with
    | none => s
    | some atomic =>
      { s with
        last := (observePassively s.last atomic reading).1
        log :=
          match atomic.iface with
          | none => s.log
          | some ifname => ⟨id, ifname, s.stay id, reading.toCounted⟩ :: s.log }

def observed (s : Watching K) (id : String) (reading : PassiveReading K) : Option (Observation K) :=
  (s.there id).bind fun atomic => (observePassively s.last atomic reading).2

/-- The figures of a window between two readings: whether it was saturated, and
both rates. -/
def figures (previous : Counted K) (reading : PassiveReading K) : Bool × Int × Int :=
  (reading.backlogBytes > 0 || reading.drops > previous.drops,
    throughput (reading.now - previous.now) previous.rxBytes reading.rxBytes,
    throughput (reading.now - previous.now) previous.txBytes reading.txBytes)

/-- What is returned compares a reading with the one before, of the same
interface in the same stay. -/
def Comparable (s : Watching K) : Watch K → Prop
  | .sweep .. => True
  | .look id reading => ∀ o ∈ s.observed id reading, ∃ r ∈ s.latest id,
      LinuxProber.window o = figures r.counted reading ∧
        (s.there id).bind (·.iface) = some r.ifname ∧ s.stay id = r.stay

/-- Where a connection is read that was read at an earlier time, it has not
been away since, and has the interface it had. -/
def Unbroken (s : Watching K) : Watch K → Prop
  | .sweep .. => True
  | .look id reading => ∀ atomic ∈ s.there id, ∀ ifname ∈ atomic.iface, ∀ r ∈ s.latest id,
      0 < reading.now - r.counted.now → ifname = r.ifname ∧ s.stay id = r.stay

/-- The prober keeps the latest reading of each connection. -/
def Kept (s : Watching K) : Prop :=
  ∀ id, s.last.get? id = (s.latest id).map fun r => (id, r.counted)

omit [Field K] [LinearOrder K] [FloorRing K] in
theorem kept_init (registry : Registry K) : (init registry).Kept := fun _ => rfl

omit [Field K] [LinearOrder K] [FloorRing K] in
theorem id_of_there {s : Watching K} {id : String} (h : s.there id = some atomic) :
    atomic.id = id :=
  Keyed.key_of_get? (Option.filter_eq_some_iff.mp h).1

theorem kept_step {s : Watching K} (h : s.Kept) (i : Watch K) : (s.step i).Kept := by
  cases i with
  | sweep now seen => exact h
  | look id reading =>
    simp only [step]
    split
    · exact h
    · rename_i atomic hthere
      cases hiface : atomic.iface with
      | none =>
        intro j
        simp only [observePassively, hiface]
        exact h j
      | some ifname =>
        intro j
        have hid := id_of_there hthere
        simp only [observePassively, hiface, Keyed.get?_put, latest, List.find?_cons, hid]
        by_cases hj : id = j
        · simp [hj]
        · simpa [hj, latest] using h j

theorem comparable_iff_unbroken {s : Watching K} (h : s.Kept) (i : Watch K) :
    s.Comparable i ↔ s.Unbroken i := by
  cases i with
  | sweep now seen => exact Iff.rfl
  | look id reading =>
    simp only [Comparable, Unbroken, observed]
    cases hthere : s.there id with
    | none => simp
    | some atomic =>
      simp only [Option.mem_def, Option.bind_some, Option.some.injEq, forall_eq', observePassively]
      cases hiface : atomic.iface with
      | none => simp
      | some ifname =>
        rw [id_of_there hthere, h id]
        cases hlatest : s.latest id with
        | none => simp
        | some r =>
          simp only [Option.map_some, Option.bind_some, Option.some.injEq, forall_eq',
            exists_eq_left']
          split
          · rename_i hle
            simp [not_lt.mpr hle]
          · rename_i hlt
            simp [not_le.mp hlt, LinuxProber.window, figures]

/-- In every run of sweeps and looks, what is returned compares readings of one
interface in one stay, just where every connection that is read again has been
there all the time, with the interface it had. -/
theorem comparable_iff (registry : Registry K) (is : List (Watch K)) :
    Runs.Along step Comparable (init registry) is ↔ Runs.Along step Unbroken (init registry) is :=
  Runs.along_iff (fun _ i h _ => kept_step h i) (fun _ i h => comparable_iff_unbroken h i)
    (kept_init registry)

instance (s : Watching K) : ∀ i, Decidable (s.Comparable i)
  | .sweep .. => .isTrue trivial
  | .look id reading => inferInstanceAs (Decidable (∀ o ∈ s.observed id reading,
      ∃ r ∈ s.latest id, LinuxProber.window o = figures r.counted reading ∧
        (s.there id).bind (·.iface) = some r.ifname ∧ s.stay id = r.stay))

theorem compared_across_an_absence :
    ¬Runs.Along step Comparable (init .empty)
      [.sweep 0 [cable "eth1"], .look "eth1" ⟨⟨0, 1000, 1000, 0⟩, 0⟩, .sweep 10 [],
        .sweep 20 [{ cable "eth1" with ifname := some "eth2" }],
        .look "eth1" ⟨⟨20, 500000000, 20000000, 3⟩, 0⟩] := by
  decide +kernel

end Watching

end Wifucked
