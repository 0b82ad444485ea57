import Wifucked.Lib.Runs
import Wifucked.Netmon.Views

/-!
# A host monitor and the sample history

The monitor of a host counts its pings in memory, for the dashboard, and records
each in the table, which other threads write to as well. What the dashboard
shows is what the queries find from the start of the monitor on, however the
threads take turns, but for the one ping that is not recorded yet.
-/

namespace Wifucked.Netmon

-- ---------------------------------------------------------------------------
-- The monitor
-- ---------------------------------------------------------------------------

def historyLen : ℕ := 180

inductive HostStatus where
  | unknown
  | up
  | down
  deriving DecidableEq, Repr

structure HostMonitor (K : Type) where
  /-- The times and latencies of the last pings. -/
  history : List (K × Option K)
  total : ℕ
  success : ℕ
  fail : ℕ
  consecutiveFail : ℕ
  status : HostStatus
  lastChangeTs : K
  deriving DecidableEq, Repr

variable {K : Type}

def HostMonitor.new (now : K) : HostMonitor K := ⟨[], 0, 0, 0, 0, .unknown, now⟩

/-- What `_run` does with a ping under its lock. -/
def HostMonitor.sample (m : HostMonitor K) (now : K) (latency : Option K) : HostMonitor K :=
  let status : HostStatus := if latency.isSome then .up else .down
  { history := (m.history ++ [(now, latency)]).rtake historyLen
    total := m.total + 1
    success := if latency.isSome then m.success + 1 else m.success
    fail := if latency.isSome then m.fail else m.fail + 1
    consecutiveFail := if latency.isSome then 0 else m.consecutiveFail + 1
    status := status
    lastChangeTs := if status ≠ m.status then now else m.lastChangeTs }

/-- A monitor's thread, which has not recorded the pending ping, and the table. -/
structure Watched (K : Type) where
  monitor : HostMonitor K
  pending : Option (PingSample K)
  table : List (PingSample K)
  deriving DecidableEq, Repr

inductive Turn (K : Type) where
  /-- A ping of the thread ends. -/
  | ping (now : K) (latency : Option K)
  /-- The thread comes to `record_ping`. -/
  | record
  /-- Another thread records a ping. -/
  | other (row : PingSample K)

/-- One turn; the thread pings only when it has recorded its last ping. -/
def turn (hostId : String) (w : Watched K) : Turn K → Watched K
  | .ping now latency =>
    match w.pending with
    | none =>
      { w with monitor := w.monitor.sample now latency, pending := some ⟨hostId, now, latency⟩ }
    | some _ => w
  | .record => { w with pending := none, table := w.table ++ w.pending.toList }
  | .other row => { w with table := w.table ++ [row] }

def Watched.recorded (w : Watched K) : List (PingSample K) := w.table ++ w.pending.toList

-- ---------------------------------------------------------------------------
-- What the monitor has counted
-- ---------------------------------------------------------------------------

def PingSample.up (s : PingSample K) : Bool := s.latencyMs.isSome

def PingSample.status (s : PingSample K) : HostStatus := if s.latencyMs.isSome then .up else .down

def statusAfter (samples : List (PingSample K)) : HostStatus :=
  (samples.getLast?.map PingSample.status).getD .unknown

def lasting (samples : List (PingSample K)) (status : HostStatus) : List (PingSample K) :=
  samples.rtakeWhile fun s => s.status = status

/-- The monitor is as pings leave it that were of these samples. -/
structure Counted (started : K) (m : HostMonitor K) (samples : List (PingSample K)) : Prop where
  history : m.history = (samples.map fun s => (s.ts, s.latencyMs)).rtake historyLen
  total : m.total = samples.length
  success : m.success = samples.countP PingSample.up
  fail : m.fail = samples.countP PingSample.down
  consecutiveFail : m.consecutiveFail = (samples.rtakeWhile PingSample.down).length
  status : m.status = statusAfter samples
  lastChangeTs : m.lastChangeTs = ((lasting samples m.status).head?.map (·.ts)).getD started

theorem rtake_rtake_concat {α : Type} (l : List α) (a : α) (n : ℕ) :
    (l.rtake n ++ [a]).rtake n = (l ++ [a]).rtake n := by
  cases n with
  | zero => simp
  | succ n =>
    rw [List.rtake_concat_succ, List.rtake_concat_succ]
    simp [List.rtake_eq_reverse_take_reverse, List.take_take]

theorem statusAfter_concat (samples : List (PingSample K)) (s : PingSample K) :
    statusAfter (samples ++ [s]) = s.status := by
  simp [statusAfter]

theorem lasting_ne_nil_iff (samples : List (PingSample K)) (s : PingSample K) :
    lasting samples s.status ≠ [] ↔ statusAfter samples = s.status := by
  induction samples using List.reverseRecOn with
  | nil => cases h : s.latencyMs <;> simp [lasting, statusAfter, PingSample.status, h]
  | append_singleton samples last _ =>
    rw [statusAfter_concat, lasting, List.rtakeWhile_concat]
    by_cases h : last.status = s.status <;> simp [h]

theorem lasting_down (rows : List (PingSample K)) :
    lasting rows .down = rows.rtakeWhile PingSample.down := by
  refine congrArg rows.rtakeWhile (funext fun s => ?_)
  cases h : s.latencyMs <;> simp [PingSample.status, PingSample.down, h]

theorem statusAfter_eq_down {rows : List (PingSample K)} :
    statusAfter rows = .down ↔ ∃ s, rows.getLast? = some s ∧ s.down = true := by
  unfold statusAfter
  cases rows.getLast? with
  | none => simp
  | some s => cases h : s.latencyMs <;> simp [PingSample.status, PingSample.down, h]

theorem up_eq (s : PingSample K) : s.up = !s.down := by
  cases h : s.latencyMs <;> simp [PingSample.up, PingSample.down, h]

theorem recent_eq {started : K} {m : HostMonitor K} {samples : List (PingSample K)}
    (h : Counted started m samples) (hshort : m.total ≤ historyLen) :
    m.history.filterMap Prod.snd = samples.filterMap (·.latencyMs) := by
  have hall : m.history = samples.map fun s => (s.ts, s.latencyMs) := by
    rw [h.history, List.rtake, List.length_map, ← h.total, Nat.sub_eq_zero_of_le hshort,
      List.drop_zero]
  rw [hall, List.filterMap_map]
  rfl

theorem success_eq {started : K} {m : HostMonitor K} {samples : List (PingSample K)}
    (h : Counted started m samples) :
    m.success = samples.length - samples.countP PingSample.down := by
  rw [h.success, ← countP_not_down]
  exact congrArg (samples.countP ·) (funext up_eq)

theorem counted_new (started : K) : Counted started (.new started) [] where
  history := by simp [HostMonitor.new]
  total := rfl
  success := rfl
  fail := rfl
  consecutiveFail := rfl
  status := rfl
  lastChangeTs := rfl

theorem counted_sample {started : K} {m : HostMonitor K} (h : Counted started m samples)
    (s : PingSample K) :
    Counted started (m.sample s.ts s.latencyMs) (samples ++ [s]) where
  history := by
    simp only [HostMonitor.sample, h.history, rtake_rtake_concat, List.map_append, List.map_cons,
      List.map_nil]
  total := by simp [HostMonitor.sample, h.total]
  success := by cases hs : s.latencyMs <;> simp [HostMonitor.sample, h.success, PingSample.up, hs]
  fail := by cases hs : s.latencyMs <;> simp [HostMonitor.sample, h.fail, PingSample.down, hs]
  consecutiveFail := by
    cases hs : s.latencyMs <;>
      simp [HostMonitor.sample, h.consecutiveFail, PingSample.down, hs]
  status := by
    rw [statusAfter_concat]
    rfl
  lastChangeTs := by
    have hstatus : (m.sample s.ts s.latencyMs).status = s.status := rfl
    have hlasting : lasting (samples ++ [s]) s.status = lasting samples s.status ++ [s] :=
      List.rtakeWhile_concat_pos _ _ _ (by simp)
    have hne := lasting_ne_nil_iff samples s
    rw [← h.status] at hne
    have hchange : (m.sample s.ts s.latencyMs).lastChangeTs =
        if s.status ≠ m.status then s.ts else m.lastChangeTs := rfl
    rw [hstatus, hlasting, hchange]
    by_cases hsame : m.status = s.status
    · obtain ⟨first, rest, hcons⟩ := List.exists_cons_of_ne_nil (hne.mpr hsame)
      have hlast := h.lastChangeTs
      rw [hsame, hcons] at hlast
      simp [hsame, hcons, hlast]
    · have hnil : lasting samples s.status = [] := by
        by_contra hnot
        exact hsame (hne.mp hnot)
      simp [Ne.symm hsame, hnil]

-- ---------------------------------------------------------------------------
-- Turns
-- ---------------------------------------------------------------------------

section

variable [LinearOrder K]

/-- Where the monitor pings, the clock is past its start and the host's pings
so far; the other threads record other hosts. -/
def Ticks (hostId : String) (started : K) (w : Watched K) : Turn K → Prop
  | .ping now _ => started ≤ now ∧ ∀ s ∈ w.recorded, s.hostId = hostId → s.ts < now
  | .record => True
  | .other row => row.hostId ≠ hostId

def since (hostId : String) (started : K) (rows : List (PingSample K)) : List (PingSample K) :=
  rows.filter fun s => s.hostId = hostId && started ≤ s.ts

/-- The monitor has counted its pings, which came one after another. -/
structure Tracks (hostId : String) (started : K) (w : Watched K) : Prop where
  counts : Counted started w.monitor (since hostId started w.recorded)
  ordered : Ordered (since hostId started w.recorded)
  own : ∀ s ∈ w.pending, s.hostId = hostId

theorem tracks_turn {hostId : String} {started : K} {w : Watched K} {t : Turn K}
    (h : Tracks hostId started w) (ht : Ticks hostId started w t) :
    Tracks hostId started (turn hostId w t) := by
  cases t with
  | record =>
    have hsame : (turn hostId w .record).recorded = w.recorded := by
      simp [turn, Watched.recorded]
    exact ⟨hsame ▸ h.counts, hsame ▸ h.ordered, nofun⟩
  | other row =>
    have hsame : since hostId started (turn hostId w (.other row)).recorded =
        since hostId started w.recorded := by
      have hrow : row.hostId ≠ hostId := ht
      simp [turn, Watched.recorded, since, hrow]
    exact ⟨hsame ▸ h.counts, hsame ▸ h.ordered, h.own⟩
  | ping now latency =>
    cases hpending : w.pending with
    | some s => simpa [turn, hpending] using h
    | none =>
      obtain ⟨hstarted, hlater⟩ := ht
      have hrecorded : since hostId started (turn hostId w (.ping now latency)).recorded =
          since hostId started w.recorded ++ [⟨hostId, now, latency⟩] := by
        simp [turn, hpending, Watched.recorded, since, hstarted]
      have hmonitor : (turn hostId w (.ping now latency)).monitor =
          w.monitor.sample now latency := by
        simp [turn, hpending]
      refine ⟨?_, ?_, ?_⟩
      · rw [hrecorded, hmonitor]
        exact counted_sample h.counts ⟨hostId, now, latency⟩
      · rw [hrecorded, Ordered, List.pairwise_append]
        refine ⟨h.ordered, List.pairwise_singleton _ _, ?_⟩
        intro s hs s' hs'
        obtain rfl := List.mem_singleton.mp hs'
        have hs := List.mem_filter.mp hs
        exact hlater s hs.1 (by simpa using (Bool.and_eq_true_iff.mp hs.2).1)
      · simp [turn, hpending]

theorem tracks_start {hostId : String} {started : K} {table : List (PingSample K)}
    (h : ∀ s ∈ table, s.hostId = hostId → s.ts < started) :
    Tracks hostId started ⟨.new started, none, table⟩ := by
  have hnone : since hostId started (Watched.recorded ⟨.new started, none, table⟩) = [] := by
    simp only [since, Watched.recorded, Option.toList_none, List.append_nil,
      List.filter_eq_nil_iff, Bool.and_eq_true, decide_eq_true_eq, not_and, not_le]
    exact h
  refine ⟨?_, ?_, nofun⟩
  · rw [hnone]
    exact counted_new started
  · rw [hnone]
    exact .nil

end

-- ---------------------------------------------------------------------------
-- The dashboard and the queries
-- ---------------------------------------------------------------------------

section

variable [Field K] [LinearOrder K] [FloorRing K]

def HostMonitor.uptimePct (m : HostMonitor K) : Option K :=
  if m.total = 0 then none else some (rounded 2 ((100 : ℕ) * m.success / m.total))

def HostMonitor.avgLatencyMs (m : HostMonitor K) : Option K :=
  let recent := m.history.filterMap Prod.snd
  if recent = [] then none else some (rounded 2 (recent.sum / recent.length))

/-- What `snapshot` gives of the monitor is what the queries find in the table. -/
structure Shows (m : HostMonitor K) (table : List (PingSample K)) (hostId : String)
    (started now : K) : Prop where
  /-- The history, the status, the failures in a row and the last change. -/
  rows : Counted started m (selectedInOrder table hostId started now)
  total : (querySummary table hostId started now).total = m.total
  success : (querySummary table hostId started now).success = m.success
  fail : (querySummary table hostId started now).fail = m.fail
  uptimePct : (querySummary table hostId started now).uptimePct = m.uptimePct
  avgLatencyMs : m.total ≤ historyLen →
    (querySummary table hostId started now).avgLatencyMs = m.avgLatencyMs
  /-- The newest outage is still on where the host is shown as down, since its
  last change, and all the failures in a row are of it. -/
  outage : ∃ events, queryDropEvents table hostId started now = some events ∧
    (m.status = .down ↔ ∃ e, events.head? = some e ∧ e.ongoing = true) ∧
      ∀ e, events.head? = some e → e.ongoing = true → e.startedTs = m.lastChangeTs ∧
        (querySummary table hostId m.lastChangeTs now).total = m.consecutiveFail

end

section

variable [LinearOrder K] {table : List (PingSample K)} {hostId : String} {started now : K}

theorem selected_eq_since (h : ∀ s ∈ table, s.hostId = hostId → s.ts ≤ now) (started : K) :
    selected table hostId started now = since hostId started table := by
  refine List.filter_congr fun s hs => ?_
  by_cases hhost : s.hostId = hostId
  · simp [hhost, h s hs hhost]
  · simp [hhost]

theorem selectedInOrder_eq_since (h : ∀ s ∈ table, s.hostId = hostId → s.ts ≤ now)
    (hordered : Ordered (since hostId started table)) :
    selectedInOrder table hostId started now = since hostId started table := by
  rw [selectedInOrder, selected_eq_since h]
  exact (hordered.imp fun hlt => le_of_lt hlt).insertionSort_eq

theorem filter_from {before rest : List (PingSample K)} {first : PingSample K}
    (h : Ordered (before ++ first :: rest)) :
    ((before ++ first :: rest).filter fun s => first.ts ≤ s.ts) = first :: rest := by
  obtain ⟨-, hrest, hbefore⟩ := List.pairwise_append.mp h
  have hnone : before.filter (fun s => first.ts ≤ s.ts) = [] := by
    rw [List.filter_eq_nil_iff]
    intro s hs
    simpa using hbefore s hs first List.mem_cons_self
  rw [List.filter_append, hnone, List.nil_append, List.filter_eq_self]
  intro s hs
  simpa using Ordered.head_le hrest rfl hs

theorem since_since {first : K} (h : started ≤ first) (table : List (PingSample K)) :
    since hostId first table = (since hostId started table).filter fun s => first ≤ s.ts := by
  rw [since, since, List.filter_filter]
  refine List.filter_congr fun s _ => ?_
  by_cases hfirst : first ≤ s.ts
  · simp [hfirst, h.trans hfirst]
  · simp [hfirst]

end

section

variable [Field K] [LinearOrder K] [FloorRing K] {w : Watched K} {hostId : String}
  {started now : K}

omit [LinearOrder K] [FloorRing K] in
theorem cast_success {m : HostMonitor K} {samples : List (PingSample K)}
    (h : Counted started m samples) :
    (m.success : K) = samples.length - samples.countP PingSample.down := by
  rw [success_eq h, Nat.cast_sub List.countP_le_length]

/-- The newest outage, where it is still on. -/
theorem ongoing_event {rows : List (PingSample K)} {e : DropEvent K}
    (hhead : (eventsOf rows).reverse.head? = some e) (hongoing : e.ongoing = true) :
    ∃ first rest, rows.rtakeWhile PingSample.down = first :: rest ∧ e.startedTs = first.ts := by
  obtain ⟨closed, hclosed, heq⟩ := eventsOf_eq rows
  rw [heq, List.reverse_append] at hhead
  cases hevent : eventOf (rows.rtakeWhile PingSample.down) true with
  | none =>
    rw [hevent] at hhead
    have he : e ∈ closed := List.mem_reverse.mp (List.mem_of_head? hhead)
    simp [hclosed e he] at hongoing
  | some e' =>
    rw [hevent] at hhead
    obtain rfl : e' = e := by simpa using hhead
    obtain ⟨first, -, hfirst, -, hstarted, -, -⟩ := eventOf_eq_some hevent
    obtain ⟨rest, hrest⟩ := List.head?_eq_some_iff.mp hfirst
    exact ⟨first, rest, hrest, hstarted⟩

/-- An outage that is still on began when the host's status last changed, and has as many
rows as there are failures in a row. -/
theorem outage_of_tracks (h : Tracks hostId started w)
    (hnow : ∀ s ∈ w.recorded, s.hostId = hostId → s.ts ≤ now) {e : DropEvent K}
    (hhead : (eventsOf (since hostId started w.recorded)).reverse.head? = some e)
    (hongoing : e.ongoing = true) :
    e.startedTs = w.monitor.lastChangeTs ∧
      (querySummary w.recorded hostId w.monitor.lastChangeTs now).total =
        w.monitor.consecutiveFail := by
  obtain ⟨first, rest, hrun, hstarted⟩ := ongoing_event hhead hongoing
  have hdown : w.monitor.status = .down := by
    rw [h.counts.status, statusAfter_eq_down]
    exact (ongoing_eventsOf _).mp ⟨e, hhead, hongoing⟩
  have hchange : w.monitor.lastChangeTs = first.ts := by
    rw [h.counts.lastChangeTs, hdown, lasting_down, hrun]
    rfl
  have hsplit : (since hostId started w.recorded).rdropWhile PingSample.down ++ first :: rest =
      since hostId started w.recorded := hrun ▸ List.rdropWhile_append_rtakeWhile
  have hfirst : started ≤ first.ts := by
    have hmem : first ∈ since hostId started w.recorded := by
      rw [← hsplit]
      simp
    simpa using (Bool.and_eq_true_iff.mp (List.mem_filter.mp hmem).2).2
  refine ⟨by rw [hstarted, hchange], ?_⟩
  have hordered := h.ordered
  rw [← hsplit] at hordered
  rw [querySummary, selected_eq_since hnow, hchange, since_since hfirst, ← hsplit,
    filter_from hordered, h.counts.consecutiveFail, hrun]

theorem shows_of_tracks (h : Tracks hostId started w)
    (hnow : ∀ s ∈ w.recorded, s.hostId = hostId → s.ts ≤ now) :
    Shows w.monitor w.recorded hostId started now := by
  have hselected := selected_eq_since hnow started
  have hordered := selectedInOrder_eq_since hnow h.ordered
  have htotal : (querySummary w.recorded hostId started now).total = w.monitor.total := by
    rw [querySummary, hselected, h.counts.total]
  have hevents : queryDropEvents w.recorded hostId started now =
      some (eventsOf (since hostId started w.recorded)).reverse := by
    rw [queryDropEvents_eq, hordered]
    rfl
  refine ⟨?_, htotal, ?_, ?_, ?_, ?_, ⟨_, hevents, ?_, ?_⟩⟩
  · rw [hordered]
    exact h.counts
  · rw [querySummary, hselected, success_eq h.counts]
  · rw [querySummary, hselected, h.counts.fail]
  · simp only [querySummary, hselected, HostMonitor.uptimePct, h.counts.total,
      cast_success h.counts, Nat.cast_ofNat]
  · intro hshort
    simp only [querySummary, hselected, HostMonitor.avgLatencyMs, recent_eq h.counts hshort]
  · rw [ongoing_eventsOf, h.counts.status, statusAfter_eq_down]
  · exact fun e hhead hongoing => outage_of_tracks h hnow hhead hongoing

/-- However the threads take turns, the dashboard shows what the queries find,
but for a ping that is not recorded yet. -/
theorem shows_exec {table : List (PingSample K)} {turns : List (Turn K)}
    (htable : ∀ s ∈ table, s.hostId = hostId → s.ts < started)
    (hturns : Runs.Along (turn hostId) (Ticks hostId started) ⟨.new started, none, table⟩ turns)
    (hw : Runs.exec (turn hostId) ⟨.new started, none, table⟩ turns = w)
    (hnow : ∀ s ∈ w.recorded, s.hostId = hostId → s.ts ≤ now) :
    Shows w.monitor (w.table ++ w.pending.toList) hostId started now := by
  have htracks : Tracks hostId started w := by
    rw [← hw]
    exact Runs.exec_of_along (fun w t _ h ht => tracks_turn h ht) hturns (tracks_start htable)
  exact shows_of_tracks htracks hnow

end

def evening : List (Turn ℚ) :=
  [.ping 10 (some 12), .record, .ping 11 none, .other ⟨"nas", 11, some 3⟩, .record, .ping 12 none]

theorem shows_exec_evening :
    Shows (Runs.exec (turn "router") ⟨.new 10, none, [⟨"router", 4, none⟩]⟩ evening).monitor
      [⟨"router", 4, none⟩, ⟨"router", 10, some 12⟩, ⟨"nas", 11, some 3⟩, ⟨"router", 11, none⟩,
        ⟨"router", 12, none⟩] "router" 10 20 := by
  have hturns : Runs.Along (turn "router") (Ticks "router" 10)
      ⟨.new 10, none, [⟨"router", 4, none⟩]⟩ evening := by
    simp [evening, turn, Ticks, Watched.recorded]
    norm_num
  exact shows_exec (by simp; norm_num) hturns rfl (by decide +kernel)

end Wifucked.Netmon
