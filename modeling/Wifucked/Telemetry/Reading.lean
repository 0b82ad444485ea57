import Wifucked.Lib.Limits
import Wifucked.Telemetry

/-!
# The decisions that are read back

`recent_decisions` reads from the memory alone, or from the database with what
waits in the buffer before it. `loads` is `json.loads`.
-/

namespace Wifucked

variable {K J : Type}

/-- How far SQLite gets with a query. -/
inductive Query where
  | unprepared
  | unread
  | read
  deriving DecidableEq

def Decision.ofRow (loads : String → Option J) (row : Decision K String) :
    Option (Decision K J) := do
  let inputs ← loads row.inputs
  let thresholds ← loads row.thresholds
  return { row with inputs, thresholds }

def fitsSqlite (n : ℤ) : Bool := -9223372036854775808 ≤ n && n < 9223372036854775808

section

variable [LinearOrder K]

def Decision.NotBefore (d e : Decision K J) : Prop := e.recordedAt ≤ d.recordedAt

instance : DecidableRel (Decision.NotBefore (K := K) (J := J)) :=
  fun d e => inferInstanceAs (Decidable (e.recordedAt ≤ d.recordedAt))

/-- `ORDER BY at DESC LIMIT ?`, which reads the index on `at` from its end: of
equal times the later row comes first. -/
def Database.newest (db : Database K) (limit : ℤ) : List (Decision K String) :=
  let rows := (db.decisions.rows.map (·.values)).reverse
  Limits.limited (rows.insertionSort Decision.NotBefore) limit

/-- What `recent_decisions` has of the database. `none` is the `OverflowError`
over a limit that is no integer to SQLite; any error of a query or a text is logged. -/
def Database.stored (loads : String → Option J) (db : Database K) (limit : ℤ) (query : Query) :
    Option (List (Decision K J)) :=
  if query = .unprepared then some []
  else if !fitsSqlite limit then none
  else if query = .unread then some []
  else some (((db.newest limit).mapM (Decision.ofRow loads)).getD [])

def Telemetry.recentDecisions (loads : String → Option J) (t : Telemetry K J) (limit : ℤ)
    (query : Query) : Option (List (Decision K J)) :=
  match t.conn with
  | none => some (Limits.onFrom t.recent (-limit)).reverse
  | some db => do
    let stored ← db.stored loads limit query
    return Limits.upTo (t.buffer.decisions.reverse ++ stored) limit

end

/-- The limit that `api_decisions` reads for the one it is asked for. -/
def apiLimit (asked : ℤ) : ℤ := min asked 500

def lastRecorded (limit : ℤ) (recorded : List (Decision K J)) : List (Decision K J) :=
  (recorded.rtake (max limit 0).toNat).reverse

-- ---------------------------------------------------------------------------
-- Rows and what they are read as
-- ---------------------------------------------------------------------------

def Survives (dumps : J → Option String) (loads : String → Option J) (j : J) : Prop :=
  (dumps j).bind loads = some j

def Decision.Survives (dumps : J → Option String) (loads : String → Option J) (d : Decision K J) :
    Prop :=
  Wifucked.Survives dumps loads d.inputs ∧ Wifucked.Survives dumps loads d.thresholds

variable {dumps : J → Option String} {loads : String → Option J}

theorem Decision.Survives.row {d : Decision K J} (h : d.Survives dumps loads) :
    ∃ row, d.row dumps = some row ∧ Decision.ofRow loads row = some d := by
  obtain ⟨inputs, hinputs, hi⟩ := Option.bind_eq_some_iff.mp h.1
  obtain ⟨thresholds, hthresholds, ht⟩ := Option.bind_eq_some_iff.mp h.2
  refine ⟨{ d with inputs, thresholds }, ?_, ?_⟩
  · simp [Decision.row, hinputs, hthresholds]
  · simp [Decision.ofRow, hi, ht]

theorem recordedAt_of_ofRow {row : Decision K String} {d : Decision K J}
    (h : Decision.ofRow loads row = some d) : d.recordedAt = row.recordedAt := by
  obtain ⟨inputs, -, h⟩ := Option.bind_eq_some_iff.mp h
  obtain ⟨thresholds, -, h⟩ := Option.bind_eq_some_iff.mp h
  obtain rfl := Option.some.inj h
  rfl

theorem mapM_eq_some_iff {α β : Type} {f : α → Option β} {l : List α} {m : List β} :
    l.mapM f = some m ↔ List.Forall₂ (fun a b => f a = some b) l m := by
  induction l generalizing m with
  | nil => simp [eq_comm]
  | cons a l ih =>
    rw [List.mapM_cons]
    constructor
    · intro h
      obtain ⟨b, hb, h⟩ := Option.bind_eq_some_iff.mp h
      obtain ⟨bs, hbs, h⟩ := Option.bind_eq_some_iff.mp h
      obtain rfl := Option.some.inj h
      exact .cons hb (ih.mp hbs)
    · rintro (_ | ⟨hb, hbs⟩)
      simp [hb, ih.mpr hbs]

theorem exists_mapM_eq_some {α β : Type} {f : α → Option β} {l : List α}
    (h : ∀ a ∈ l, ∃ b, f a = some b) : ∃ m, l.mapM f = some m := by
  induction l with
  | nil => exact ⟨[], rfl⟩
  | cons a l ih =>
    obtain ⟨⟨b, hb⟩, h⟩ := List.forall_mem_cons.mp h
    obtain ⟨m, hm⟩ := ih h
    exact ⟨b :: m, by simp [hb, hm]⟩

def ReadAs (loads : String → Option J) (rows : List (Decision K String))
    (stored : List (Decision K J)) : Prop :=
  List.Forall₂ (fun row d => Decision.ofRow loads row = some d) rows stored

section

variable {rows : List (Decision K String)} {stored : List (Decision K J)}

theorem ReadAs.times (h : ReadAs loads rows stored) :
    rows.map (·.recordedAt) = stored.map (·.recordedAt) := by
  induction h with
  | nil => rfl
  | cons hrow _ ih => rw [List.map_cons, List.map_cons, ih, recordedAt_of_ofRow hrow]

theorem ReadAs.readable (h : ReadAs loads rows stored) :
    ∀ row ∈ rows, ∃ d, Decision.ofRow loads row = some d := by
  induction h with
  | nil => simp
  | cons hrow _ ih => exact List.forall_mem_cons.mpr ⟨⟨_, hrow⟩, ih⟩

theorem ReadAs.reverse_take (h : ReadAs loads rows stored) (n : ℕ) :
    ReadAs loads (rows.reverse.take n) (stored.reverse.take n) :=
  List.forall₂_take n (List.rel_reverse h)

theorem readAs_rows (h : stored.mapM (Decision.row dumps) = some rows)
    (hsurvive : ∀ d ∈ stored, d.Survives dumps loads) : ReadAs loads rows stored := by
  rw [mapM_eq_some_iff] at h
  induction h with
  | nil => exact .nil
  | cons hrow _ ih =>
    obtain ⟨hd, hsurvive⟩ := List.forall_mem_cons.mp hsurvive
    obtain ⟨row, hrow', hread⟩ := hd.row
    obtain rfl := Option.some.inj (hrow.symm.trans hrow')
    exact .cons hread (ih hsurvive)

end

theorem lastRecorded_append {limit : ℤ} (hlimit : 0 ≤ limit)
    (stored buffered : List (Decision K J)) :
    lastRecorded limit (stored ++ buffered) =
      buffered.reverse.take limit.toNat ++
        stored.reverse.take (limit.toNat - buffered.length) := by
  rw [lastRecorded, List.rtake_eq_reverse_take_reverse, List.reverse_reverse,
    List.reverse_append, List.take_append, List.length_reverse, max_eq_left hlimit]

theorem lastRecorded_of_nonpos {limit : ℤ} (hlimit : limit ≤ 0)
    (recorded : List (Decision K J)) :
    lastRecorded limit recorded = [] := by
  simp [lastRecorded, hlimit]

theorem rtake_rtake {α : Type} {m n : ℕ} (h : m ≤ n) (l : List α) :
    (l.rtake n).rtake m = l.rtake m := by
  rw [List.rtake_eq_reverse_take_reverse, List.rtake_eq_reverse_take_reverse,
    List.rtake_eq_reverse_take_reverse, List.reverse_reverse, List.take_take, Nat.min_eq_left h]

-- ---------------------------------------------------------------------------
-- Histories
-- ---------------------------------------------------------------------------

theorem forall_mem_concat {α : Type} {p : α → Prop} {l : List α} {a : α} (h : ∀ b ∈ l, p b)
    (ha : p a) : ∀ b ∈ l ++ [a], p b := by
  simpa [or_imp, forall_and] using ⟨h, ha⟩

inductive HistoryCall (K J : Type) where
  | call (c : TelemetryCall K J)
  /-- The daemon is stopped and started again. -/
  | reopen (closed opened : K) (trims : Bool)

/-- The call loses nothing: the dictionaries are what JSON can say, and SQLite
commits what is inserted. -/
def TelemetryCall.Commits [EmptyCollection J] (dumps : J → Option String)
    (loads : String → Option J) : TelemetryCall K J → Prop
  | .recordDecision _ _ _ inputs thresholds =>
    Survives dumps loads inputs ∧ Survives dumps loads (thresholds.getD ∅)
  | .recordEvent _ _ detail _ => (dumps detail).isSome
  | .recordSample .. => True
  | .flush _ inserts _ => inserts = true

def HistoryCall.Commits [EmptyCollection J] (dumps : J → Option String)
    (loads : String → Option J) : HistoryCall K J → Prop
  | .call c => c.Commits dumps loads
  | .reopen .. => True

namespace Journaled

def inMemory (retain : Retain) (now : K) : Journaled K J where
  telemetry := .init retain none now
  recorded := .new
  batches := []

structure Whole (dumps : J → Option String) (loads : String → Option J) (retain : Retain)
    (s : Journaled K J) : Prop where
  sound : ∃ db, Sound dumps retain db s
  commits : ∀ b ∈ s.batches, b.2 = true
  decisions : ∀ d ∈ s.recorded.decisions, d.Survives dumps loads
  events : ∀ e ∈ s.recorded.events, (dumps e.detail).isSome

variable {retain : Retain} {s : Journaled K J}

theorem whole_start (retain : Retain) (now : K) :
    Whole dumps loads retain (start retain now : Journaled K J) where
  sound := ⟨.new, sound_start retain now⟩
  commits := by simp [start]
  decisions := by simp [start, Buffer.new]
  events := by simp [start, Buffer.new]

theorem Whole.not_lost (h : Whole dumps loads retain s) (now : K) (trims : Bool) :
    s.flushed dumps now true trims ≠ .lost := by
  obtain ⟨db, hsound⟩ := h.sound
  have hdecisions : ∃ rows, s.telemetry.buffer.decisions.mapM (Decision.row dumps) = some rows := by
    refine exists_mapM_eq_some fun d hd => ?_
    have hmem : d ∈ s.recorded.decisions := by
      rw [hsound.decisions.parts]
      exact List.mem_append_right _ hd
    obtain ⟨row, hrow, -⟩ := (h.decisions d hmem).row
    exact ⟨row, hrow⟩
  have hevents : ∃ rows, s.telemetry.buffer.events.mapM (EventRecord.row dumps) = some rows := by
    refine exists_mapM_eq_some fun e he => ?_
    have hmem : e ∈ s.recorded.events := by
      rw [hsound.events.parts]
      exact List.mem_append_right _ he
    obtain ⟨detail, hdetail⟩ := Option.isSome_iff_exists.mp (h.events e hmem)
    exact ⟨{ e with detail }, by simp [EventRecord.row, hdetail]⟩
  obtain ⟨decisions, hdecisions⟩ := hdecisions
  obtain ⟨events, hevents⟩ := hevents
  unfold flushed Telemetry.flush
  rw [hsound.conn]
  simp only [Database.insert, hdecisions, hevents]
  cases s.telemetry.buffer.empty <;> cases trims <;> simp [Option.filter]

theorem committed_of_all {R : Type} {batches : List (List R × Bool)}
    (h : ∀ b ∈ batches, b.2 = true) : committed batches = batches.flatMap (·.1) := by
  rw [committed, List.filter_eq_self.mpr h]

theorem Whole.readAs (h : Whole dumps loads retain s)
    (hkept : (s.recorded.decisions.length : ℤ) ≤ retain.decisions) :
    ∃ db stored, s.telemetry.conn = some db ∧
      ReadAs loads (db.decisions.rows.map (·.values)) stored ∧
      s.recorded.decisions = stored ++ s.telemetry.buffer.decisions := by
  obtain ⟨db, hsound⟩ := h.sound
  obtain ⟨written, hwritten, hholds⟩ := hsound.decisions.history
  have hall : ∀ b ∈ s.of (·.decisions), b.2 = true := by
    intro b hb
    obtain ⟨batch, hbatch, rfl⟩ := List.mem_map.mp hb
    exact h.commits batch hbatch
  have hparts := hsound.decisions.parts
  rw [← committed_of_all hall] at hparts
  refine ⟨db, committed (s.of (·.decisions)), hsound.conn, ?_, hparts⟩
  have hlength := (mapM_eq_some_iff.mp hwritten).length_eq
  have hrecorded := congrArg List.length hparts
  rw [List.length_append] at hrecorded
  obtain ⟨m, hm, hrows⟩ := hholds.rows
  obtain rfl : m = 0 := by omega
  rw [hrows, List.drop_zero, Journal.map_values_numbered]
  refine readAs_rows hwritten fun d hd => h.decisions d ?_
  rw [hparts]
  exact List.mem_append_left _ hd

structure Remembering (s : Journaled K J) : Prop where
  conn : s.telemetry.conn = none
  recent : s.telemetry.recent = s.recorded.decisions.rtake 200

theorem remembering_start (retain : Retain) (now : K) :
    Remembering (inMemory retain now : Journaled K J) :=
  ⟨rfl, by simp [inMemory, Telemetry.init, Buffer.new]⟩

variable [EmptyCollection J]

/-- `close`, and a new `Telemetry` over the same file. -/
def reopen (dumps : J → Option String) (s : Journaled K J) (closed opened : K) (trims : Bool) :
    Journaled K J :=
  let s := s.step dumps (.flush closed true trims)
  { s with telemetry := .init s.telemetry.retain s.telemetry.conn opened }

def live (dumps : J → Option String) (s : Journaled K J) : HistoryCall K J → Journaled K J
  | .call c => s.step dumps c
  | .reopen closed opened trims => s.reopen dumps closed opened trims

theorem whole_flush (h : Whole dumps loads retain s) (now : K) (trims : Bool) :
    Whole dumps loads retain (s.step dumps (.flush now true trims)) where
  sound := by
    obtain ⟨db, hsound⟩ := h.sound
    exact sound_step hsound _
  commits := by
    have hnot := h.not_lost now trims
    simp only [step]
    cases hflushed : s.flushed dumps now true trims with
    | idle => exact h.commits
    | lost => exact absurd hflushed hnot
    | untrimmed => exact forall_mem_concat h.commits rfl
    | trimmed => exact forall_mem_concat h.commits rfl
  decisions := h.decisions
  events := h.events

theorem whole_step (h : Whole dumps loads retain s) {call : TelemetryCall K J}
    (hcall : call.Commits dumps loads) : Whole dumps loads retain (s.step dumps call) := by
  obtain ⟨db, hsound⟩ := h.sound
  have hnext := sound_step hsound call
  cases call with
  | recordDecision wall action reason inputs thresholds =>
    exact ⟨hnext, h.commits, forall_mem_concat h.decisions hcall, h.events⟩
  | recordEvent wall kind detail subject =>
    exact ⟨hnext, h.commits, h.decisions, forall_mem_concat h.events hcall⟩
  | recordSample wall atomicId downBps upBps rttMs lossPct =>
    exact ⟨hnext, h.commits, h.decisions, h.events⟩
  | flush now inserts trims =>
    obtain rfl : inserts = true := hcall
    exact whole_flush h now trims

theorem whole_live (h : Whole dumps loads retain s) {call : HistoryCall K J}
    (hcall : call.Commits dumps loads) : Whole dumps loads retain (s.live dumps call) := by
  cases call with
  | call c => exact whole_step h hcall
  | reopen closed opened trims =>
    have hflush := whole_flush h closed trims
    obtain ⟨db, hlimits, hconn, hd, he, hs⟩ := hflush.sound
    have hbuffer : (s.step dumps (.flush closed true trims)).telemetry.buffer = .new :=
      (s.telemetry.flush_fields dumps closed true trims).1
    rw [hbuffer] at hd he hs
    exact ⟨⟨db, hlimits, hconn, hd, he, hs⟩, hflush.commits, hflush.decisions, hflush.events⟩

theorem remembering_step (h : Remembering s) (call : TelemetryCall K J) :
    Remembering (s.step dumps call) := by
  obtain ⟨hconn, hrecent⟩ := h
  cases call with
  | recordDecision wall action reason inputs thresholds =>
    refine ⟨hconn, ?_⟩
    simp only [step, Telemetry.recordDecision, hrecent]
    rw [List.rtake_concat_succ, List.rtake_concat_succ, rtake_rtake (Nat.le_succ 199)]
  | recordEvent wall kind detail subject => exact ⟨hconn, hrecent⟩
  | recordSample wall atomicId downBps upBps rttMs lossPct => exact ⟨hconn, hrecent⟩
  | flush now inserts trims =>
    simp only [step, Telemetry.flush, hconn]
    exact ⟨rfl, hrecent⟩

end Journaled

-- ---------------------------------------------------------------------------
-- From the database
-- ---------------------------------------------------------------------------

variable [LinearOrder K]

/-- What the clock said has to bear out the order of recording of the stored
decisions that are asked for; a negative limit has to be below the whole history. -/
structure ReadInOrder (limit : ℤ) (recorded : List (Decision K J)) (buffered : ℕ) : Prop where
  fits : fitsSqlite limit
  negative : limit < 0 → (recorded.length : ℤ) ≤ -limit
  clock : 0 < limit →
    Limits.Leads Decision.NotBefore (limit.toNat - buffered) (recorded.reverse.drop buffered)

instance (limit : ℤ) (recorded : List (Decision K J)) (buffered : ℕ) :
    Decidable (ReadInOrder limit recorded buffered) :=
  decidable_of_iff (fitsSqlite limit ∧ (limit < 0 → (recorded.length : ℤ) ≤ -limit) ∧
      (0 < limit → Limits.Leads Decision.NotBefore (limit.toNat - buffered)
        (recorded.reverse.drop buffered)))
    ⟨fun h => ⟨h.1, h.2.1, h.2.2⟩, fun h => ⟨h.fits, h.negative, h.clock⟩⟩

section

variable {db : Database K} {stored buffered : List (Decision K J)} {limit : ℤ}

instance : IsTrans (Decision K J) Decision.NotBefore :=
  ⟨fun _ _ _ hde hef => le_trans hef hde⟩

instance : Std.Total (Decision.NotBefore (K := K) (J := J)) :=
  ⟨fun d e => le_total e.recordedAt d.recordedAt⟩

theorem leads_times (n : ℕ) (l : List (Decision K J)) :
    Limits.Leads Decision.NotBefore n l ↔ Limits.Leads (· ≥ ·) n (l.map (·.recordedAt)) := by
  rw [Limits.leads_map]
  rfl

theorem mem_newest {row : Decision K String} (h : row ∈ db.newest limit) :
    row ∈ db.decisions.rows.map (·.values) := by
  have hsorted : row ∈ (db.decisions.rows.map (·.values)).reverse.insertionSort
      Decision.NotBefore := by
    unfold Database.newest Limits.limited at h
    split at h
    · exact h
    · exact List.mem_of_mem_take h
  exact List.mem_reverse.mp ((List.mem_insertionSort _).mp hsorted)

theorem exists_stored (h : ReadAs loads (db.decisions.rows.map (·.values)) stored)
    (hfits : fitsSqlite limit) :
    ∃ found, db.stored loads limit .read = some found ∧
      ReadAs loads (db.newest limit) found := by
  obtain ⟨found, hfound⟩ := exists_mapM_eq_some fun row hrow => h.readable row (mem_newest hrow)
  refine ⟨found, ?_, mapM_eq_some_iff.mp hfound⟩
  simp [Database.stored, hfits, hfound]

/-- The start of what is read is the newest of what was stored exactly where the
clock bears that out. -/
theorem take_found_iff (h : ReadAs loads (db.decisions.rows.map (·.values)) stored)
    (hfound : ReadAs loads (db.newest limit) found) (hlimit : 0 ≤ limit) (hn : n ≤ limit.toNat) :
    found.take n = stored.reverse.take n ↔
      Limits.Leads Decision.NotBefore n stored.reverse := by
  set rows := (db.decisions.rows.map (·.values)).reverse with hrows
  have hsorted : ReadAs loads ((rows.insertionSort Decision.NotBefore).take n) (found.take n) := by
    have htake := List.forall₂_take n hfound
    rwa [Database.newest, Limits.limited_of_nonneg hlimit, List.take_take,
      Nat.min_eq_left hn] at htake
  have hstored : ReadAs loads (rows.take n) (stored.reverse.take n) := h.reverse_take n
  have htimes : rows.map (·.recordedAt) = stored.reverse.map (·.recordedAt) :=
    (show ReadAs loads rows stored.reverse from List.rel_reverse h).times
  have hleads : Limits.Leads Decision.NotBefore n stored.reverse ↔
      Limits.Leads Decision.NotBefore n rows := by
    rw [leads_times, leads_times, htimes]
  rw [hleads]
  constructor
  · intro heq
    have hkeys := hsorted.times
    rw [heq, ← hstored.times, List.map_take, List.map_take,
      List.map_insertionSort Decision.NotBefore (· ≥ ·) _ _ (fun _ _ _ _ => Iff.rfl)] at hkeys
    exact (leads_times n rows).mpr ((Limits.take_insertionSort_iff n _).mp hkeys)
  · intro hl
    rw [(Limits.take_insertionSort_iff n rows).mpr hl] at hsorted
    exact Option.some.inj
      ((mapM_eq_some_iff.mpr hsorted).symm.trans (mapM_eq_some_iff.mpr hstored))

theorem length_newest_of_neg (db : Database K) (hlimit : limit < 0) :
    (db.newest limit).length = db.decisions.rows.length := by
  simp [Database.newest, Limits.limited, hlimit]

/-- Above zero, the merged list begins with the end of the history where what is
asked for beyond the buffer is in order. -/
theorem merged_of_pos (hlimit : 0 < limit)
    (h : ReadAs loads (db.decisions.rows.map (·.values)) stored)
    (hfound : ReadAs loads (db.newest limit) found) :
    Limits.upTo (buffered.reverse ++ found) limit = lastRecorded limit (stored ++ buffered) ↔
      Limits.Leads Decision.NotBefore (limit.toNat - buffered.length) stored.reverse := by
  rw [Limits.upTo_of_nonneg hlimit.le, lastRecorded_append hlimit.le, List.take_append,
    List.length_reverse, List.append_cancel_left_eq]
  exact take_found_iff h hfound hlimit.le (Nat.sub_le limit.toNat buffered.length)

theorem merged_of_nonpos (hlimit : limit ≤ 0)
    (h : ReadAs loads (db.decisions.rows.map (·.values)) stored)
    (hfound : ReadAs loads (db.newest limit) found) :
    Limits.upTo (buffered.reverse ++ found) limit = lastRecorded limit (stored ++ buffered) ↔
      (limit < 0 → ((stored ++ buffered).length : ℤ) ≤ -limit) := by
  rw [lastRecorded_of_nonpos hlimit, Limits.upTo_eq_nil_iff hlimit]
  refine imp_congr_right fun hneg => ?_
  have hrows := hfound.length_eq
  have hall := h.length_eq
  rw [length_newest_of_neg db hneg] at hrows
  rw [List.length_map] at hall
  have hlength : (buffered.reverse ++ found).length = (stored ++ buffered).length := by
    simp only [List.length_append, List.length_reverse]
    omega
  rw [hlength]

/-- With a database the answer is the end of the history in these cases only. -/
theorem recentDecisions_conn_iff {t : Telemetry K J} (hconn : t.conn = some db)
    (h : ReadAs loads (db.decisions.rows.map (·.values)) stored)
    (hparts : recorded = stored ++ t.buffer.decisions) :
    t.recentDecisions loads limit .read = some (lastRecorded limit recorded) ↔
      ReadInOrder limit recorded t.buffer.decisions.length := by
  subst hparts
  cases hfits : fitsSqlite limit with
  | false =>
    have hnot : ¬ReadInOrder limit (stored ++ t.buffer.decisions) t.buffer.decisions.length := by
      intro hin
      exact absurd hin.fits (by simp [hfits])
    simp [Telemetry.recentDecisions, hconn, Database.stored, hfits, hnot]
  | true =>
    obtain ⟨found, hstored, hfound⟩ := exists_stored h hfits
    have hanswer : t.recentDecisions loads limit .read =
        some (Limits.upTo (t.buffer.decisions.reverse ++ found) limit) := by
      simp [Telemetry.recentDecisions, hconn, hstored]
    have hdrop : (stored ++ t.buffer.decisions).reverse.drop t.buffer.decisions.length =
        stored.reverse := by
      rw [List.reverse_append]
      exact List.drop_left' (List.length_reverse ..)
    rw [hanswer, Option.some.injEq]
    rcases lt_or_ge 0 limit with hpos | hneg
    · rw [merged_of_pos hpos h hfound, ← hdrop]
      constructor
      · intro hl
        exact ⟨hfits, fun h => absurd h hpos.not_gt, fun _ => hl⟩
      · intro hin
        exact hin.clock hpos
    · rw [merged_of_nonpos hneg h hfound]
      constructor
      · intro hl
        exact ⟨hfits, hl, fun h => absurd h hneg.not_gt⟩
      · intro hin
        exact hin.negative

-- ---------------------------------------------------------------------------
-- From the memory
-- ---------------------------------------------------------------------------

theorem recentDecisions_memory_iff {t : Telemetry K J} (hconn : t.conn = none)
    (hrecent : t.recent = recorded.rtake 200) (hlimit : limit ≤ 200) (query : Query) :
    t.recentDecisions loads limit query = some (lastRecorded limit recorded) ↔
      (limit ≤ 0 → min (recorded.length : ℤ) 200 ≤ -limit) := by
  have hanswer : t.recentDecisions loads limit query =
      some (Limits.onFrom (recorded.rtake 200) (-limit)).reverse := by
    simp [Telemetry.recentDecisions, hconn, hrecent]
  rw [hanswer, Option.some.injEq]
  rcases lt_or_ge 0 limit with hpos | hneg
  · have hlast : Limits.onFrom (recorded.rtake 200) (-limit) = recorded.rtake limit.toNat := by
      rw [Limits.onFrom_of_neg (by omega), Int.neg_neg, ← List.rtake,
        rtake_rtake (show limit.toNat ≤ 200 by omega)]
    simp [lastRecorded, hlast, max_eq_left hpos.le, hpos.not_ge]
  · have hlength : ((recorded.rtake 200).length : ℤ) = min (recorded.length : ℤ) 200 := by
      rw [List.rtake, List.length_drop]
      omega
    rw [lastRecorded_of_nonpos hneg, List.reverse_eq_nil_iff, Limits.onFrom_eq_nil_iff (by omega),
      hlength]
    exact ⟨fun h _ => h, fun h => h hneg⟩

end

-- ---------------------------------------------------------------------------
-- One history
-- ---------------------------------------------------------------------------

namespace Journaled

def Serves (loads : String → Option J) (s : Journaled K J) (limit : ℤ) : Prop :=
  s.telemetry.recentDecisions loads limit .read = some (lastRecorded limit s.recorded.decisions)

instance [DecidableEq J] (loads : String → Option J) (s : Journaled K J) (limit : ℤ) :
    Decidable (s.Serves loads limit) :=
  inferInstanceAs (Decidable (_ = _))

/-- A reading is the end of the one history exactly where the limit is one that
slices and queries understand alike and, over a database, the clock bears out
the order of recording of the stored ones that are asked for. -/
theorem serves_history_iff [EmptyCollection J] (dumps : J → Option String)
    (loads : String → Option J) (retain : Retain) (now : K) (calls : List (HistoryCall K J))
    (hcalls : ∀ c ∈ calls, c.Commits dumps loads)
    (hkept : ((Runs.exec (live dumps) (start retain now) calls).recorded.decisions.length : ℤ) ≤
      retain.decisions)
    (remembered : List (TelemetryCall K J)) (limit : ℤ) :
    let s := Runs.exec (live dumps) (start retain now) calls
    let m := Runs.exec (step dumps) (inMemory retain now) remembered
    (s.Serves loads limit ↔
      ReadInOrder limit s.recorded.decisions s.telemetry.buffer.decisions.length) ∧
    (limit ≤ 200 → (m.Serves loads limit ↔
      (limit ≤ 0 → min (m.recorded.decisions.length : ℤ) 200 ≤ -limit))) := by
  intro s m
  constructor
  · have hwhole : Whole dumps loads retain s :=
      Runs.exec_keeps (P := Whole dumps loads retain)
        (fun _ c hc h => whole_live h (hcalls c hc)) (whole_start retain now)
    obtain ⟨db, stored, hconn, hread, hparts⟩ := hwhole.readAs hkept
    exact recentDecisions_conn_iff hconn hread hparts
  · intro hlimit
    have hremembering : Remembering m :=
      Runs.exec_keeps (fun _ c _ h => remembering_step h c) (remembering_start retain now)
    exact recentDecisions_memory_iff hremembering.conn hremembering.recent hlimit _

-- ---------------------------------------------------------------------------
-- A clock that is set back, and limits that are not above zero
-- ---------------------------------------------------------------------------

def emptyOrOne : List (String × ℕ) → Option String
  | [] => some "\x7b\x7d"
  | [("demand", 1)] => some "\x7b\"demand\": 1\x7d"
  | _ => none

def emptyOrOneLoads (text : String) : Option (List (String × ℕ)) :=
  if text = "\x7b\x7d" then some []
  else if text = "\x7b\"demand\": 1\x7d" then some [("demand", 1)]
  else none

def opened (wall : ℤ) : TelemetryCall ℤ (List (String × ℕ)) :=
  .recordDecision wall "activate_backup" "normal pool insufficient" [("demand", 1)] none

def closedAgain (wall : ℤ) : TelemetryCall ℤ (List (String × ℕ)) :=
  .recordDecision wall "deactivate_backup" "demand fell" [] none

def defaultRetain : Retain := ⟨5000, 20000, 200000⟩

def afterCalls (calls : List (HistoryCall ℤ (List (String × ℕ)))) :
    Journaled ℤ (List (String × ℕ)) :=
  Runs.exec (live emptyOrOne) (start defaultRetain 0) calls

theorem serves_in_order :
    (Runs.exec (live emptyOrOne) (start defaultRetain 0)
      [.call (opened 10), .call (closedAgain 20), .reopen 60 60 true,
        .call (opened 30)]).Serves emptyOrOneLoads 2 := by
  refine (serves_history_iff emptyOrOne emptyOrOneLoads defaultRetain 0 _ ?_ ?_ [] 2).1.mpr ?_
  · simp only [List.forall_mem_cons]
    exact ⟨⟨rfl, rfl⟩, ⟨rfl, rfl⟩, trivial, ⟨rfl, rfl⟩, by simp⟩
  · decide
  · decide

theorem set_back_reverses :
    ¬(afterCalls [.call (opened 20), .call (closedAgain 10), .call (.flush 60 true true)]).Serves
        emptyOrOneLoads 1 ∧
      ¬(afterCalls [.call (opened 10), .call (closedAgain 20)]).Serves emptyOrOneLoads
        (apiLimit (-1)) ∧
      ¬(afterCalls [.call (opened 10)]).Serves emptyOrOneLoads 9223372036854775808 ∧
      ¬(Runs.exec (step emptyOrOne) (inMemory defaultRetain 0) [opened 10]).Serves
        emptyOrOneLoads 0 := by
  decide

end Journaled

end Wifucked
