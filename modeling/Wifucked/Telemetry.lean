import Mathlib.Data.List.Nodup
import Wifucked.Lib.Journal
import Wifucked.Lib.Runs

/-!
# Telemetry

What is recorded waits in a buffer. A flush takes the whole buffer, inserts it
in one transaction and trims the tables in a second; where the first does not
come to its commit the batch is gone. `dumps` is `json.dumps`, which raises on
what it cannot serialise.
-/

namespace Wifucked

variable {K J : Type}

structure Decision (K J : Type) where
  recordedAt : K
  action : String
  reason : String
  inputs : J
  thresholds : J
  deriving DecidableEq

structure EventRecord (K J : Type) where
  recordedAt : K
  kind : String
  subject : Option String
  detail : J
  deriving DecidableEq

structure Sample (K : Type) where
  recordedAt : K
  atomicId : String
  downBps : Int
  upBps : Int
  rttMs : Option K
  lossPct : Option K
  deriving DecidableEq

structure Buffer (K J : Type) where
  decisions : List (Decision K J)
  events : List (EventRecord K J)
  samples : List (Sample K)

/-- The rows carry the dictionaries as texts. -/
structure Database (K : Type) where
  decisions : Journal (Decision K String)
  events : Journal (EventRecord K String)
  samples : Journal (Sample K)

structure Retain where
  decisions : ℤ
  events : ℤ
  samples : ℤ

structure Telemetry (K J : Type) where
  retain : Retain
  buffer : Buffer K J
  lastFlush : K
  conn : Option (Database K)
  recent : List (Decision K J)

namespace Buffer

def new : Buffer K J := ⟨[], [], []⟩

def empty (b : Buffer K J) : Bool :=
  b.decisions.isEmpty && b.events.isEmpty && b.samples.isEmpty

theorem eq_new_of_empty {b : Buffer K J} (h : b.empty = true) : b = new := by
  obtain ⟨decisions, events, samples⟩ := b
  obtain ⟨⟨rfl, rfl⟩, rfl⟩ : (decisions = [] ∧ events = []) ∧ samples = [] := by
    simpa [empty] using h
  rfl

end Buffer

def Decision.row (dumps : J → Option String) (d : Decision K J) : Option (Decision K String) := do
  let inputs ← dumps d.inputs
  let thresholds ← dumps d.thresholds
  return { d with inputs, thresholds }

def EventRecord.row (dumps : J → Option String) (e : EventRecord K J) :
    Option (EventRecord K String) := do
  let detail ← dumps e.detail
  return { e with detail }

namespace Database

def new : Database K := ⟨.empty, .empty, .empty⟩

def insert (dumps : J → Option String) (db : Database K) (b : Buffer K J) :
    Option (Database K) := do
  let decisions ← b.decisions.mapM (Decision.row dumps)
  let events ← b.events.mapM (EventRecord.row dumps)
  return {
    decisions := db.decisions.insert decisions
    events := db.events.insert events
    samples := db.samples.insert b.samples }

def trim (retain : Retain) (db : Database K) : Database K where
  decisions := db.decisions.trim retain.decisions
  events := db.events.trim retain.events
  samples := db.samples.trim retain.samples

end Database

inductive Flushed where
  /-- No database, or nothing to write. -/
  | idle
  | lost
  | untrimmed
  | trimmed
  deriving DecidableEq

namespace Telemetry

def init (retain : Retain) (conn : Option (Database K)) (now : K) : Telemetry K J where
  retain := retain
  buffer := .new
  lastFlush := now
  conn := conn
  recent := []

def recordDecision [EmptyCollection J] (t : Telemetry K J) (wall : K) (action reason : String)
    (inputs : J) (thresholds : Option J) : Telemetry K J :=
  let decision := ⟨wall, action, reason, inputs, thresholds.getD ∅⟩
  { t with
    buffer := { t.buffer with decisions := t.buffer.decisions ++ [decision] }
    recent := (t.recent ++ [decision]).rtake 200 }

def recordEvent (t : Telemetry K J) (wall : K) (kind : String) (detail : J)
    (subject : Option String) : Telemetry K J :=
  { t with buffer :=
    { t.buffer with events := t.buffer.events ++ [⟨wall, kind, subject, detail⟩] } }

def recordSample (t : Telemetry K J) (wall : K) (atomicId : String) (downBps upBps : Int)
    (rttMs lossPct : Option K) : Telemetry K J :=
  { t with
    buffer := { t.buffer with
      samples := t.buffer.samples ++ [⟨wall, atomicId, downBps, upBps, rttMs, lossPct⟩] } }

/-- `inserts` and `trims` say whether SQLite carries each transaction to its commit. -/
def flush (dumps : J → Option String) (t : Telemetry K J) (now : K) (inserts trims : Bool) :
    Telemetry K J × Flushed :=
  let buffered := t.buffer
  let t := { t with lastFlush := now, buffer := .new }
  match t.conn with
  | none => (t, .idle)
  | some db =>
    if buffered.empty then (t, .idle)
    else match (db.insert dumps buffered).filter fun _ => inserts with
      | none => (t, .lost)
      | some db =>
        if trims then ({ t with conn := some (db.trim t.retain) }, .trimmed)
        else ({ t with conn := some db }, .untrimmed)

/-- Whatever comes of the batch, the buffer is new and the flush has its time. -/
theorem flush_fields (dumps : J → Option String) (t : Telemetry K J) (now : K)
    (inserts trims : Bool) :
    (t.flush dumps now inserts trims).1.buffer = .new ∧
      (t.flush dumps now inserts trims).1.lastFlush = now := by
  unfold flush
  cases t.conn with
  | none => exact ⟨rfl, rfl⟩
  | some db =>
    dsimp only
    split
    · exact ⟨rfl, rfl⟩
    · split
      · exact ⟨rfl, rfl⟩
      · split <;> exact ⟨rfl, rfl⟩

end Telemetry

-- ---------------------------------------------------------------------------
-- Runs
-- ---------------------------------------------------------------------------

inductive TelemetryCall (K J : Type) where
  | recordDecision (wall : K) (action reason : String) (inputs : J) (thresholds : Option J)
  | recordEvent (wall : K) (kind : String) (detail : J) (subject : Option String)
  | recordSample (wall : K) (atomicId : String) (downBps upBps : Int) (rttMs lossPct : Option K)
  | flush (now : K) (inserts trims : Bool)

/-- The telemetry with all that was recorded so far, and each batch that a flush
took with whether its insert was committed. -/
structure Journaled (K J : Type) where
  telemetry : Telemetry K J
  recorded : Buffer K J
  batches : List (Buffer K J × Bool)

namespace Journaled

def start (retain : Retain) (now : K) : Journaled K J where
  telemetry := .init retain (some .new) now
  recorded := .new
  batches := []

def flushed (dumps : J → Option String) (s : Journaled K J) (now : K) (inserts trims : Bool) :
    Flushed := (s.telemetry.flush dumps now inserts trims).2

def step [EmptyCollection J] (dumps : J → Option String) (s : Journaled K J) :
    TelemetryCall K J → Journaled K J
  | .recordDecision wall action reason inputs thresholds =>
    { s with
      telemetry := s.telemetry.recordDecision wall action reason inputs thresholds
      recorded := { s.recorded with
        decisions := s.recorded.decisions ++
          [⟨wall, action, reason, inputs, thresholds.getD ∅⟩] } }
  | .recordEvent wall kind detail subject =>
    { s with
      telemetry := s.telemetry.recordEvent wall kind detail subject
      recorded := { s.recorded with
        events := s.recorded.events ++ [⟨wall, kind, subject, detail⟩] } }
  | .recordSample wall atomicId downBps upBps rttMs lossPct =>
    { s with
      telemetry := s.telemetry.recordSample wall atomicId downBps upBps rttMs lossPct
      recorded := { s.recorded with
        samples := s.recorded.samples ++ [⟨wall, atomicId, downBps, upBps, rttMs, lossPct⟩] } }
  | .flush now inserts trims =>
    { s with
      telemetry := (s.telemetry.flush dumps now inserts trims).1
      batches :=
        match s.flushed dumps now inserts trims with
        | .idle => s.batches
        | .lost => s.batches ++ [(s.telemetry.buffer, false)]
        | .untrimmed | .trimmed => s.batches ++ [(s.telemetry.buffer, true)] }

/-- The batches of one kind of record. -/
def of {R : Type} (π : Buffer K J → List R) (s : Journaled K J) : List (List R × Bool) :=
  s.batches.map fun b => (π b.1, b.2)

end Journaled

-- ---------------------------------------------------------------------------
-- One kind of record
-- ---------------------------------------------------------------------------

section

variable {R S : Type}

def committed (batches : List (List R × Bool)) : List R :=
  (batches.filter (·.2)).flatMap (·.1)

/-- The records of one kind: what came of each of them, and what the journal has
of the committed ones. -/
structure Fate (keep : ℤ) (row : R → Option S) (recorded buffer : List R)
    (batches : List (List R × Bool)) (journal : Journal S) : Prop where
  parts : recorded = batches.flatMap (·.1) ++ buffer
  history : ∃ written, (committed batches).mapM row = some written ∧ journal.Holds keep written

variable {keep : ℤ} {row : R → Option S} {recorded buffer : List R}
  {batches : List (List R × Bool)} {journal : Journal S}

theorem fate_start : Fate keep row [] [] [] .empty := ⟨rfl, [], rfl, Journal.holds_empty⟩

theorem fate_record (h : Fate keep row recorded buffer batches journal) (r : R) :
    Fate keep row (recorded ++ [r]) (buffer ++ [r]) batches journal :=
  ⟨by rw [h.parts, List.append_assoc], h.history⟩

theorem fate_lost (h : Fate keep row recorded buffer batches journal) :
    Fate keep row recorded [] (batches ++ [(buffer, false)]) journal where
  parts := by simp [h.parts]
  history := by simpa [committed] using h.history

theorem fate_insert (h : Fate keep row recorded buffer batches journal)
    (hrows : buffer.mapM row = some rows) :
    Fate keep row recorded [] (batches ++ [(buffer, true)]) (journal.insert rows) where
  parts := by simp [h.parts]
  history := by
    obtain ⟨written, hwritten, hholds⟩ := h.history
    refine ⟨written ++ rows, ?_, Journal.holds_insert hholds rows⟩
    have hcommitted : committed (batches ++ [(buffer, true)]) = committed batches ++ buffer := by
      simp [committed]
    rw [hcommitted, List.mapM_append, hwritten, hrows]
    rfl

theorem fate_trim (h : Fate keep row recorded buffer batches journal) :
    Fate keep row recorded buffer batches (journal.trim keep) where
  parts := h.parts
  history := by
    obtain ⟨written, hwritten, hholds⟩ := h.history
    exact ⟨written, hwritten, Journal.holds_trim hholds⟩

def Kept (keep : ℤ) (row : R → Option S) (batches : List (List R × Bool)) (journal : Journal S) :
    Prop :=
  ∃ written, (committed batches).mapM row = some written ∧ journal.Newest keep written

theorem kept_trim (h : Fate keep row recorded buffer batches journal) :
    Kept keep row batches (journal.trim keep) := by
  obtain ⟨written, hwritten, hholds⟩ := h.history
  exact ⟨written, hwritten, Journal.newest_trim hholds⟩

inductive Place where
  | buffer
  | committed
  /-- The batch of one failed flush. -/
  | failed (k : ℕ)

def Lies (buffer : List R) (batches : List (List R × Bool)) (r : R) : Place → Prop
  | .buffer => r ∈ buffer
  | .committed => r ∈ committed batches
  | .failed k => ∃ batch, batches[k]? = some (batch, false) ∧ r ∈ batch

theorem lies_iff (r : R) (p : Place) : Lies buffer batches r p ↔
    p = .buffer ∧ r ∈ buffer ∨
      ∃ k b, batches[k]? = some b ∧ r ∈ b.1 ∧ p = if b.2 then .committed else .failed k := by
  cases p with
  | buffer =>
    have hne : ∀ b : List R × Bool, ∀ k, Place.buffer ≠ if b.2 then .committed else .failed k := by
      intro b k
      split <;> simp
    simp [Lies, hne]
  | committed =>
    simp only [Lies, committed, List.mem_flatMap, List.mem_filter, reduceCtorEq, false_and,
      false_or]
    constructor
    · rintro ⟨b, ⟨hb, htrue⟩, hr⟩
      obtain ⟨k, hk⟩ := List.getElem?_of_mem hb
      exact ⟨k, b, hk, hr, by simp [htrue]⟩
    · rintro ⟨k, b, hk, hr, hp⟩
      refine ⟨b, ⟨List.mem_of_getElem? hk, ?_⟩, hr⟩
      cases hb : b.2 with
      | true => rfl
      | false => simp [hb] at hp
  | failed j =>
    simp only [Lies, reduceCtorEq, false_and, false_or]
    constructor
    · rintro ⟨batch, hj, hr⟩
      exact ⟨j, (batch, false), hj, hr, by simp⟩
    · rintro ⟨k, ⟨batch, ok⟩, hk, hr, hp⟩
      cases ok with
      | true => simp at hp
      | false =>
        obtain rfl : j = k := by simpa using hp
        exact ⟨batch, hk, hr⟩

theorem index_unique (hn : (batches.flatMap (·.1)).Nodup) {k l : ℕ} {b c : List R × Bool}
    (hb : batches[k]? = some b) (hc : batches[l]? = some c) (hrb : r ∈ b.1) (hrc : r ∈ c.1) :
    k = l := by
  have hpairwise := List.pairwise_iff_getElem.mp (List.nodup_flatMap.mp hn).2
  obtain ⟨hk, rfl⟩ := List.getElem?_eq_some_iff.mp hb
  obtain ⟨hl, rfl⟩ := List.getElem?_eq_some_iff.mp hc
  rcases Nat.lt_trichotomy k l with h | h | h
  · exact absurd hrc (hpairwise k l hk hl h hrb)
  · exact h
  · exact absurd hrb (hpairwise l k hl hk h hrc)

theorem one_place (h : Fate keep row recorded buffer batches journal) (hn : recorded.Nodup)
    (hr : r ∈ recorded) : ∃! p, Lies buffer batches r p := by
  rw [h.parts] at hn hr
  obtain ⟨hbatches, -, hdisjoint⟩ := List.nodup_append.mp hn
  have hexists : ∃ p, Lies buffer batches r p := by
    rcases List.mem_append.mp hr with hr | hr
    · obtain ⟨b, hb, hr⟩ := List.mem_flatMap.mp hr
      obtain ⟨k, hk⟩ := List.getElem?_of_mem hb
      exact ⟨_, (lies_iff r _).mpr (.inr ⟨k, b, hk, hr, rfl⟩)⟩
    · exact ⟨.buffer, hr⟩
  have hapart : ∀ (k : ℕ) b, batches[k]? = some b → r ∈ b.1 → r ∉ buffer := by
    intro k b hk hrb hrbuffer
    have hflat : r ∈ batches.flatMap (·.1) :=
      List.mem_flatMap.mpr ⟨b, List.mem_of_getElem? hk, hrb⟩
    exact hdisjoint r hflat r hrbuffer rfl
  obtain ⟨p, hp⟩ := hexists
  refine ⟨p, hp, ?_⟩
  intro q hq
  rcases (lies_iff r p).mp hp with ⟨rfl, hrp⟩ | ⟨k, b, hk, hrb, rfl⟩
  · rcases (lies_iff r q).mp hq with ⟨rfl, -⟩ | ⟨l, c, hl, hrc, -⟩
    · rfl
    · exact absurd hrp (hapart l c hl hrc)
  · rcases (lies_iff r q).mp hq with ⟨rfl, hrq⟩ | ⟨l, c, hl, hrc, rfl⟩
    · exact absurd hrq (hapart k b hk hrb)
    · obtain rfl := index_unique hbatches hk hl hrb hrc
      obtain rfl : b = c := Option.some.inj (hk.symm.trans hl)
      rfl

end

-- ---------------------------------------------------------------------------
-- All three kinds
-- ---------------------------------------------------------------------------

namespace Journaled

def Parted {R : Type} (recorded buffer : List R) (batches : List (List R × Bool)) : Prop :=
  recorded = batches.flatMap (·.1) ++ buffer ∧
    (recorded.Nodup → ∀ r ∈ recorded, ∃! p, Lies buffer batches r p)

structure Accounted (s : Journaled K J) : Prop where
  decisions : Parted s.recorded.decisions s.telemetry.buffer.decisions (s.of (·.decisions))
  events : Parted s.recorded.events s.telemetry.buffer.events (s.of (·.events))
  samples : Parted s.recorded.samples s.telemetry.buffer.samples (s.of (·.samples))

structure Bounded (dumps : J → Option String) (retain : Retain) (db : Database K)
    (s : Journaled K J) : Prop where
  decisions : Kept retain.decisions (Decision.row dumps) (s.of (·.decisions)) db.decisions
  events : Kept retain.events (EventRecord.row dumps) (s.of (·.events)) db.events
  samples : Kept retain.samples some (s.of (·.samples)) db.samples

/-- There is something to write, and all of it can be. -/
structure Writable (dumps : J → Option String) (s : Journaled K J) : Prop where
  waiting : s.telemetry.buffer.empty = false
  decisions : ∀ d ∈ s.telemetry.buffer.decisions, (d.row dumps).isSome
  events : ∀ e ∈ s.telemetry.buffer.events, (e.row dumps).isSome

structure Sound (dumps : J → Option String) (retain : Retain) (db : Database K)
    (s : Journaled K J) : Prop where
  limits : s.telemetry.retain = retain
  conn : s.telemetry.conn = some db
  decisions : Fate retain.decisions (Decision.row dumps) s.recorded.decisions
    s.telemetry.buffer.decisions (s.of (·.decisions)) db.decisions
  events : Fate retain.events (EventRecord.row dumps) s.recorded.events
    s.telemetry.buffer.events (s.of (·.events)) db.events
  samples : Fate retain.samples some s.recorded.samples
    s.telemetry.buffer.samples (s.of (·.samples)) db.samples

variable {dumps : J → Option String} {retain : Retain} {db : Database K} {s : Journaled K J}

theorem Sound.accounted (h : Sound dumps retain db s) : s.Accounted where
  decisions := ⟨h.decisions.parts, fun hn _ hr => one_place h.decisions hn hr⟩
  events := ⟨h.events.parts, fun hn _ hr => one_place h.events hn hr⟩
  samples := ⟨h.samples.parts, fun hn _ hr => one_place h.samples hn hr⟩

theorem of_append {R : Type} (π : Buffer K J → List R) (s : Journaled K J) (b : Buffer K J)
    (ok : Bool) (t : Telemetry K J) :
    of π { s with telemetry := t, batches := s.batches ++ [(b, ok)] } = s.of π ++ [(π b, ok)] := by
  simp [of]

structure Wrote (dumps : J → Option String) (db : Database K) (b : Buffer K J)
    (inserted : Database K) : Prop where
  decisions : ∃ rows, b.decisions.mapM (Decision.row dumps) = some rows ∧
    inserted.decisions = db.decisions.insert rows
  events : ∃ rows, b.events.mapM (EventRecord.row dumps) = some rows ∧
    inserted.events = db.events.insert rows
  samples : inserted.samples = db.samples.insert b.samples

theorem wrote_insert {b : Buffer K J} (h : db.insert dumps b = some inserted) :
    Wrote dumps db b inserted := by
  obtain ⟨decisions, hdecisions, h⟩ := Option.bind_eq_some_iff.mp h
  obtain ⟨events, hevents, h⟩ := Option.bind_eq_some_iff.mp h
  obtain rfl := Option.some.inj h
  exact ⟨⟨decisions, hdecisions, rfl⟩, ⟨events, hevents, rfl⟩, rfl⟩

theorem isSome_mapM {R S : Type} (row : R → Option S) (l : List R) :
    (l.mapM row).isSome ↔ ∀ r ∈ l, (row r).isSome := by
  induction l with
  | nil => simp
  | cons r l ih =>
    rw [List.mapM_cons, List.forall_mem_cons, ← ih]
    cases row r <;> cases l.mapM row <;> simp

theorem isSome_insert (dumps : J → Option String) (db : Database K) (b : Buffer K J) :
    (db.insert dumps b).isSome ↔ (∀ d ∈ b.decisions, (d.row dumps).isSome) ∧
      ∀ e ∈ b.events, (e.row dumps).isSome := by
  rw [← isSome_mapM, ← isSome_mapM]
  unfold Database.insert
  cases b.decisions.mapM (Decision.row dumps) <;> cases b.events.mapM (EventRecord.row dumps) <;>
    simp

variable (dumps) in
/-- The ends of a flush over an open database. -/
theorem flush_cases {t : Telemetry K J} (hconn : t.conn = some db) (now : K)
    (inserts trims : Bool) :
    let left := { t with lastFlush := now, buffer := .new }
    t.buffer.empty = true ∧ t.flush dumps now inserts trims = (left, .idle) ∨
      t.flush dumps now inserts trims = (left, .lost) ∨
      ∃ inserted, Wrote dumps db t.buffer inserted ∧
        (t.flush dumps now inserts trims = ({ left with conn := some inserted }, .untrimmed) ∨
          t.flush dumps now inserts trims =
            ({ left with conn := some (inserted.trim t.retain) }, .trimmed)) := by
  intro left
  cases hempty : t.buffer.empty with
  | true => exact .inl ⟨rfl, by simp [Telemetry.flush, hconn, hempty, left]⟩
  | false =>
    refine .inr ?_
    cases hinsert : (db.insert dumps t.buffer).filter fun _ => inserts with
    | none => exact .inl (by simp [Telemetry.flush, hconn, hempty, hinsert, left])
    | some inserted =>
      refine .inr ⟨inserted, wrote_insert (Option.filter_eq_some_iff.mp hinsert).1, ?_⟩
      cases trims with
      | false => exact .inl (by simp [Telemetry.flush, hconn, hempty, hinsert, left])
      | true => exact .inr (by simp [Telemetry.flush, hconn, hempty, hinsert, left])

theorem sound_batch {t : Telemetry K J} (hlimits : t.retain = retain) (hconn : t.conn = some db)
    (hbuffer : t.buffer = .new) {ok : Bool}
    (hd : Fate retain.decisions (Decision.row dumps) s.recorded.decisions []
      (s.of (·.decisions) ++ [(s.telemetry.buffer.decisions, ok)]) db.decisions)
    (he : Fate retain.events (EventRecord.row dumps) s.recorded.events []
      (s.of (·.events) ++ [(s.telemetry.buffer.events, ok)]) db.events)
    (hs : Fate retain.samples some s.recorded.samples []
      (s.of (·.samples) ++ [(s.telemetry.buffer.samples, ok)]) db.samples) :
    Sound dumps retain db
      { s with telemetry := t, batches := s.batches ++ [(s.telemetry.buffer, ok)] } := by
  refine ⟨hlimits, hconn, ?_, ?_, ?_⟩
  · rw [of_append, hbuffer]
    exact hd
  · rw [of_append, hbuffer]
    exact he
  · rw [of_append, hbuffer]
    exact hs

theorem sound_idle (h : Sound dumps retain db s) (hempty : s.telemetry.buffer.empty = true)
    (now : K) :
    Sound dumps retain db
      { s with telemetry := { s.telemetry with lastFlush := now, buffer := .new } } := by
  obtain ⟨hlimits, hconn, hd, he, hs⟩ := h
  rw [Buffer.eq_new_of_empty hempty] at hd he hs
  exact ⟨hlimits, hconn, hd, he, hs⟩

theorem fate_wrote (h : Sound dumps retain db s) (hwrote : Wrote dumps db s.telemetry.buffer db') :
    Fate retain.decisions (Decision.row dumps) s.recorded.decisions []
        (s.of (·.decisions) ++ [(s.telemetry.buffer.decisions, true)]) db'.decisions ∧
      Fate retain.events (EventRecord.row dumps) s.recorded.events []
        (s.of (·.events) ++ [(s.telemetry.buffer.events, true)]) db'.events ∧
      Fate retain.samples some s.recorded.samples []
        (s.of (·.samples) ++ [(s.telemetry.buffer.samples, true)]) db'.samples := by
  obtain ⟨⟨decisions, hdecisions, hd⟩, ⟨events, hevents, he⟩, hs⟩ := hwrote
  have hsamples : s.telemetry.buffer.samples.mapM some = some s.telemetry.buffer.samples := by
    simpa using List.mapM_pure (m := Option) (l := s.telemetry.buffer.samples) (f := fun r => r)
  rw [hd, he, hs]
  exact ⟨fate_insert h.decisions hdecisions, fate_insert h.events hevents,
    fate_insert h.samples hsamples⟩

variable [EmptyCollection J]

/-- After a flush the state is sound again, and bounded where both transactions
were committed. -/
theorem sound_flush (h : Sound dumps retain db s) (now : K) (inserts trims : Bool) :
    ∃ db', Sound dumps retain db' (s.step dumps (.flush now inserts trims)) ∧
      (s.flushed dumps now inserts trims = .trimmed →
        Bounded dumps retain db' (s.step dumps (.flush now inserts trims))) := by
  have hnot : ∀ ends : Flushed, ends ≠ .trimmed →
      (s.telemetry.flush dumps now inserts trims).2 = ends →
      s.flushed dumps now inserts trims = .trimmed →
      Bounded dumps retain db (s.step dumps (.flush now inserts trims)) := by
    intro ends hne hend htrimmed
    exact absurd (hend.symm.trans htrimmed) hne
  rcases flush_cases dumps h.conn now inserts trims with
    ⟨hempty, hflush⟩ | hflush | ⟨inserted, hwrote, hflush⟩
  · refine ⟨db, ?_, hnot .idle (by simp) (by rw [hflush])⟩
    simp only [step, flushed, hflush]
    exact sound_idle h hempty now
  · refine ⟨db, ?_, hnot .lost (by simp) (by rw [hflush])⟩
    simp only [step, flushed, hflush]
    refine sound_batch ?_ ?_ rfl (fate_lost h.decisions) (fate_lost h.events)
      (fate_lost h.samples)
    · exact h.limits
    · exact h.conn
  · obtain ⟨hd, he, hs⟩ := fate_wrote h hwrote
    rcases hflush with hflush | hflush
    · refine ⟨inserted, ?_, ?_⟩
      · simp only [step, flushed, hflush]
        refine sound_batch ?_ rfl rfl hd he hs
        exact h.limits
      · rw [flushed, hflush]
        intro htrimmed
        cases htrimmed
    · rw [h.limits] at hflush
      refine ⟨inserted.trim retain, ?_, fun _ => ?_⟩
      · simp only [step, flushed, hflush]
        refine sound_batch ?_ rfl rfl (fate_trim hd) (fate_trim he) (fate_trim hs)
        rfl
      · simp only [step, flushed, hflush]
        refine ⟨?_, ?_, ?_⟩
        · rw [of_append]
          exact kept_trim hd
        · rw [of_append]
          exact kept_trim he
        · rw [of_append]
          exact kept_trim hs

omit [EmptyCollection J] in
theorem sound_start (retain : Retain) (now : K) :
    Sound dumps retain .new (start retain now : Journaled K J) :=
  ⟨rfl, rfl, fate_start, fate_start, fate_start⟩

theorem sound_step (h : Sound dumps retain db s) (call : TelemetryCall K J) :
    ∃ db', Sound dumps retain db' (s.step dumps call) := by
  cases call with
  | recordDecision wall action reason inputs thresholds =>
    exact ⟨db, h.limits, h.conn, fate_record h.decisions _, h.events, h.samples⟩
  | recordEvent wall kind detail subject =>
    exact ⟨db, h.limits, h.conn, h.decisions, fate_record h.events _, h.samples⟩
  | recordSample wall atomicId downBps upBps rttMs lossPct =>
    exact ⟨db, h.limits, h.conn, h.decisions, h.events, fate_record h.samples _⟩
  | flush now inserts trims =>
    obtain ⟨db', hdb', -⟩ := sound_flush h now inserts trims
    exact ⟨db', hdb'⟩

omit [EmptyCollection J] in
/-- Both transactions commit just where SQLite carries them there and something waits
that can be written. -/
theorem flushed_trimmed (h : Sound dumps retain db s) (now : K) (inserts trims : Bool) :
    s.flushed dumps now inserts trims = .trimmed ↔
      inserts = true ∧ trims = true ∧ s.Writable dumps := by
  have hwritable : s.Writable dumps ↔ s.telemetry.buffer.empty = false ∧
      (db.insert dumps s.telemetry.buffer).isSome := by
    rw [isSome_insert]
    exact ⟨fun hw => ⟨hw.waiting, hw.decisions, hw.events⟩, fun hw => ⟨hw.1, hw.2.1, hw.2.2⟩⟩
  rw [hwritable, flushed, Telemetry.flush]
  simp only [h.conn]
  cases s.telemetry.buffer.empty with
  | true => simp
  | false =>
    cases db.insert dumps s.telemetry.buffer with
    | none => simp
    | some inserted => cases inserts <;> cases trims <;> simp [Option.filter]

/-- Every record is in the buffer, in a committed batch or in one that was lost,
and a flush that comes to its end leaves the newest of the committed ones. -/
theorem loses_nothing_committed (dumps : J → Option String) (retain : Retain) (now : K)
    (calls : List (TelemetryCall K J)) :
    let s := Runs.exec (step dumps) (start retain now) calls
    s.Accounted ∧ ∀ later inserts trims,
      (s.flushed dumps later inserts trims = .trimmed ↔
        inserts = true ∧ trims = true ∧ s.Writable dumps) ∧
      (s.flushed dumps later inserts trims = .trimmed →
        ∃ db, (s.step dumps (.flush later inserts trims)).telemetry.conn = some db ∧
          Bounded dumps retain db (s.step dumps (.flush later inserts trims))) := by
  intro s
  obtain ⟨db, hdb⟩ : ∃ db, Sound dumps retain db s := by
    refine Runs.exec_keeps (P := fun s => ∃ db, Sound dumps retain db s) ?_
      ⟨.new, sound_start retain now⟩
    rintro s call - ⟨db, hdb⟩
    exact sound_step hdb call
  refine ⟨hdb.accounted, ?_⟩
  intro later inserts trims
  refine ⟨flushed_trimmed hdb later inserts trims, fun htrimmed => ?_⟩
  obtain ⟨db', hsound, hbounded⟩ := sound_flush hdb later inserts trims
  exact ⟨db', hsound.conn, hbounded htrimmed⟩

-- ---------------------------------------------------------------------------
-- A journal of one decision
-- ---------------------------------------------------------------------------

def activations : List (TelemetryCall ℕ (List ℕ)) :=
  [.recordDecision 1 "activate" "deficit" [] none, .flush 2 true true,
    .recordDecision 3 "release" "surplus" [] none]

/-- The second decision leaves no room for the first. -/
theorem loses_nothing_committed_activations :
    ∃ db, (Runs.exec (step fun _ => some "[]") (start ⟨1, 1, 1⟩ 0)
        (activations ++ [.flush 4 true true])).telemetry.conn = some db ∧
      db.decisions.rows.map (·.values.action) = ["release"] ∧
      Bounded (fun _ => some "[]") ⟨1, 1, 1⟩ db (Runs.exec (step fun _ => some "[]")
        (start ⟨1, 1, 1⟩ 0) (activations ++ [.flush 4 true true])) := by
  obtain ⟨-, hflush⟩ := loses_nothing_committed (fun _ => some "[]") ⟨1, 1, 1⟩ 0 activations
  obtain ⟨hends, hkeeps⟩ := hflush 4 true true
  obtain ⟨db, hconn, hbounded⟩ := hkeeps (hends.mpr ⟨rfl, rfl, rfl, by decide, by decide⟩)
  refine ⟨db, hconn, ?_, hbounded⟩
  cases hconn
  decide

end Journaled

end Wifucked
